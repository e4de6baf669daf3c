import Vanguard.Dns.Message

/-!
# Queries over UDP

`UDPSender.Query` reads datagrams into one buffer until one has the id of the query. It cuts the
buffer to length zero before it reads again, so nothing is left of any datagram after the first.
-/

namespace Vanguard.Util

/-- `R_FORMERR`. -/
def formErr : Rcode := ⟨1⟩

/-- What `MessageFromWire` makes of a datagram: the fields `Query` looks at and the rest. -/
structure Reply (B : Type) where
  id : UInt16
  rcode : Rcode
  question : Option Question
  body : B
  deriving DecidableEq, Repr

structure Request where
  id : UInt16
  question : Question
  deriving DecidableEq, Repr

structure Datagram where
  bytes : List UInt8
  /-- `time.Now()` after it has been read. -/
  readTime : Time
  deriving DecidableEq, Repr

inductive QueryError where
  | dial
  | deadline
  /-- `MessageFromWire` fails. -/
  | wire
  | errMalformedResponse
  deriving DecidableEq, Repr

/-- What `Query` returns: the message, the round trip time and the error. -/
structure QueryResult (B : Type) where
  msg : Option (Reply B)
  rtt : Time
  err : Option QueryError
  deriving DecidableEq, Repr

section

variable {B : Type}

def isResponseValid (req : Request) (resp : Reply B) : Option QueryError :=
  if resp.rcode = formErr then none
  else if resp.question = some req.question then none
  else some .errMalformedResponse

def bufferSize : ℕ := 1024

variable (messageFromWire : List UInt8 → Option (Reply B)) (timeout sendTime : Time)

def readReply (query : Request) : ℕ → List Datagram → QueryResult B
  | _, [] => ⟨none, timeout, some .deadline⟩
  | len, d :: ds =>
    match messageFromWire (d.bytes.take len) with
    | none => ⟨none, timeout, some .wire⟩
    | some msg =>
      if msg.id = query.id then
        match isResponseValid query msg with
        | some err => ⟨none, d.readTime - sendTime, some err⟩
        | none => ⟨some msg, d.readTime - sendTime, none⟩
      -- `buf = buf[:0]`
      else readReply query 0 ds

/-- `UDPSender.Query`, with the datagrams that arrive before the deadline. -/
def query (request : Request) (conn : Option (List Datagram)) : QueryResult B :=
  match conn with
  | none => ⟨none, timeout, some .dial⟩
  | some datagrams => readReply messageFromWire timeout sendTime request bufferSize datagrams

/-- `MessageFromWire` reads the id from the first two bytes. -/
def ReadsId : Prop :=
  ∀ bytes msg, messageFromWire bytes = some msg →
    ∃ hi lo rest, bytes = hi :: lo :: rest ∧ msg.id = hi.toUInt16 * 256 + lo.toUInt16

variable {messageFromWire timeout sendTime}

section

variable (h : ReadsId messageFromWire)

include h

theorem ReadsId.take {bytes : List UInt8} {msg msg' : Reply B} {len : ℕ}
    (hmsg : messageFromWire bytes = some msg)
    (hmsg' : messageFromWire (bytes.take len) = some msg') : msg'.id = msg.id := by
  obtain ⟨hi, lo, rest, rfl, hid⟩ := h _ _ hmsg
  obtain ⟨hi', lo', rest', hbytes, hid'⟩ := h _ _ hmsg'
  match len with
  | 0 | 1 => cases hbytes
  | len + 2 =>
    obtain ⟨rfl, rfl, -⟩ : hi = hi' ∧ lo = lo' ∧ rest.take len = rest' := by simpa using hbytes
    rw [hid, hid']

theorem ReadsId.readReply_zero (request : Request) (datagrams : List Datagram) :
    (readReply messageFromWire timeout sendTime request 0 datagrams).msg = none := by
  cases datagrams with
  | nil => rfl
  | cons d ds =>
    cases hmsg : messageFromWire (d.bytes.take 0) with
    | none => simp only [readReply, hmsg]
    | some msg =>
      obtain ⟨hi, lo, rest, hbytes, -⟩ := h _ _ hmsg
      cases hbytes

theorem ReadsId.readReply_stray {request : Request} {len : ℕ} {d : Datagram} {stray : Reply B}
    (hstray : messageFromWire d.bytes = some stray) (hid : stray.id ≠ request.id)
    (datagrams : List Datagram) :
    (readReply messageFromWire timeout sendTime request len (d :: datagrams)).msg = none := by
  unfold readReply
  cases hmsg : messageFromWire (d.bytes.take len) with
  | none => rfl
  | some msg =>
    have hother : msg.id ≠ request.id := by rwa [h.take hstray hmsg]
    simp only [if_neg hother]
    exact h.readReply_zero request datagrams

end

/-- The response is returned exactly if no datagram with another id comes first. -/
theorem query_returns_response_iff (h : ReadsId messageFromWire) (request : Request)
    {strays : List Datagram}
    (hstrays : ∀ d ∈ strays, ∃ stray, messageFromWire d.bytes = some stray ∧ stray.id ≠ request.id)
    {d : Datagram} {resp : Reply B} (hresp : messageFromWire d.bytes = some resp)
    (hlength : d.bytes.length ≤ bufferSize) (hid : resp.id = request.id)
    (hquestion : resp.question = some request.question) (later : List Datagram) :
    query messageFromWire timeout sendTime request (some (strays ++ d :: later)) =
        ⟨some resp, d.readTime - sendTime, none⟩ ↔ strays = [] := by
  cases strays with
  | nil =>
    have hvalid : isResponseValid request resp = none := by simp [isResponseValid, hquestion]
    simp [query, readReply, List.take_of_length_le hlength, hresp, hid, hvalid]
  | cons first strays =>
    obtain ⟨stray, hstray, hother⟩ := hstrays first List.mem_cons_self
    refine iff_of_false (fun heq => ?_) (by simp)
    have hnone : (query messageFromWire timeout sendTime request
        (some (first :: strays ++ d :: later))).msg = none := h.readReply_stray hstray hother _
    rw [heq] at hnone
    cases hnone

end

def idFromWire : List UInt8 → Option (Reply (List UInt8))
  | hi :: lo :: rest =>
    some ⟨hi.toUInt16 * 256 + lo.toUInt16, ⟨0⟩, some ⟨["www"], .a, .internet⟩, rest⟩
  | _ => none

theorem readsId_idFromWire : ReadsId idFromWire := by
  intro bytes msg hmsg
  match bytes with
  | [] | [_] => cases hmsg
  | hi :: lo :: rest =>
    cases hmsg
    exact ⟨hi, lo, rest, rfl, rfl⟩

/-- The response is returned if it is the first datagram. -/
theorem example_first_datagram_returned :
    query idFromWire 3000 0 ⟨1, ⟨["www"], .a, .internet⟩⟩ (some ([] ++ ⟨[0, 1, 7], 20⟩ :: [])) =
      ⟨some ⟨1, ⟨0⟩, some ⟨["www"], .a, .internet⟩, [7]⟩, 20, none⟩ :=
  (query_returns_response_iff readsId_idFromWire ⟨1, ⟨["www"], .a, .internet⟩⟩ (by simp)
    (d := ⟨[0, 1, 7], 20⟩) rfl (by decide) rfl rfl []).mpr rfl

/-- A late answer to an earlier query is read first, and the response is not understood. -/
theorem example_second_datagram_lost :
    query idFromWire 3000 0 ⟨1, ⟨["www"], .a, .internet⟩⟩
        (some [⟨[0, 9, 7], 10⟩, ⟨[0, 1, 7], 20⟩]) = ⟨none, 3000, some .wire⟩ := by
  decide

end Vanguard.Util
