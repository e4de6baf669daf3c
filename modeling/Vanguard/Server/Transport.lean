import Mathlib.Data.Nat.Basic

/-!
# The server's transport and its handler routines

TCP connections take a slot each. TCP and UDP queries go through one channel to the handler
routines. The state holds connections and messages by where they are; a step is one atomic action.
-/

namespace Vanguard.Server

def maxConcurrentTCPConn : ℤ := 512

def defaultHandlerCount : ℕ := 1024

inductive Opcode where
  | query
  | notify
  | other
  deriving DecidableEq, Repr

/-- What `request.FromWire` makes of the bytes of a query. -/
inductive Wire where
  | error
  | panics
  | request (opcode : Opcode)
  deriving DecidableEq, Repr

inductive Outcome where
  | response
  | noResponse
  | panics
  deriving DecidableEq, Repr

structure Message (B : Type) where
  usingTCP : Bool
  conn : ℕ
  buf : B
  deriving DecidableEq, Repr

def Message.tcpConn {B : Type} (q : Message B) : Option ℕ :=
  if q.usingTCP then some q.conn else none

structure Config (B : Type) where
  listeners : ℕ
  handlerCount : ℕ
  fromWire : B → Wire
  xfrHander : Bool

def Config.handlers {B : Type} (cfg : Config B) : ℕ :=
  if cfg.handlerCount = 0 then defaultHandlerCount else cfg.handlerCount

/-- The transport with a record of what was released and dealt with. -/
structure Transport (B : Type) where
  next : ℕ
  tcpConnCount : ℤ
  /-- The connections whose accept loop has read the count and not yet raised it. -/
  admitting : List ℕ
  /-- The connections in `handleTCPConn`. -/
  reading : List ℕ
  messageChan : List (Message B)
  handling : List (Message B)
  /-- The calls of `releaseConn`. -/
  released : List ℕ
  /-- The accepted connections that could not be read or whose message has been processed. -/
  finished : List ℕ
  deriving DecidableEq, Repr

inductive Event (B : Type) where
  | accept
  /-- An accept loop raises the count and starts the goroutine. -/
  | grant (i : ℕ)
  | readFails (i : ℕ)
  /-- `TCPRead` returns and the message is put into the channel. -/
  | read (i : ℕ) (buf : B)
  | datagram (socket : ℕ) (buf : B)
  | receive
  | process (i : ℕ) (outcome : Outcome)
  deriving DecidableEq, Repr

inductive NotEnabled where
  | notEnabled
  deriving DecidableEq, Repr

variable {B : Type}

def newTransport : Transport B := ⟨0, 0, [], [], [], [], [], []⟩

def Transport.releaseConn (s : Transport B) (conn : ℕ) : Transport B :=
  { s with released := s.released ++ [conn], tcpConnCount := s.tcpConnCount - 1 }

def Transport.sendResponse (s : Transport B) (q : Message B) : Transport B :=
  if q.usingTCP then s.releaseConn q.conn else s

def Config.dispatches (cfg : Config B) (opcode : Opcode) : Bool :=
  opcode = .query || (opcode = .notify && cfg.xfrHander)

/-- The loop of `startHandlerRoutine`. A panic is recovered, and a new routine takes over. -/
def Transport.processMessage (cfg : Config B) (s : Transport B) (q : Message B)
    (outcome : Outcome) : Transport B :=
  match cfg.fromWire q.buf with
  | .error => s
  | .panics => s
  | .request opcode =>
    if cfg.dispatches opcode then
      match outcome with
      | .response => s.sendResponse q
      | .noResponse => s
      | .panics => s
    else s

def Transport.step (cfg : Config B) (s : Transport B) : Event B → Except NotEnabled (Transport B)
  | .accept =>
    if s.admitting.length < cfg.listeners then
      if s.tcpConnCount < maxConcurrentTCPConn then
        .ok { s with next := s.next + 1, admitting := s.admitting ++ [s.next] }
      else .ok { s with next := s.next + 1 }
    else .error .notEnabled
  | .grant i =>
    match s.admitting[i]? with
    | some conn =>
      .ok { s with tcpConnCount := s.tcpConnCount + 1, admitting := s.admitting.eraseIdx i,
                   reading := s.reading ++ [conn] }
    | none => .error .notEnabled
  | .readFails i =>
    match s.reading[i]? with
    | some conn =>
      .ok ({ s with reading := s.reading.eraseIdx i,
                    finished := s.finished ++ [conn] }.releaseConn conn)
    | none => .error .notEnabled
  | .read i buf =>
    match s.reading[i]? with
    | some conn =>
      if s.messageChan.length < cfg.handlers then
        .ok { s with reading := s.reading.eraseIdx i,
                     messageChan := s.messageChan ++ [⟨true, conn, buf⟩] }
      else .error .notEnabled
    | none => .error .notEnabled
  | .datagram socket buf =>
    if s.messageChan.length < cfg.handlers then
      .ok { s with messageChan := s.messageChan ++ [⟨false, socket, buf⟩] }
    else .ok s
  | .receive =>
    match s.messageChan with
    | q :: messageChan =>
      if s.handling.length < cfg.handlers then
        .ok { s with messageChan, handling := s.handling ++ [q] }
      else .error .notEnabled
    | [] => .error .notEnabled
  | .process i outcome =>
    match s.handling[i]? with
    | some q =>
      .ok ({ s with handling := s.handling.eraseIdx i,
                    finished := s.finished ++ q.tcpConn.toList }.processMessage cfg q outcome)
    | none => .error .notEnabled

def Transport.unfinished (s : Transport B) : List ℕ :=
  s.reading ++ s.messageChan.filterMap Message.tcpConn ++ s.handling.filterMap Message.tcpConn

/-- As many slots are taken as connections are unfinished, and each is released once. -/
structure Transport.Accounted (s : Transport B) : Prop where
  count : s.tcpConnCount = s.unfinished.length
  once : ∀ conn ∈ s.finished, s.released.count conn = 1
  notYet : ∀ conn ∈ s.unfinished, s.released.count conn = 0

def Config.Answers (cfg : Config B) (q : Message B) (outcome : Outcome) : Prop :=
  match cfg.fromWire q.buf with
  | .request opcode => cfg.dispatches opcode = true ∧ outcome = .response
  | _ => False

instance (cfg : Config B) (q : Message B) (outcome : Outcome) :
    Decidable (cfg.Answers q outcome) := by
  unfold Config.Answers
  split <;> infer_instance

def Transport.AnswersTcp (cfg : Config B) (s : Transport B) : Event B → Prop
  | .process i outcome => ∀ q ∈ s.handling[i]?, q.usingTCP = true → cfg.Answers q outcome
  | _ => True

instance (cfg : Config B) (s : Transport B) : ∀ e, Decidable (s.AnswersTcp cfg e)
  | .process i outcome =>
    inferInstanceAs (Decidable (∀ q ∈ s.handling[i]?, q.usingTCP = true → cfg.Answers q outcome))
  | .accept | .grant _ | .readFails _ | .read _ _ | .datagram _ _ | .receive => .isTrue trivial

end Vanguard.Server
