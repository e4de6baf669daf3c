import Vanguard.Xfr.Calls
import Vanguard.Xfr.Runner

namespace Vanguard.Xfr

open Library Zone

/-- What ends `doXFR`, and the program with it. -/
inductive XfrPanic where
  /-- `resp.Sections` of a nil message. -/
  | nilMessage
  | zone (e : Panic)
  deriving DecidableEq, Repr

/-- What `doXFR` uses of other libraries. -/
structure Libraries where
  engine : Engine
  compareSerial : UInt32 → UInt32 → Int
  messageFromWire : List UInt8 → Option (List (RRset Rdata))
  /-- `RotateRdata`, which a lookup ends with. -/
  rotate : List Ptr → List Ptr

def allocRdatas (rdatas : Heap Rdata) : List Rdata → Heap Rdata × List Ptr
  | [] => (rdatas, [])
  | rdata :: rest =>
    let (rdatas, p) := rdatas.alloc rdata
    let (rdatas, ps) := allocRdatas rdatas rest
    (rdatas, p :: ps)

def readAnswers (h : Objects) : List (RRset Rdata) → Objects × List AnswerRRset
  | [] => (h, [])
  | r :: rest =>
    let (rdatas, ps) := allocRdatas h.rdatas r.rdatas
    let (h, p) := { h with rdatas }.allocRRset { r with rdatas := ps }
    let (h, answers) := readAnswers h rest
    (h, ⟨p, r⟩ :: answers)

/-- What `doXFR` leaves: the objects, the zone and the zones being transferred. -/
structure XfrEnd (T : Type) where
  objects : Objects
  zone : DynamicZone T
  inFlightIXFR : String → List Name

variable {T : Type} [DomainTree T NameNode]

section

variable (lib : Libraries)

/-- `doXFR` from `MessageFromWire` on, none if the master did not answer. -/
def receiveXFR (typ : XfrType) (h : Objects) (dz : DynamicZone T)
    (currentSerial latestSerial : UInt32) (answerBuffer : Option (List UInt8)) :
    Except XfrPanic (Objects × DynamicZone T) :=
  match answerBuffer with
  | none => .ok (h, dz)
  | some bytes =>
    match lib.messageFromWire bytes with
    | none => .error .nilMessage
    | some rrsets =>
      let (h, answers) := readAnswers h rrsets
      (updateZoneUseXFR lib.engine typ h dz currentSerial latestSerial answers).mapError .zone

/-- `doXFR` up to the deferred call. -/
def transferZone (h : Objects) (dz : DynamicZone T) (latestSerial : UInt32)
    (answerBuffer : Option (List UInt8)) : Except XfrPanic (Objects × DynamicZone T) :=
  match dz.find lib.rotate h ⟨dz.memoryZone.origin, .soa, .default⟩ with
  | .error e => .error (.zone e)
  | .ok (h, found) =>
    match found.rrset with
    | none => receiveXFR lib .axfr h dz 0 latestSerial answerBuffer
    | some soa =>
      match soa.rdatas with
      | [] => .error (.zone .indexOutOfRange)
      | rdata :: _ =>
        match serialOf rdata with
        | none => .error (.zone .notSOA)
        | some currentSerial =>
          if lib.compareSerial currentSerial latestSerial ≠ -1 then .ok (h, dz)
          else receiveXFR lib .ixfr h dz currentSerial latestSerial answerBuffer

def doXFR (inFlightIXFR : String → List Name) (view : String) (h : Objects) (dz : DynamicZone T)
    (latestSerial : UInt32) (answerBuffer : Option (List UInt8)) : Except XfrPanic (XfrEnd T) :=
  (transferZone lib h dz latestSerial answerBuffer).map fun r =>
    ⟨r.1, r.2, removeZoneFromTransfer inFlightIXFR view dz.memoryZone.origin⟩

def Receives (typ : XfrType) (h : Objects) (dz : DynamicZone T)
    (currentSerial latestSerial : UInt32) (answerBuffer : Option (List UInt8)) : Prop :=
  ∀ bytes ∈ answerBuffer, ∃ rrsets, lib.messageFromWire bytes = some rrsets ∧
    UpdateReads lib.engine typ (readAnswers h rrsets).1 dz currentSerial latestSerial
      (readAnswers h rrsets).2

def Transfers (h : Objects) (dz : DynamicZone T) (latestSerial : UInt32)
    (answerBuffer : Option (List UInt8)) : Prop :=
  ∃ h' found, dz.find lib.rotate h ⟨dz.memoryZone.origin, .soa, .default⟩ = .ok (h', found) ∧
    (found.rrset = none → Receives lib .axfr h' dz 0 latestSerial answerBuffer) ∧
    ∀ soa, found.rrset = some soa → ∃ currentSerial,
      soa.rdatas.head?.bind serialOf = some currentSerial ∧
      (lib.compareSerial currentSerial latestSerial = -1 →
        Receives lib .ixfr h' dz currentSerial latestSerial answerBuffer)

end

variable [LawfulDomainTree T NameNode]

theorem receiveXFR_returns_iff {lib : Libraries} (hlib : lib.engine.Lawful) (typ : XfrType)
    (h : Objects) {dz : DynamicZone T} (hfree : dz.locked = false)
    (currentSerial latestSerial : UInt32) (answerBuffer : Option (List UInt8)) :
    (∃ r, receiveXFR lib typ h dz currentSerial latestSerial answerBuffer = .ok r ∧
      r.2.locked = false) ↔
      Receives lib typ h dz currentSerial latestSerial answerBuffer := by
  unfold receiveXFR Receives
  cases answerBuffer with
  | none => simp [hfree]
  | some bytes =>
    simp only [Option.mem_def, Option.some.injEq, forall_eq']
    cases lib.messageFromWire bytes with
    | none => simp
    | some rrsets =>
      simp only [Option.some.injEq, exists_eq_left', ← updateZoneUseXFR_returns_iff hlib]
      cases updateZoneUseXFR lib.engine typ (readAnswers h rrsets).1 dz currentSerial latestSerial
        (readAnswers h rrsets).2 <;> simp [Except.mapError]

/-- `doXFR` returns and releases everything exactly if all it reads is there. -/
theorem doXFR_returns_iff {lib : Libraries} (hlib : lib.engine.Lawful)
    (inFlightIXFR : String → List Name) (view : String) (h : Objects) {dz : DynamicZone T}
    (hfree : dz.locked = false) (latestSerial : UInt32) (answerBuffer : Option (List UInt8)) :
    (∃ r, doXFR lib inFlightIXFR view h dz latestSerial answerBuffer = .ok r ∧
      r.zone.locked = false ∧
      r.inFlightIXFR = removeZoneFromTransfer inFlightIXFR view dz.memoryZone.origin) ↔
      Transfers lib h dz latestSerial answerBuffer := by
  have hend : (∃ r, doXFR lib inFlightIXFR view h dz latestSerial answerBuffer = .ok r ∧
      r.zone.locked = false ∧
      r.inFlightIXFR = removeZoneFromTransfer inFlightIXFR view dz.memoryZone.origin) ↔
      ∃ r, transferZone lib h dz latestSerial answerBuffer = .ok r ∧ r.2.locked = false := by
    unfold doXFR
    cases transferZone lib h dz latestSerial answerBuffer <;> simp [Except.map]
  rw [hend]
  unfold transferZone Transfers
  cases dz.find lib.rotate h ⟨dz.memoryZone.origin, .soa, .default⟩ with
  | error e => simp
  | ok r =>
    obtain ⟨h', found⟩ := r
    have hfound (P : Objects → FindAnswer → Prop) :
        (∃ h'' found', (.ok (h', found) : Except Panic (Objects × FindAnswer)) =
          .ok (h'', found') ∧ P h'' found') ↔ P h' found := by
      simp
    rw [hfound]
    have hreceive (typ : XfrType) (currentSerial : UInt32) :=
      receiveXFR_returns_iff hlib typ h' hfree currentSerial latestSerial answerBuffer
    cases hrrset : found.rrset with
    | none => simpa [hrrset] using hreceive .axfr 0
    | some soa =>
      simp only [hrrset, reduceCtorEq, false_imp_iff, Option.some.injEq, forall_eq', true_and]
      cases hrdatas : soa.rdatas with
      | nil => simp
      | cons rdata rest =>
        simp only [List.head?_cons, Option.bind_some]
        cases hserial : serialOf rdata with
        | none => simp
        | some currentSerial =>
          by_cases hstart : lib.compareSerial currentSerial latestSerial = -1
          · simpa [hstart, hserial] using hreceive .ixfr currentSerial
          · simp [hstart, hfree]

def exampleLibraries (answer : Option (List (RRset Rdata))) : Libraries where
  engine := .reference
  compareSerial a b := if a < b then -1 else 0
  messageFromWire _ := answer
  rotate := id

def exampleSoaOf (serials : List UInt32) : RRset Rdata :=
  ⟨["example"], .soa, .internet, 300,
    serials.map fun n => .soa ⟨["ns", "example"], ["root", "example"], n, 7200, 3600, 86400, 300⟩⟩

def exampleNs (target : Name) : RRset Rdata := ⟨["example"], .ns, .internet, 300, [.ns target]⟩

/-- A whole zone in answer to the request for a difference. -/
theorem example_doXFR_returns :
    ∃ r, doXFR (exampleLibraries (some [exampleSoaOf [5], exampleNs ["ns", "example"],
          exampleSoaOf [5]])) (fun _ => [["example"]]) "default" exampleObjects
        (⟨exampleZone, false⟩ : DynamicZone (ReferenceTree NameNode)) 5 (some []) = .ok r ∧
      r.zone.locked = false ∧
      r.inFlightIXFR = removeZoneFromTransfer (fun _ => [["example"]]) "default" ["example"] := by
  refine (doXFR_returns_iff Engine.lawful_reference (fun _ => [["example"]]) "default"
    exampleObjects rfl 5 (some [])).mpr ⟨_, _, rfl, (by simp), ?_⟩
  rintro soa ⟨⟩
  refine ⟨1, by decide, fun _ bytes _ => ⟨_, rfl, by decide⟩⟩

/-- An answer that is no message, and one that deletes the NS RRset twice. -/
theorem example_doXFR_panics :
    (doXFR (exampleLibraries none) (fun _ => [["example"]]) "default" exampleObjects
        (⟨exampleZone, false⟩ : DynamicZone (ReferenceTree NameNode)) 5 (some []) =
      .error .nilMessage) ∧
    (doXFR (exampleLibraries (some [exampleSoaOf [2, 1], exampleNs ["a", "example"],
          ⟨["www", "example"], .a, .internet, 300, [.a [1, 1, 1, 1]]⟩,
          exampleNs ["b", "example"], exampleSoaOf [2, 2]]))
        (fun _ => [["example"]]) "default" exampleObjects
        (⟨exampleZone, false⟩ : DynamicZone (ReferenceTree NameNode)) 5 (some []) =
      .error (.zone .nilRRset)) :=
  ⟨rfl, rfl⟩

end Vanguard.Xfr
