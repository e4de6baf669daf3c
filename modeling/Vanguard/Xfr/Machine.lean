import Vanguard.Dns.RRset
import Vanguard.Library.Fsm
import Vanguard.Library.Runs

/-!
# The zone transfer state machines

`XFRStateMachine.Run` feeds the machine of an incremental transfer the rdatas of SOA RRsets one by
one, and that of a full transfer one RRset at a time. Whether a SOA is taken for the wrapper depends
on its position only.
-/

namespace Vanguard.Xfr

open Library

inductive XfrType where
  | axfr
  | ixfr
  deriving DecidableEq, Repr

inductive Phase where
  | init
  | start
  | deleteSection
  | addSection
  | done
  deriving DecidableEq, Repr

inductive XfrError where
  | errSerialNumberIsWrong
  | errWrapperSOAIsNotInPair
  | errSOAShouldHasOneRR
  | errIXFRDataSectionFormatError
  /-- `fsm.InvalidEventError`. -/
  | invalidEvent
  /-- `fsm.NoTransitionError`. -/
  | noTransition
  deriving DecidableEq, Repr

/-- What ends a run early: a returned error or a panic. -/
inductive Stop where
  /-- `Run` returns the error. -/
  | err (e : XfrError)
  | panic
  deriving DecidableEq, Repr

def serialOf : Rdata → Option UInt32
  | .soa soa => some soa.serial
  | _ => none

structure AnswerRRset where
  ptr : Ptr
  value : RRset Rdata
  deriving DecidableEq, Repr

/-- `zone.ZoneUpdator` on one transaction. The machines ignore the errors its calls return. -/
structure Updator (σ : Type) where
  add : σ → Ptr → σ
  deleteRRset : σ → Ptr → σ
  increaseSerialNumber : σ → σ

structure XFRSMGenertor (σ : Type) where
  latestSerial : UInt32
  currentSerial : UInt32
  tx : σ
  deriving DecidableEq, Repr

structure XFRStateMachine (σ : Type) where
  current : Phase
  generator : XFRSMGenertor σ
  deriving DecidableEq, Repr

inductive IxfrEvent where
  | getWrapperSoa (serial : UInt32)
  | getMidSoa (serial : UInt32)
  | getNoneSoa (rrset : Ptr)
  deriving DecidableEq, Repr

inductive AxfrEvent where
  | getWrapperSoa (soa : AnswerRRset)
  | getNoneSoa (rrset : Ptr)
  deriving DecidableEq, Repr

variable {σ : Type}

def genIXFRStateMachine (u : Updator σ) : Machine Phase IxfrEvent (XFRSMGenertor σ) Stop where
  table
    | .init, .getWrapperSoa _ => some .start
    | .start, .getMidSoa _ => some .deleteSection
    | .deleteSection, .getMidSoa _ => some .addSection
    | .addSection, .getMidSoa _ => some .deleteSection
    | .addSection, .getWrapperSoa _ => some .done
    | .deleteSection, .getNoneSoa _ => some .deleteSection
    | .addSection, .getNoneSoa _ => some .addSection
    | _, _ => none
  before src
    | .getWrapperSoa serial, g =>
      if src = .init then ({ g with latestSerial := serial }, none)
      else if g.latestSerial ≠ serial then (g, some (.err .errWrapperSOAIsNotInPair))
      else (g, none)
    | .getMidSoa serial, g =>
      if src = .start ∨ src = .addSection then
        if serial ≠ g.currentSerial then (g, some (.err .errSerialNumberIsWrong)) else (g, none)
      else if serial ≠ g.currentSerial + 1 then (g, some (.err .errSerialNumberIsWrong))
      else ({ g with currentSerial := g.currentSerial + 1, tx := u.increaseSerialNumber g.tx },
        none)
    | .getNoneSoa _, g => (g, none)
  after src
    | .getNoneSoa rrset, g =>
      if src = .deleteSection then { g with tx := u.deleteRRset g.tx rrset }
      else { g with tx := u.add g.tx rrset }
    | _, g => g

def genAXFRStateMachine (u : Updator σ) : Machine Phase AxfrEvent (XFRSMGenertor σ) Stop where
  table
    | .init, .getWrapperSoa _ => some .start
    | .start, .getNoneSoa _ => some .addSection
    | .addSection, .getNoneSoa _ => some .addSection
    | .addSection, .getWrapperSoa _ => some .done
    | _, _ => none
  before src
    | .getWrapperSoa soa, g =>
      match soa.value.rdatas.head?.bind serialOf with
      | none => (g, some .panic)
      | some serial =>
        if serial ≠ g.latestSerial then (g, some (.err .errSerialNumberIsWrong))
        else if src = .init then ({ g with tx := u.add g.tx soa.ptr }, none)
        else (g, none)
    | .getNoneSoa _, g => (g, none)
  after _
    | .getNoneSoa rrset, g => { g with tx := u.add g.tx rrset }
    | .getWrapperSoa _, g => g

def XFRStateMachine.event {A : Type} (F : Engine) (m : Machine Phase A (XFRSMGenertor σ) Stop)
    (sm : XFRStateMachine σ) (a : A) : XFRStateMachine σ × Fired Stop :=
  let (current, generator, fired) := F.event m sm.current sm.generator a
  (⟨current, generator⟩, fired)

def stopOf : Fired Stop → Option Stop
  | .moved => none
  | .noTransition => some (.err .noTransition)
  | .invalidEvent => some (.err .invalidEvent)
  | .canceled cause => some cause

inductive IxfrInput where
  | soa (wrapper : Bool) (serial : Option UInt32)
  | rrset (rrset : Ptr)
  deriving DecidableEq, Repr

/-- What `runIXFRFSM` looks at, in the order of its loops. -/
def ixfrInputs (answers : List AnswerRRset) : List IxfrInput :=
  answers.zipIdx.flatMap fun (rrset, i) =>
    if rrset.value.typ = .soa then
      rrset.value.rdatas.zipIdx.map fun (rdata, j) =>
        .soa ((i == 0 && j == 0) ||
          (i == answers.length - 1 && j == rrset.value.rdatas.length - 1)) (serialOf rdata)
    else [.rrset rrset.ptr]

/-- One round of `runIXFRFSM`. -/
def ixfrStep (F : Engine) (u : Updator σ) (sm : XFRStateMachine σ) :
    IxfrInput → Except (XFRStateMachine σ × Stop) (XFRStateMachine σ)
  | .soa _ none => .error (sm, .panic)
  | .soa wrapper (some serial) =>
    let (sm', fired) := sm.event F (genIXFRStateMachine u)
      (if wrapper then .getWrapperSoa serial else .getMidSoa serial)
    match stopOf fired with
    | some stop => .error (sm', stop)
    | none => .ok sm'
  | .rrset rrset =>
    let (sm', fired) := sm.event F (genIXFRStateMachine u) (.getNoneSoa rrset)
    match fired with
    | .noTransition => .ok sm'
    -- The error is logged before another one is returned, and here there is none to log.
    | .moved => .error (sm', .panic)
    | .canceled .panic => .error (sm', .panic)
    | .invalidEvent | .canceled (.err _) => .error (sm', .err .errIXFRDataSectionFormatError)

def runIXFRFSM (F : Engine) (u : Updator σ) (sm : XFRStateMachine σ) (answers : List AnswerRRset) :
    Except (XFRStateMachine σ × Stop) (XFRStateMachine σ) :=
  run (ixfrStep F u) sm (ixfrInputs answers)

inductive AxfrInput where
  | soa (wrapper : Bool) (rrset : AnswerRRset)
  | rrset (rrset : Ptr)
  deriving DecidableEq, Repr

/-- What `runAXFRFSM` looks at. -/
def axfrInputs (answers : List AnswerRRset) : List AxfrInput :=
  answers.zipIdx.map fun (rrset, i) =>
    if rrset.value.typ = .soa then .soa (i == 0 || i == answers.length - 1) rrset
    else .rrset rrset.ptr

/-- The end of a round of `runAXFRFSM`, which takes an event without transition for a success. -/
def axfrResult :
    XFRStateMachine σ × Fired Stop → Except (XFRStateMachine σ × Stop) (XFRStateMachine σ)
  | (sm, .noTransition) => .ok sm
  | (sm, fired) =>
    match stopOf fired with
    | some stop => .error (sm, stop)
    | none => .ok sm

/-- One round of `runAXFRFSM`. A SOA RRset between the ends is passed over. -/
def axfrStep (F : Engine) (u : Updator σ) (sm : XFRStateMachine σ) :
    AxfrInput → Except (XFRStateMachine σ × Stop) (XFRStateMachine σ)
  | .soa wrapper soa =>
    if soa.value.rdatas.length ≠ 1 then .error (sm, .err .errSOAShouldHasOneRR)
    else if wrapper then axfrResult (sm.event F (genAXFRStateMachine u) (.getWrapperSoa soa))
    else .ok sm
  | .rrset rrset => axfrResult (sm.event F (genAXFRStateMachine u) (.getNoneSoa rrset))

def runAXFRFSM (F : Engine) (u : Updator σ) (sm : XFRStateMachine σ) (answers : List AnswerRRset) :
    Except (XFRStateMachine σ × Stop) (XFRStateMachine σ) :=
  run (axfrStep F u) sm (axfrInputs answers)

/-- `newFSMGenerator` and `GenStateMachine`: the machine before a run. -/
def newXFRStateMachine (currentSerial latestSerial : UInt32) (tx : σ) : XFRStateMachine σ :=
  ⟨.init, ⟨latestSerial, currentSerial, tx⟩⟩

def XFRStateMachine.run (F : Engine) (u : Updator σ) (typ : XfrType) (sm : XFRStateMachine σ)
    (answers : List AnswerRRset) : Except (XFRStateMachine σ × Stop) (XFRStateMachine σ) :=
  match typ with
  | .ixfr => runIXFRFSM F u sm answers
  | .axfr => runAXFRFSM F u sm answers

end Vanguard.Xfr
