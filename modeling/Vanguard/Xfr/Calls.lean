import Vanguard.Xfr.Update

namespace Vanguard.Xfr

open Library Zone

variable {T : Type} [DomainTree T NameNode]

def TxReadable (s : ZoneState T) : TxCall → Prop
  | .change op => s.zone.Readable s.objects op
  | .increaseSerialNumber => s.zone.SoaReadable s.objects

instance (s : ZoneState T) (c : TxCall) : Decidable (TxReadable s c) :=
  match c with
  | .change _ => inferInstanceAs (Decidable (MemoryZone.Readable _ _ _))
  | .increaseSerialNumber => inferInstanceAs (Decidable (MemoryZone.SoaReadable _ _))

theorem stepTx_returns_iff [LawfulDomainTree T NameNode] {s : ZoneState T} {c : TxCall} :
    (∃ s', s.stepTx c = .ok s') ↔ TxReadable s c := by
  cases c with
  | change op =>
    rw [TxReadable, ← MemoryZone.perform_returns_iff]
    simp only [ZoneState.stepTx, ZoneState.step]
    cases s.zone.perform s.objects op <;> simp
  | increaseSerialNumber =>
    rw [TxReadable, ← MemoryZone.increaseSerialNumber_returns_iff]
    simp only [ZoneState.stepTx]
    cases s.zone.increaseSerialNumber s.objects <;> simp

abbrev ZoneMachine (T : Type) := XFRStateMachine (Except Panic (ZoneState T))

/-- The call a round of `runIXFRFSM` makes. -/
def ixfrCall (sm : ZoneMachine T) : IxfrInput → Option TxCall
  | .soa false (some serial) =>
    if sm.current = .deleteSection ∧ serial = sm.generator.currentSerial + 1 then
      some .increaseSerialNumber
    else none
  | .soa _ _ => none
  | .rrset rrset =>
    if sm.current = .deleteSection then some (.change (.deleteRRset rrset))
    else if sm.current = .addSection then some (.change (.add rrset))
    else none

/-- The rdata behind a type assertion of `runIXFRFSM` is a SOA. -/
def ixfrAsserts (_ : ZoneMachine T) : IxfrInput → Prop
  | .soa _ serial => serial.isSome = true
  | .rrset _ => True

/-- The call a round of `runAXFRFSM` makes. -/
def axfrCall (sm : ZoneMachine T) : AxfrInput → Option TxCall
  | .soa wrapper soa =>
    if wrapper = true ∧ sm.current = .init ∧ soa.HasSerial sm.generator.latestSerial then
      some (.change (.add soa.ptr))
    else none
  | .rrset rrset =>
    if sm.current = .start ∨ sm.current = .addSection then some (.change (.add rrset)) else none

/-- The rdata behind the type assertion of `genAXFRStateMachine` is a SOA. -/
def axfrAsserts (sm : ZoneMachine T) : AxfrInput → Prop
  | .soa wrapper soa => wrapper = true → soa.value.rdatas.length = 1 →
    sm.current = .init ∨ sm.current = .addSection →
    (soa.value.rdatas.head?.bind serialOf).isSome = true
  | .rrset _ => True

instance (sm : ZoneMachine T) (input : IxfrInput) : Decidable (ixfrAsserts sm input) :=
  match input with
  | .soa _ _ => inferInstanceAs (Decidable (_ = _))
  | .rrset _ => .isTrue trivial

instance (sm : ZoneMachine T) (input : AxfrInput) : Decidable (axfrAsserts sm input) :=
  match input with
  | .soa _ _ => inferInstanceAs (Decidable (_ → _ → _ → _))
  | .rrset _ => .isTrue trivial

def callTx (tx : Except Panic (ZoneState T)) : Option TxCall → Except Panic (ZoneState T)
  | none => tx
  | some c => tx.bind (·.stepTx c)

def endState {σ τ : Type} : Except (σ × τ) σ → σ
  | .ok s => s
  | .error (s, _) => s

def Panicked (sm : ZoneMachine T) : Prop := ∃ e, sm.generator.tx = .error e

section

variable {F : Engine} {sm : ZoneMachine T}

theorem ixfrStep_spec (hF : F.Lawful) (sm : ZoneMachine T) (input : IxfrInput) :
    (endState (ixfrStep F zoneUpdator sm input)).generator.tx =
      callTx sm.generator.tx (ixfrCall sm input) ∧
    ((∃ sm', ixfrStep F zoneUpdator sm input = .error (sm', .panic)) ↔ ¬ixfrAsserts sm input) := by
  obtain ⟨p, g⟩ := sm
  rcases input with ⟨wrapper, _ | serial⟩ | rrset
  · cases wrapper <;> simp [ixfrStep, ixfrCall, ixfrAsserts, endState, callTx]
  · cases wrapper
    · simp only [ixfrStep, XFRStateMachine.event, hF.event_eq, ixfrCall, ixfrAsserts]
      cases p
      · simp [Engine.reference, genIXFRStateMachine, stopOf, endState, callTx]
      · by_cases hserial : serial = g.currentSerial <;>
          simp [Engine.reference, genIXFRStateMachine, stopOf, endState, callTx, hserial]
      · by_cases hserial : serial = g.currentSerial + 1 <;>
          simp [Engine.reference, genIXFRStateMachine, stopOf, endState, callTx, hserial,
            zoneUpdator]
      · by_cases hserial : serial = g.currentSerial <;>
          simp [Engine.reference, genIXFRStateMachine, stopOf, endState, callTx, hserial]
      · simp [Engine.reference, genIXFRStateMachine, stopOf, endState, callTx]
    · simp only [ixfrStep, XFRStateMachine.event, hF.event_eq, ixfrCall, ixfrAsserts]
      by_cases hserial : g.latestSerial = serial <;> cases p <;>
        simp [Engine.reference, genIXFRStateMachine, stopOf, endState, callTx, hserial]
  · simp only [ixfrStep, XFRStateMachine.event, hF.event_eq, ixfrCall, ixfrAsserts]
    cases p <;> simp [Engine.reference, genIXFRStateMachine, endState, callTx, zoneUpdator]

theorem axfrStep_spec (hF : F.Lawful) (sm : ZoneMachine T) (input : AxfrInput) :
    (endState (axfrStep F zoneUpdator sm input)).generator.tx =
      callTx sm.generator.tx (axfrCall sm input) ∧
    ((∃ sm', axfrStep F zoneUpdator sm input = .error (sm', .panic)) ↔ ¬axfrAsserts sm input) := by
  obtain ⟨p, g⟩ := sm
  rcases input with ⟨wrapper, soa⟩ | rrset
  · simp only [axfrStep, XFRStateMachine.event, hF.event_eq, axfrCall, axfrAsserts, hasSerial_iff]
    by_cases hone : soa.value.rdatas.length = 1
    · cases wrapper
      · simp [hone, endState, callTx]
      · cases hserial : soa.value.rdatas.head?.bind serialOf with
        | none => cases p <;> simp [Engine.reference, genAXFRStateMachine, endState, callTx,
            axfrResult, stopOf, hone, hserial]
        | some serial =>
          by_cases hlatest : serial = g.latestSerial <;> cases p <;>
            simp [Engine.reference, genAXFRStateMachine, endState, callTx, zoneUpdator,
              axfrResult, stopOf, hone, hserial, hlatest]
    · simp [hone, endState, callTx]
  · simp only [axfrStep, XFRStateMachine.event, hF.event_eq, axfrCall, axfrAsserts]
    cases p <;> simp [Engine.reference, genAXFRStateMachine, endState, callTx, zoneUpdator,
      axfrResult, stopOf]

omit [DomainTree T NameNode] in
theorem survives_iff {r : Except (ZoneMachine T × Stop) (ZoneMachine T)} :
    Survives Panicked (· = .panic) r ↔
      ¬Panicked (endState r) ∧ ¬∃ sm, r = .error (sm, .panic) := by
  rcases r with ⟨sm, stop⟩ | sm <;> simp [Survives, endState]

def Reads {ι : Type} (asserts : ZoneMachine T → ι → Prop) (call : ZoneMachine T → ι → Option TxCall)
    (sm : ZoneMachine T) (i : ι) : Prop :=
  asserts sm i ∧ ∀ s ∈ sm.generator.tx.toOption, ∀ c ∈ call sm i, TxReadable s c

instance {ι : Type} (asserts : ZoneMachine T → ι → Prop) [∀ sm i, Decidable (asserts sm i)]
    (call : ZoneMachine T → ι → Option TxCall) (sm : ZoneMachine T) (i : ι) :
    Decidable (Reads asserts call sm i) :=
  inferInstanceAs (Decidable (_ ∧ _))

variable [LawfulDomainTree T NameNode]

theorem loop_survives_iff {ι : Type}
    {step : ZoneMachine T → ι → Except (ZoneMachine T × Stop) (ZoneMachine T)}
    {asserts : ZoneMachine T → ι → Prop} {call : ZoneMachine T → ι → Option TxCall}
    (hspec : ∀ sm i, (endState (step sm i)).generator.tx = callTx sm.generator.tx (call sm i) ∧
      ((∃ sm', step sm i = .error (sm', .panic)) ↔ ¬asserts sm i))
    {s : ZoneState T} (htx : sm.generator.tx = .ok s) (is : List ι) :
    Survives Panicked (· = .panic) (run step sm is) ↔ Along step (Reads asserts call) sm is := by
  refine run_survives_iff_along (fun sm i => ?_) (fun sm i hsm => ?_) is ?_
  · rintro ⟨e, he⟩ hsurvives
    refine (survives_iff.mp hsurvives).1 ⟨e, ?_⟩
    rw [(hspec sm i).1, he]
    cases call sm i <;> rfl
  · obtain ⟨s, hs⟩ : ∃ s, sm.generator.tx = .ok s := by
      cases hcase : sm.generator.tx with
      | error e => exact absurd ⟨e, hcase⟩ hsm
      | ok s => exact ⟨s, rfl⟩
    have hcall : ¬Panicked (endState (step sm i)) ↔ ∀ c ∈ call sm i, TxReadable s c := by
      rw [Panicked, (hspec sm i).1, hs]
      cases call sm i with
      | none => simp [callTx]
      | some c =>
        simp only [Option.mem_def, Option.some.injEq, forall_eq', ← stepTx_returns_iff]
        have hbind : callTx (.ok s) (some c) = s.stepTx c := rfl
        rw [hbind]
        cases s.stepTx c <;> simp
    rw [survives_iff, hcall, (hspec sm i).2, not_not, Reads, hs, and_comm]
    simp [Except.toOption]
  · rintro ⟨e, he⟩
    cases htx.symm.trans he

def TransferReads (F : Engine) (typ : XfrType) (h : Objects) (dz : DynamicZone T)
    (currentSerial latestSerial : UInt32) (answers : List AnswerRRset) : Prop :=
  let sm : ZoneMachine T := newXFRStateMachine currentSerial latestSerial (.ok ⟨h, dz.begin.2, []⟩)
  match typ with
  | .ixfr => Along (ixfrStep F zoneUpdator) (Reads ixfrAsserts ixfrCall) sm (ixfrInputs answers)
  | .axfr => Along (axfrStep F zoneUpdator) (Reads axfrAsserts axfrCall) sm (axfrInputs answers)

instance (F : Engine) (typ : XfrType) (h : Objects) (dz : DynamicZone T)
    (currentSerial latestSerial : UInt32) (answers : List AnswerRRset) :
    Decidable (TransferReads F typ h dz currentSerial latestSerial answers) :=
  match typ with
  | .ixfr => inferInstanceAs (Decidable (Along (ixfrStep F zoneUpdator) _ _ _))
  | .axfr => inferInstanceAs (Decidable (Along (axfrStep F zoneUpdator) _ _ _))

theorem runTransfer_returns_iff (hF : F.Lawful) (typ : XfrType) (h : Objects) (dz : DynamicZone T)
    (currentSerial latestSerial : UInt32) (answers : List AnswerRRset) :
    (∃ r, runTransfer F typ h dz currentSerial latestSerial answers = .ok r) ↔
      TransferReads F typ h dz currentSerial latestSerial answers := by
  have hloop : Survives Panicked (· = .panic)
      ((newXFRStateMachine currentSerial latestSerial
        (.ok (⟨h, dz.begin.2, []⟩ : ZoneState T))).run F zoneUpdator typ answers) ↔
      TransferReads F typ h dz currentSerial latestSerial answers := by
    cases typ with
    | ixfr => exact loop_survives_iff (ixfrStep_spec hF) rfl _
    | axfr => exact loop_survives_iff (axfrStep_spec hF) rfl _
  rw [← hloop, survives_iff]
  unfold runTransfer
  cases hrun : (newXFRStateMachine currentSerial latestSerial
    (.ok (⟨h, dz.begin.2, []⟩ : ZoneState T))).run F zoneUpdator typ answers with
  | ok sm' =>
    simp only [hrun, endState, Panicked]
    cases sm'.generator.tx <;> simp [bind, Except.bind]
  | error stopped =>
    obtain ⟨sm', stop⟩ := stopped
    cases stop with
    | panic => simp [hrun]
    | err e =>
      simp only [hrun, endState, Panicked]
      cases sm'.generator.tx <;> simp [bind, Except.bind]

omit [LawfulDomainTree T NameNode] in
theorem locked_runTransfer {typ : XfrType} {h h' : Objects} {dz dz' : DynamicZone T}
    {currentSerial latestSerial : UInt32} {answers : List AnswerRRset} {succeeded : Bool}
    (hok : runTransfer F typ h dz currentSerial latestSerial answers =
      .ok (h', dz', succeeded)) : dz'.locked = false := by
  unfold runTransfer at hok
  simp only at hok
  split at hok
  · next sm' _ =>
    cases htx : sm'.generator.tx with
    | error e => simp [htx, bind, Except.bind] at hok
    | ok s =>
      simp only [htx, bind, Except.bind, Except.ok.injEq, Prod.mk.injEq] at hok
      rw [← hok.2.1]
      exact DynamicZone.locked_commit _ _
  · next sm' _ _ =>
    cases htx : sm'.generator.tx with
    | error e => simp [htx, bind, Except.bind] at hok
    | ok s =>
      simp only [htx, bind, Except.bind, Except.ok.injEq, Prod.mk.injEq] at hok
      rw [← hok.2.1]
      rfl
  · cases hok

structure UpdateReads (F : Engine) (typ : XfrType) (h : Objects) (dz : DynamicZone T)
    (currentSerial latestSerial : UInt32) (answers : List AnswerRRset) : Prop where
  first : TransferReads F typ h dz currentSerial latestSerial answers
  second : ∀ h' dz', typ = .ixfr →
    runTransfer F typ h dz currentSerial latestSerial answers = .ok (h', dz', false) →
    TransferReads F .axfr h' dz' currentSerial latestSerial answers

instance (F : Engine) (typ : XfrType) (h : Objects) (dz : DynamicZone T)
    (currentSerial latestSerial : UInt32) (answers : List AnswerRRset) :
    Decidable (UpdateReads F typ h dz currentSerial latestSerial answers) :=
  match hpass : runTransfer F typ h dz currentSerial latestSerial answers with
  | .ok (h', dz', false) =>
    decidable_of_iff
      (TransferReads F typ h dz currentSerial latestSerial answers ∧
        (typ = .ixfr → TransferReads F .axfr h' dz' currentSerial latestSerial answers))
      ⟨fun hboth => ⟨hboth.1, by simpa [hpass] using fun htyp => hboth.2 htyp⟩,
        fun hreads => ⟨hreads.first, fun htyp => hreads.second h' dz' htyp hpass⟩⟩
  | .ok (_, _, true) | .error _ =>
    decidable_of_iff (TransferReads F typ h dz currentSerial latestSerial answers)
      ⟨fun hfirst => ⟨hfirst, by simp [hpass]⟩, fun hreads => hreads.first⟩

theorem updateZoneUseXFR_returns_iff (hF : F.Lawful) (typ : XfrType) (h : Objects)
    (dz : DynamicZone T) (currentSerial latestSerial : UInt32) (answers : List AnswerRRset) :
    (∃ r, updateZoneUseXFR F typ h dz currentSerial latestSerial answers = .ok r ∧
      r.2.locked = false) ↔ UpdateReads F typ h dz currentSerial latestSerial answers := by
  have hfirst := runTransfer_returns_iff hF typ h dz currentSerial latestSerial answers
  unfold updateZoneUseXFR
  cases hpass : runTransfer F typ h dz currentSerial latestSerial answers with
  | error e =>
    rw [hpass] at hfirst
    refine iff_of_false (by simp [bind, Except.bind]) fun hreads => ?_
    simpa using hfirst.mpr hreads.first
  | ok r =>
    obtain ⟨h', dz', succeeded⟩ := r
    have hreads : UpdateReads F typ h dz currentSerial latestSerial answers ↔
        (succeeded = false → typ = .ixfr →
          TransferReads F .axfr h' dz' currentSerial latestSerial answers) := by
      constructor
      · rintro hreads rfl htyp
        exact hreads.second h' dz' htyp hpass
      · intro hsecond
        refine ⟨hfirst.mp ⟨_, hpass⟩, fun h'' dz'' htyp hpass' => ?_⟩
        obtain ⟨rfl, rfl, rfl⟩ : h' = h'' ∧ dz' = dz'' ∧ succeeded = false := by
          simpa using hpass.symm.trans hpass'
        exact hsecond rfl htyp
    rw [hreads, ← runTransfer_returns_iff hF]
    by_cases hagain : succeeded = false ∧ typ = .ixfr
    · obtain ⟨rfl, rfl⟩ := hagain
      simp only [bind, Except.bind, Bool.not_false, BEq.rfl, Bool.and_self, if_true, true_imp_iff]
      cases hpass' : runTransfer F .axfr h' dz' currentSerial latestSerial answers with
      | error e => simp
      | ok r => simpa using locked_runTransfer hpass'
    · refine iff_of_true ⟨(h', dz'), ?_, locked_runTransfer hpass⟩
        fun hfailed htyp => absurd ⟨hfailed, htyp⟩ hagain
      have hdone : (!succeeded && typ == .ixfr) = false := by
        cases succeeded <;> cases typ <;> simp_all
      simp [bind, Except.bind, hdone]

end

end Vanguard.Xfr
