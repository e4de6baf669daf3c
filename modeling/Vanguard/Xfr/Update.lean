import Vanguard.Xfr.Axfr
import Vanguard.Xfr.Ixfr
import Vanguard.Zone.Working

namespace Vanguard.Xfr

open Library Zone List MemoryZone

variable {T : Type} [DomainTree T NameNode]

/-- The updator on a transaction. Nothing is called after a panic. -/
def zoneUpdator : Updator (Except Panic (ZoneState T)) where
  add tx rrset := tx.bind (·.stepTx (.change (.add rrset)))
  deleteRRset tx rrset := tx.bind (·.stepTx (.change (.deleteRRset rrset)))
  increaseSerialNumber tx := tx.bind (·.stepTx .increaseSerialNumber)

section

variable (F : Engine) (typ : XfrType) (h : Objects) (dz : DynamicZone T)
  (currentSerial latestSerial : UInt32) (answers : List AnswerRRset)

/-- One pass of `updateZoneUseXFR`. The error of `Commit` is not looked at. -/
def runTransfer : Except Panic (Objects × DynamicZone T × Bool) :=
  let (begun, tmp) := dz.begin
  let sm := newXFRStateMachine currentSerial latestSerial (.ok ⟨h, tmp, []⟩)
  match sm.run F zoneUpdator typ answers with
  | .ok sm' => do
    let tx ← sm'.generator.tx
    .ok (tx.objects, (begun.commit tx.zone).1, true)
  | .error (sm', .err _) => do
    let tx ← sm'.generator.tx
    .ok (tx.objects, begun.rollBack, false)
  | .error (_, .panic) => .error .notSOA

def updateZoneUseXFR :
    Except Panic (Objects × DynamicZone T) := do
  let (h', dz', succeeded) ← runTransfer F typ h dz currentSerial latestSerial answers
  if !succeeded && typ == .ixfr then
    let (h'', dz'', _) ← runTransfer F .axfr h' dz' currentSerial latestSerial answers
    .ok (h'', dz'')
  else .ok (h', dz')

end

variable [LawfulDomainTree T NameNode]

/-- The transaction is well formed, without empty nodes, and of the same zone. -/
structure Intact (origin : Name) (s : ZoneState T) : Prop where
  wellFormed : s.zone.WellFormed s.objects
  filled : s.zone.Filled
  origin_eq : s.zone.origin = origin

theorem Intact.newMemoryZone (h : Objects) (origin : Name) :
    Intact origin (⟨h, newMemoryZone origin, []⟩ : ZoneState T) := by
  refine ⟨.newMemoryZone h origin, fun n nodeData hdata => ?_, rfl⟩
  simp [Zone.newMemoryZone, newWithDomains] at hdata

variable {s : ZoneState T} {origin : Name}

section

variable (hs : Intact origin s) {p : Ptr} (hp : (ZoneOp.add p).WellFormed s.objects)

include hs hp

theorem Intact.addRRset {o : Outcome T} (hok : s.zone.addRRset s.objects p = .ok o)
    (results : List (Option ZoneError)) : Intact origin ⟨o.objects, o.zone, results⟩ := by
  have hperform : s.zone.perform s.objects (.add p) = .ok o := hok
  refine ⟨hs.wellFormed.addRRset hp hok, hs.filled.perform hperform, ?_⟩
  exact (perform_origin hperform).trans hs.origin_eq

theorem zoneUpdator_add :
    ∃ s', zoneUpdator.add (.ok s) p = .ok s' ∧ Intact origin s' ∧
      s.objects.Extends s'.objects ∧ s'.zone.content s'.objects =
        (s.zone.content s.objects).offer origin (s.objects.value p) := by
  obtain ⟨s', hstep, hz, hfilled, horigin, hext, -, hcontent⟩ :=
    ZoneState.step_add hs.wellFormed hs.filled hp
  exact ⟨s', hstep, ⟨hz, hfilled, horigin.trans hs.origin_eq⟩, hext, hs.origin_eq ▸ hcontent⟩

end

theorem zoneUpdator_deleteRRset (hs : Intact origin s) (hapex : s.zone.HasApex s.objects) {p : Ptr}
    (hp : p < s.objects.rrsets.next) :
    ∃ s', zoneUpdator.deleteRRset (.ok s) p = .ok s' ∧ Intact origin s' ∧
      s.objects.Extends s'.objects ∧ s'.zone.content s'.objects =
        (s.zone.content s.objects).withdraw origin (s.objects.value p) := by
  have hop : (ZoneOp.deleteRRset p).WellFormed s.objects := ⟨hp, trivial⟩
  obtain ⟨o, hok⟩ := perform_total hs.wellFormed hapex hop
  refine ⟨_, ZoneState.step_eq_ok.mpr ⟨o, hok, rfl⟩, ⟨?_, ?_, ?_⟩, ?_, ?_⟩
  · exact hs.wellFormed.perform hapex hop hok
  · exact hs.filled.perform hok
  · exact (perform_origin hok).trans hs.origin_eq
  · exact perform_extends hok
  · exact hs.origin_eq ▸ content_deleteRRset_eq hs.wellFormed hok

omit [LawfulDomainTree T NameNode] in
theorem foldl_add_of_run {s' : ZoneState T} {ps : List Ptr}
    (hrun : run ZoneState.step s (ps.map .add) = .ok s') :
    ps.foldl zoneUpdator.add (.ok s) = .ok s' := by
  induction ps generalizing s with
  | nil => exact hrun
  | cons p ps ih =>
    obtain ⟨mid, hmid, hrest⟩ := run_cons_ok.mp hrun
    have hadd : zoneUpdator.add (.ok s) p = .ok mid := hmid
    rw [foldl_cons, hadd, ih hrest]

theorem zoneUpdator_foldl_add (hs : Intact origin s) {ps : List Ptr}
    (hps : ∀ p ∈ ps, (ZoneOp.add p).WellFormed s.objects) :
    ∃ s', ps.foldl zoneUpdator.add (.ok s) = .ok s' ∧ Intact origin s' ∧
      s.objects.Extends s'.objects ∧ s'.zone.content s'.objects =
        (ps.map s.objects.value).foldl (ZoneMap.offer origin) (s.zone.content s.objects) := by
  obtain ⟨s', hrun, hz, hfilled, horigin, hext, -, hcontent⟩ :=
    ZoneState.run_add hs.wellFormed hs.filled hps
  exact ⟨s', foldl_add_of_run hrun, ⟨hz, hfilled, horigin.trans hs.origin_eq⟩, hext,
    hs.origin_eq ▸ hcontent⟩

theorem intact_begin {h : Objects} {dz : DynamicZone T} (hz : dz.memoryZone.WellFormed h)
    (hfilled : dz.memoryZone.Filled) :
    Intact dz.memoryZone.origin (⟨h, dz.begin.2, []⟩ : ZoneState T) :=
  ⟨hz.clone, hfilled.clone, rfl⟩

end Vanguard.Xfr
