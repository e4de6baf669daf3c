import Vanguard.Zone.Growth
import Vanguard.Zone.Offers

namespace Vanguard.Zone

open Library

variable {T : Type} [DomainTree T NameNode] [LawfulDomainTree T NameNode]

theorem content_newMemoryZone (h : Objects) (origin : Name) :
    (newMemoryZone origin : MemoryZone T).content h = fun _ _ => none := by
  funext n t
  simp [MemoryZone.content]

theorem content_begin (h : Objects) (dz : DynamicZone T) :
    dz.begin.2.content h = dz.memoryZone.content h := by
  funext n t
  simp [DynamicZone.begin, MemoryZone.content]

namespace MemoryZone

variable {h h' : Objects} {z : MemoryZone T}

theorem content_clone (z : MemoryZone T) (h : Objects) : z.clone.content h = z.content h :=
  content_begin h ⟨z, false⟩

theorem WellFormed.clone (hz : z.WellFormed h) : z.clone.WellFormed h := by
  refine ⟨rfl, ?_, ?_, ?_⟩
  · intro n t p hslot
    exact hz.allocated n t p (by rwa [slots_clone] at hslot)
  · intro n t hslot
    exact hz.stored n t (by rwa [slots_clone] at hslot)
  · rw [content_clone]
    exact hz.soaTyped

omit [LawfulDomainTree T NameNode] in
theorem WellFormed.validate_eq_none_iff (hz : z.WellFormed h) :
    z.validate = none ↔ z.HasApex h := by
  have hsome (t : RRType) : (z.content h z.origin t).isSome = true ↔
      (z.slots z.origin t).isSome = true := by
    simp only [Option.isSome_iff_ne_none, ne_eq, content_eq_none_iff hz]
  rw [MemoryZone.validate_eq_none_iff, HasApex, hsome, hsome]
  exact and_iff_right hz.attached

omit [LawfulDomainTree T NameNode] in
theorem WellFormed.of_grows (hz : z.WellFormed h) (hclosed : h.Closed) (hgrows : h.Grows h') :
    z.WellFormed h' := by
  refine ⟨hz.attached, hz.allocated.mono hgrows.rrsets.next_le, hz.stored, ?_⟩
  rw [(Agrees.of_grows hz.allocated hclosed hgrows).content_eq]
  exact hz.soaTyped

/-- A zone on whose transactions calls return, with an apex that `Commit` accepts. -/
structure Updatable (h : Objects) (z : MemoryZone T) : Prop where
  wellFormed : z.WellFormed h
  filled : z.Filled
  apex : z.HasApex h

theorem Updatable.clone (hz : z.Updatable h) : z.clone.Updatable h := by
  refine ⟨hz.wellFormed.clone, hz.filled.clone, ?_⟩
  rw [HasApex, content_clone]
  exact hz.apex

omit [LawfulDomainTree T NameNode] in
theorem Updatable.of_grows (hz : z.Updatable h) (hclosed : h.Closed) (hgrows : h.Grows h') :
    z.Updatable h' := by
  refine ⟨hz.wellFormed.of_grows hclosed hgrows, hz.filled, ?_⟩
  rw [HasApex, (Agrees.of_grows hz.wellFormed.allocated hclosed hgrows).content_eq]
  exact hz.apex

theorem Updatable.perform {op : ZoneOp} {o : Outcome T} (hz : z.Updatable h)
    (hop : op.WellFormed h) (hok : z.perform h op = .ok o)
    (hsoa : ¬(op.value h).Targets z.origin .soa) (hns : ¬(op.value h).Targets z.origin .ns) :
    o.zone.Updatable o.objects := by
  refine ⟨hz.wellFormed.perform hz.apex hop hok, hz.filled.perform hok, ?_⟩
  have hkept {t : RRType} (ht : ¬(op.value h).Targets z.origin t) :
      o.zone.content o.objects o.zone.origin t = z.content h z.origin t := by
    rw [perform_origin hok, content_perform_eq hz.wellFormed.allocated hok]
    split
    · rfl
    · exact MapOp.apply_of_not_targets _ _ ht
  rw [HasApex, hkept hsoa, hkept hns]
  exact hz.apex

end MemoryZone

theorem ZoneState.step_add {s : ZoneState T} (hz : s.zone.WellFormed s.objects)
    (hfilled : s.zone.Filled) {p : Ptr} (hp : (ZoneOp.add p).WellFormed s.objects) :
    ∃ s', s.step (.add p) = .ok s' ∧ s'.zone.WellFormed s'.objects ∧ s'.zone.Filled ∧
      s'.zone.origin = s.zone.origin ∧ s.objects.Extends s'.objects ∧
      (s.objects.Closed → s'.objects.Closed) ∧ s'.zone.content s'.objects =
        (s.zone.content s.objects).offer s.zone.origin (s.objects.value p) := by
  obtain ⟨o, hok⟩ := MemoryZone.addRRset_returns_iff.mpr (hz.readable_add hp)
  have hperform : s.zone.perform s.objects (.add p) = .ok o := hok
  exact ⟨_, ZoneState.step_eq_ok.mpr ⟨o, hperform, rfl⟩, hz.addRRset hp hok,
    hfilled.perform hperform, MemoryZone.perform_origin hperform,
    MemoryZone.perform_extends hperform,
    fun hclosed => MemoryZone.perform_closed hclosed hz.allocated hp.1 hperform,
    MemoryZone.content_addRRset_eq hz hfilled hok⟩

theorem ZoneState.run_add {s : ZoneState T} (hz : s.zone.WellFormed s.objects)
    (hfilled : s.zone.Filled) {ps : List Ptr}
    (hps : ∀ p ∈ ps, (ZoneOp.add p).WellFormed s.objects) :
    ∃ s', run ZoneState.step s (ps.map .add) = .ok s' ∧ s'.zone.WellFormed s'.objects ∧
      s'.zone.Filled ∧ s'.zone.origin = s.zone.origin ∧ s.objects.Extends s'.objects ∧
      (s.objects.Closed → s'.objects.Closed) ∧ s'.zone.content s'.objects =
        (ps.map s.objects.value).foldl (ZoneMap.offer s.zone.origin) (s.zone.content s.objects) := by
  induction ps generalizing s with
  | nil => exact ⟨s, rfl, hz, hfilled, rfl, .refl _, id, rfl⟩
  | cons p ps ih =>
    obtain ⟨mid, hmid, hz₁, hfilled₁, horigin₁, hext₁, hclosed₁, hcontent₁⟩ :=
      step_add hz hfilled (hps p List.mem_cons_self)
    have hps' : ∀ q ∈ ps, (ZoneOp.add q).WellFormed s.objects :=
      fun q hq => hps q (List.mem_cons_of_mem _ hq)
    obtain ⟨s', hrun, hz', hfilled', horigin, hext, hclosed, hcontent⟩ :=
      ih hz₁ hfilled₁ fun q hq => (hps' q hq).mono hext₁
    refine ⟨s', run_cons_ok.mpr ⟨mid, hmid, hrun⟩, hz', hfilled', horigin.trans horigin₁,
      hext₁.trans hext, hclosed ∘ hclosed₁, ?_⟩
    have hvalues : ps.map mid.objects.value = ps.map s.objects.value :=
      List.map_congr_left fun q hq => hext₁.value_eq (hps' q hq).1
    rw [hcontent, hvalues, horigin₁, hcontent₁]
    rfl

end Vanguard.Zone
