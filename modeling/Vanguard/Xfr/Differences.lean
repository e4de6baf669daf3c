import Vanguard.Xfr.Changes
import Vanguard.Xfr.FullTransfer

namespace Vanguard.Xfr

open Library Zone List Option MemoryZone

variable {T : Type} [DomainTree T NameNode]

def PlainMap (origin : Name) (m : ZoneMap) : Prop :=
  ∀ n t e, m n t = some e → ¬(n = origin ∧ t = .soa) → ∀ y ∈ e.rdatas, y.isSoa = false

variable {h : Objects} {x : SOA}

theorem soa_objects {z : MemoryZone T} {n : Name} {ttl : UInt32}
    (hsoa : z.content h n .soa = some ⟨ttl, [.soa x]⟩) :
    ∃ p q, z.slots n .soa = some (some p) ∧ (h.rrsets.load p).ttl = ttl ∧
      (h.rrsets.load p).rdatas = [q] ∧ h.rdatas.load q = .soa x := by
  obtain ⟨p, hslot⟩ := slots_of_content (h := h) (isSome_iff_exists.mpr ⟨_, hsoa⟩)
  rw [content_of_slots hslot] at hsoa
  obtain ⟨httl, hrdatas⟩ := Entry.mk.inj (Option.some.inj hsoa)
  obtain ⟨q, hq, hload⟩ := map_eq_singleton_iff.mp hrdatas
  exact ⟨p, q, hslot, httl, hq, hload⟩

variable [LawfulDomainTree T NameNode]

theorem value_write {p q : Ptr} (hload : h.rdatas.load q = .soa x)
    (hp : ∀ y ∈ (h.value p).rdatas, y.isSoa = false) (rdata : Rdata) :
    ({ h with rdatas := h.rdatas.write q rdata } : Objects).value p = h.value p := by
  simp only [Objects.value, RRset.map, RRset.mk.injEq, true_and]
  refine map_congr_left fun q' hq' => Heap.load_write_of_ne ?_ _
  rintro rfl
  have hnot := hp _ (mem_map_of_mem hq')
  simp [hload, Rdata.isSoa] at hnot

omit [LawfulDomainTree T NameNode] in
theorem content_write {z : MemoryZone T} (hz : z.WellFormed h) {origin : Name}
    (hplain : PlainMap origin (z.content h)) {p q : Ptr}
    (hslot : z.slots origin .soa = some (some p)) (hrdatas : (h.rrsets.load p).rdatas = [q])
    (hload : h.rdatas.load q = .soa x) (rdata : Rdata) :
    z.content { h with rdatas := h.rdatas.write q rdata } =
      (z.content h).set origin .soa (some ⟨(h.rrsets.load p).ttl, [rdata]⟩) := by
  funext n t
  unfold ZoneMap.set
  split
  · next hkey =>
    obtain ⟨rfl, rfl⟩ := hkey
    rw [content_of_slots hslot]
    simp [Entry.ofRRset, Objects.value, RRset.map, hrdatas, Heap.load_write_self]
  · next hkey =>
    rcases eq_none_or_of_ne_nil (hz.stored n t) with hslot' | ⟨p', hslot'⟩
    · simp [MemoryZone.content, entryAt, hslot']
    · have hentry := content_of_slots (h := h) hslot'
      rw [hentry, content_of_slots hslot', value_write hload (hplain n t _ hentry hkey) rdata]

omit [LawfulDomainTree T NameNode] in
theorem zoneUpdator_increaseSerialNumber {origin : Name} {s : ZoneState T} (hs : Intact origin s)
    {ttl : UInt32} (hsoa : s.zone.content s.objects origin .soa = some ⟨ttl, [.soa x]⟩)
    (hplain : PlainMap origin (s.zone.content s.objects)) :
    ∃ s', zoneUpdator.increaseSerialNumber (.ok s) = .ok s' ∧ Intact origin s' ∧
      s'.objects.rrsets = s.objects.rrsets ∧
      (∀ p, (∀ y ∈ (s.objects.value p).rdatas, y.isSoa = false) →
        s'.objects.value p = s.objects.value p) ∧
      s'.zone.content s'.objects = (s.zone.content s.objects).set origin .soa
        (some ⟨ttl, [.soa { x with serial := x.serial + 1 }]⟩) := by
  obtain ⟨hwell, hfilled, horigin⟩ := hs
  obtain ⟨p, q, hslot, rfl, hrdatas, hload⟩ := soa_objects hsoa
  obtain ⟨nodeData, hdata, hlookup⟩ := bind_eq_some_iff.mp hslot
  have hcontent := content_write hwell hplain hslot hrdatas hload
    (.soa { x with serial := x.serial + 1 })
  have hstep : s.stepTx .increaseSerialNumber = .ok { s with objects := { s.objects with
      rdatas := s.objects.rdatas.write q (.soa { x with serial := x.serial + 1 }) } } := by
    simp [ZoneState.stepTx, MemoryZone.increaseSerialNumber, MemoryZone.originData, hwell.attached,
      horigin, hdata, hlookup, hrdatas, hload]
  refine ⟨_, hstep, ⟨⟨hwell.attached, hwell.allocated, hwell.stored, ?_⟩, hfilled, horigin⟩, rfl,
    fun p' hp' => value_write hload hp' _, hcontent⟩
  intro n e hentry
  rw [hcontent, ZoneMap.set] at hentry
  split at hentry
  · cases hentry
    simp [SoaRdatas, Rdata.isSoa]
  · exact hwell.soaTyped n e hentry

def Difference.changes (h : Objects) (d : Difference) : List Change :=
  d.deletions.map (fun p => .delete (h.value p)) ++ d.additions.map fun p => .add (h.value p)

structure PlainRRsets (h : Objects) (ps : List Ptr) : Prop where
  allocated : ∀ p ∈ ps, p < h.rrsets.next
  typ_ne_soa : ∀ p ∈ ps, (h.value p).typ ≠ .soa
  plain : ∀ p ∈ ps, ∀ y ∈ (h.value p).rdatas, y.isSoa = false

/-- The transaction holds the map `m` under serial `k`. -/
structure Follows (origin : Name) (h : Objects) (ps : List Ptr) (ttl : UInt32) (x : SOA)
    (k : UInt32) (m : ZoneMap) (s : ZoneState T) : Prop where
  intact : Intact origin s
  content_eq : s.zone.content s.objects =
    m.set origin .soa (some ⟨ttl, [.soa { x with serial := k }]⟩)
  soa_isSome : (m origin .soa).isSome = true
  ns_isSome : (m origin .ns).isSome = true
  plain : PlainMap origin m
  allocated : ∀ p ∈ ps, p < s.objects.rrsets.next
  value_eq : ∀ p ∈ ps, s.objects.value p = h.value p

section follows

variable {origin : Name} {h : Objects} {ps : List Ptr} {ttl : UInt32} {x : SOA} {k : UInt32}
  {m : ZoneMap} {s : ZoneState T} {p : Ptr}

theorem set_comm {n n' : Name} {t t' : RRType} (hne : ¬(n = n' ∧ t = t')) (e e' : Option Entry) :
    (m.set n t e).set n' t' e' = (m.set n' t' e').set n t e := by
  funext a b
  unfold ZoneMap.set
  split
  · next hkey =>
    rw [if_neg]
    exact fun hkey' => hne ⟨hkey'.1.symm.trans hkey.1, hkey'.2.symm.trans hkey.2⟩
  · rfl

variable {c : Change}

theorem apply_set_soa (hsoa : c.rrset.typ ≠ .soa) (e : Option Entry) :
    c.op.apply origin (m.set origin .soa e) = (c.op.apply origin m).set origin .soa e := by
  have hkey : ¬(c.rrset.name = origin ∧ c.rrset.typ = .soa) := fun heq => hsoa heq.2
  have hentry : m.set origin .soa e c.rrset.name c.rrset.typ = m c.rrset.name c.rrset.typ :=
    if_neg hkey
  cases c with
  | delete r =>
    simp only [Change.rrset] at hkey hentry
    simp only [Change.op, MapOp.apply, hentry]
    exact set_comm (fun heq => hkey ⟨heq.1.symm, heq.2.symm⟩) e _
  | add r =>
    simp only [Change.rrset] at hkey hentry
    simp only [Change.op, MapOp.apply, hentry]
    exact set_comm (fun heq => hkey ⟨heq.1.symm, heq.2.symm⟩) e _

theorem apply_soa (hsoa : c.rrset.typ ≠ .soa) (n : Name) :
    c.op.apply origin m n .soa = m n .soa := by
  apply MapOp.apply_of_not_targets
  cases c with
  | delete r | add r => exact fun htarget => hsoa htarget.2

theorem isSome_apply_ns (hfaithful : c.Faithful origin m) (hns : (m origin .ns).isSome = true) :
    (c.op.apply origin m origin .ns).isSome = true := by
  by_cases htarget : c.op.Targets origin .ns
  · cases c with
    | delete r =>
      obtain ⟨hname, htyp⟩ : r.name = origin ∧ r.typ = .ns := htarget
      obtain ⟨e, he⟩ := isSome_iff_exists.mp hns
      exact absurd ⟨hname, htyp⟩ (hfaithful.2 e (by rw [hname, htyp, he])).1
    | add r =>
      obtain ⟨rfl, htyp⟩ : r.name = origin ∧ r.typ = .ns := htarget
      simp [Change.op, MapOp.apply, ZoneMap.set, htyp]
  · rwa [MapOp.apply_of_not_targets origin m htarget]

theorem mem_add_or {e : Option Entry} {r : RRset Rdata} {y : Rdata}
    (hy : y ∈ (Entry.add e r).rdatas) : (∃ e', e = some e' ∧ y ∈ e'.rdatas) ∨ y ∈ r.rdatas := by
  cases e with
  | none => exact .inr hy
  | some e' =>
    simp only [Entry.add] at hy
    split at hy
    · split at hy
      · exact .inr hy
      · exact .inl ⟨e', rfl, hy⟩
    · split at hy
      · exact .inr hy
      · exact (mem_union.mp hy).imp_left fun hmem => ⟨e', rfl, hmem⟩

theorem PlainMap.apply (hm : PlainMap origin m) (hsoa : c.rrset.typ ≠ .soa)
    (hplain : ∀ y ∈ c.rrset.rdatas, y.isSoa = false) : PlainMap origin (c.op.apply origin m) := by
  intro n t e hentry hkey y hy
  cases c with
  | delete r =>
    simp only [Change.op, MapOp.apply, ZoneMap.set] at hentry
    split at hentry
    · obtain ⟨old, hold, hremove⟩ := bind_eq_some_iff.mp hentry
      unfold Entry.remove at hremove
      split at hremove
      · cases hremove
      · cases hremove
        exact hm r.name r.typ old hold (fun heq => hsoa heq.2) y (mem_of_mem_filter hy)
    · exact hm n t e hentry hkey y hy
  | add r =>
    simp only [Change.op, MapOp.apply, ZoneMap.set] at hentry
    split at hentry
    · cases hentry
      rcases mem_add_or hy with ⟨e', he', hmem⟩ | hmem
      · exact hm r.name r.typ e' he' (fun heq => hsoa heq.2) y hmem
      · exact hplain y hmem
    · exact hm n t e hentry hkey y hy

variable (hs : Follows origin h ps ttl x k m s)

include hs

omit [LawfulDomainTree T NameNode] in
theorem Follows.hasApex : s.zone.HasApex s.objects := by
  have hne : ¬(origin = origin ∧ RRType.ns = .soa) := by simp; decide
  unfold MemoryZone.HasApex
  rw [hs.intact.origin_eq, hs.content_eq]
  refine ⟨by simp [ZoneMap.set], ?_⟩
  rw [ZoneMap.set, if_neg hne]
  exact hs.ns_isSome

omit [LawfulDomainTree T NameNode] in
theorem Follows.of_change {s' : ZoneState T}
    (hfaithful : c.Faithful origin m) (hsoa : c.rrset.typ ≠ .soa)
    (hplain : ∀ y ∈ c.rrset.rdatas, y.isSoa = false) (hintact : Intact origin s')
    (hext : s.objects.Extends s'.objects) (hcontent : s'.zone.content s'.objects =
      c.op.apply origin (m.set origin .soa (some ⟨ttl, [.soa { x with serial := k }]⟩))) :
    Follows origin h ps ttl x k (c.op.apply origin m) s' where
  intact := hintact
  content_eq := hcontent.trans (apply_set_soa hsoa _)
  soa_isSome := by rw [apply_soa hsoa]; exact hs.soa_isSome
  ns_isSome := isSome_apply_ns hfaithful hs.ns_isSome
  plain := hs.plain.apply hsoa hplain
  allocated p hp := lt_of_lt_of_le (b := s.objects.rrsets.next) (hs.allocated p hp)
    hext.rrsets.next_le
  value_eq p hp := (hext.value_eq (hs.allocated p hp)).trans (hs.value_eq p hp)

theorem Follows.delete (hps : PlainRRsets h ps) (hp : p ∈ ps)
    (hfaithful : (Change.delete (h.value p)).Faithful origin m) :
    ∃ s', zoneUpdator.deleteRRset (.ok s) p = .ok s' ∧
      Follows origin h ps ttl x k ((Change.delete (h.value p)).op.apply origin m) s' := by
  obtain ⟨s', hs', hintact, hext, hcontent⟩ :=
    zoneUpdator_deleteRRset hs.intact hs.hasApex (hs.allocated p hp)
  refine ⟨s', hs', hs.of_change hfaithful (hps.typ_ne_soa p hp) (hps.plain p hp) hintact hext ?_⟩
  have hfaithful' := hfaithful.set_soa (hps.typ_ne_soa p hp) hs.soa_isSome
    ⟨ttl, [.soa { x with serial := k }]⟩
  have hns := hs.hasApex.2
  rw [hs.intact.origin_eq, hs.content_eq] at hns
  rw [hcontent, hs.content_eq, hs.value_eq p hp,
    withdraw_of_faithful (hps.typ_ne_soa p hp) hns hfaithful']

theorem Follows.add (hps : PlainRRsets h ps) (hp : p ∈ ps)
    (hfaithful : (Change.add (h.value p)).Faithful origin m) :
    ∃ s', zoneUpdator.add (.ok s) p = .ok s' ∧
      Follows origin h ps ttl x k ((Change.add (h.value p)).op.apply origin m) s' := by
  have hop : (ZoneOp.add p).WellFormed s.objects := by
    refine ⟨hs.allocated p hp, fun htyp => ?_⟩
    rw [hs.value_eq p hp] at htyp
    exact absurd htyp (hps.typ_ne_soa p hp)
  obtain ⟨s', hs', hintact, hext, hcontent⟩ := zoneUpdator_add hs.intact hop
  refine ⟨s', hs', hs.of_change hfaithful (hps.typ_ne_soa p hp) (hps.plain p hp) hintact hext ?_⟩
  have hfaithful' := hfaithful.set_soa (hps.typ_ne_soa p hp) hs.soa_isSome
    ⟨ttl, [.soa { x with serial := k }]⟩
  rw [hcontent, hs.content_eq, hs.value_eq p hp, ZoneMap.offer, if_pos hfaithful'.1]
  rfl

omit [LawfulDomainTree T NameNode] in
theorem Follows.increaseSerialNumber (hps : PlainRRsets h ps) :
    ∃ s', zoneUpdator.increaseSerialNumber (.ok s) = .ok s' ∧
      Follows origin h ps ttl x (k + 1) m s' := by
  have hsoa : s.zone.content s.objects origin .soa = some ⟨ttl, [.soa { x with serial := k }]⟩ := by
    rw [hs.content_eq, ZoneMap.set, if_pos ⟨rfl, rfl⟩]
  have hplain : PlainMap origin (s.zone.content s.objects) := by
    intro n t e hentry hkey
    rw [hs.content_eq, ZoneMap.set, if_neg hkey] at hentry
    exact hs.plain n t e hentry hkey
  obtain ⟨s', hs', hintact, hrrsets, hvalue, hcontent⟩ :=
    zoneUpdator_increaseSerialNumber hs.intact hsoa hplain
  refine ⟨s', hs', hintact, ?_, hs.soa_isSome, hs.ns_isSome, hs.plain, ?_, ?_⟩
  · rw [hcontent, hs.content_eq]
    funext n t
    unfold ZoneMap.set
    split <;> rfl
  · intro p hp
    rw [hrrsets]
    exact hs.allocated p hp
  · intro p hp
    rw [hvalue p (by rw [hs.value_eq p hp]; exact hps.plain p hp), hs.value_eq p hp]

omit [LawfulDomainTree T NameNode] in
theorem Follows.foldl {f : Except Panic (ZoneState T) → Ptr → Except Panic (ZoneState T)}
    {change : RRset Rdata → Change} {cs : List Change}
    (hstep : ∀ p ∈ ps, ∀ m s, Follows origin h ps ttl x k m s →
      (change (h.value p)).Faithful origin m → ∃ s', f (.ok s) p = .ok s' ∧
        Follows origin h ps ttl x k ((change (h.value p)).op.apply origin m) s')
    {rs : List Ptr} (hrs : rs ⊆ ps)
    (hfaithful : FaithfulAlong origin m (rs.map (fun p => change (h.value p)) ++ cs)) :
    ∃ s' m', rs.foldl f (.ok s) = .ok s' ∧ Follows origin h ps ttl x k m' s' ∧
      m' = (rs.map fun p => change (h.value p)).foldl (fun m c => c.op.apply origin m) m ∧
      FaithfulAlong origin m' cs := by
  induction rs generalizing m s with
  | nil => exact ⟨s, m, rfl, hs, rfl, hfaithful⟩
  | cons p rs ih =>
    obtain ⟨hp, hrest⟩ := cons_subset.mp hrs
    obtain ⟨mid, hmid, hfollows⟩ := hstep p hp m s hs hfaithful.1
    obtain ⟨s', m', hs', hfollows', hm', hfaithful'⟩ := ih hfollows hrest hfaithful.2
    exact ⟨s', m', by rw [foldl_cons, hmid, hs'], hfollows', hm', hfaithful'⟩

theorem Follows.applyDifference (hps : PlainRRsets h ps) {d : Difference} {cs : List Change}
    (hdeletions : d.deletions ⊆ ps) (hadditions : d.additions ⊆ ps)
    (hfaithful : FaithfulAlong origin m (d.changes h ++ cs)) :
    ∃ s' m', zoneUpdator.applyDifference (.ok s) d = .ok s' ∧
      Follows origin h ps ttl x (k + 1) m' s' ∧
      m' = (d.changes h).foldl (fun m c => c.op.apply origin m) m ∧ FaithfulAlong origin m' cs := by
  rw [Difference.changes, append_assoc] at hfaithful
  obtain ⟨s₁, m₁, hs₁, hfollows₁, hm₁, hfaithful₁⟩ := hs.foldl
    (fun p hp m s hs => hs.delete hps hp) hdeletions hfaithful
  obtain ⟨s₂, hs₂, hfollows₂⟩ := hfollows₁.increaseSerialNumber hps
  obtain ⟨s₃, m₃, hs₃, hfollows₃, hm₃, hfaithful₃⟩ := hfollows₂.foldl
    (fun p hp m s hs => hs.add hps hp) hadditions hfaithful₁
  refine ⟨s₃, m₃, ?_, hfollows₃, ?_, hfaithful₃⟩
  · rw [Updator.applyDifference, hs₁, hs₂, hs₃]
  · rw [hm₃, hm₁, Difference.changes, foldl_append]

theorem Follows.applyDifferences (hps : PlainRRsets h ps) {ds : List Difference}
    (hds : ∀ d ∈ ds, d.deletions ⊆ ps ∧ d.additions ⊆ ps)
    (hfaithful : FaithfulAlong origin m (ds.flatMap (·.changes h))) :
    ∃ s' m', ds.foldl zoneUpdator.applyDifference (.ok s) = .ok s' ∧
      Follows origin h ps ttl x (serialAfter k ds) m' s' ∧
      m' = (ds.flatMap (·.changes h)).foldl (fun m c => c.op.apply origin m) m := by
  induction ds generalizing m s k with
  | nil => exact ⟨s, m, rfl, hs, rfl⟩
  | cons d ds ih =>
    obtain ⟨hdeletions, hadditions⟩ := hds d mem_cons_self
    rw [flatMap_cons] at hfaithful
    obtain ⟨mid, m₁, hmid, hfollows, hm₁, hfaithful'⟩ :=
      hs.applyDifference hps hdeletions hadditions hfaithful
    obtain ⟨s', m', hs', hfollows', hm'⟩ := ih hfollows
      (fun d' hd' => hds d' (mem_cons_of_mem _ hd')) hfaithful'
    refine ⟨s', m', ?_, hfollows', ?_⟩
    · rw [foldl_cons, hmid, hs']
    · rw [hm', hm₁, flatMap_cons, foldl_append]

end follows

end Vanguard.Xfr
