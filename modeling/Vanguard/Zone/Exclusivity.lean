import Vanguard.Zone.Offers

namespace Vanguard.Zone

open Library List Option

def ZoneMap.NonEmpty (m : ZoneMap) : Prop := ∀ n t e, m n t = some e → e.rdatas ≠ []

def MapOp.NonEmpty : MapOp → Prop
  | .add r => r.rdatas ≠ []
  | _ => True

instance (op : MapOp) : Decidable op.NonEmpty :=
  match op with
  | .add r => inferInstanceAs (Decidable (r.rdatas ≠ []))
  | .deleteRRset _ _ | .deleteRr _ | .deleteDomain _ => .isTrue trivial

theorem ZoneMap.NonEmpty.apply {origin : Name} {m : ZoneMap} {op : MapOp} (hm : m.NonEmpty)
    (hop : op.NonEmpty) : (op.apply origin m).NonEmpty := by
  intro n t e hentry
  refine MapOp.rdatas_apply (hm n t) (fun r hr _ _ => .inl ?_) hentry
  subst hr
  exact hop

namespace MemoryZone

variable {T : Type} [DomainTree T NameNode]

def Exclusive (z : MemoryZone T) : Prop :=
  ∀ n, (z.slots n .cname).isSome = true → ∀ t ≠ .cname, z.slots n t = none

structure Proper (h : Objects) (z : MemoryZone T) : Prop where
  exclusive : z.Exclusive
  stored : ∀ n t slot, z.slots n t = some slot → ∃ p, slot = some p ∧ (h.value p).rdatas ≠ []
  filled : ∀ n, (dataAt z.domains n).isSome = true → ∃ t p, z.slots n t = some (some p)

def KeepsApex (h : Objects) (z : MemoryZone T) : ZoneOp → Prop
  | .deleteDomain name =>
    name = z.origin → (dataAt z.domains name).isSome = true → z.HasApex h
  | _ => True

instance (h : Objects) (z : MemoryZone T) (op : ZoneOp) : Decidable (z.KeepsApex h op) :=
  match op with
  | .deleteDomain _ => inferInstanceAs (Decidable (_ → _ → _))
  | .add _ | .deleteRRset _ | .deleteRr _ => .isTrue trivial

variable {h : Objects} {z z' : MemoryZone T} {o : Outcome T}

theorem proper_iff : z.Proper h ↔ z.Exclusive ∧ (∀ n t, z.slots n t ≠ some none) ∧
    (z.content h).NonEmpty ∧ z.Filled := by
  constructor
  · intro hz
    refine ⟨hz.exclusive, fun n t hnil => ?_, fun n t e hentry => ?_, fun n nodeData hdata => ?_⟩
    · obtain ⟨p, hp, _⟩ := hz.stored n t none hnil
      cases hp
    · obtain ⟨p, hslot⟩ := slots_of_content (hentry ▸ rfl : (z.content h n t).isSome = true)
      rw [content_of_slots hslot] at hentry
      obtain ⟨q, hq, hne⟩ := hz.stored n t (some p) hslot
      cases hq
      exact Option.some.inj hentry ▸ hne
    · obtain ⟨t, p, hslot⟩ := hz.filled n (by simp [hdata])
      have hlookup : nodeData.lookup t = some (some p) := by simpa [slots, hdata] using hslot
      exact ne_nil_of_mem (AList.mem_lookup_iff.mp hlookup)
  · rintro ⟨hexclusive, hnil, hrdatas, hfilled⟩
    have hstored (n : Name) (t : RRType) (slot : Option Ptr) (hslot : z.slots n t = some slot) :
        ∃ p, slot = some p ∧ (h.value p).rdatas ≠ [] := by
      cases slot with
      | none => exact absurd hslot (hnil n t)
      | some p => exact ⟨p, rfl, hrdatas n t _ (content_of_slots hslot)⟩
    refine ⟨hexclusive, hstored, fun n hdata => ?_⟩
    obtain ⟨nodeData, hnode⟩ := isSome_iff_exists.mp hdata
    obtain ⟨⟨t, slot⟩, hmem⟩ := exists_mem_of_ne_nil _ (hfilled n nodeData hnode)
    have hslot : z.slots n t = some slot := by
      simpa [slots, hnode] using AList.mem_lookup_iff.mpr hmem
    obtain ⟨p, rfl, _⟩ := hstored n t slot hslot
    exact ⟨t, p, hslot⟩

theorem Exclusive.of_subset (hz : z.Exclusive)
    (hsub : ∀ n t, (z'.slots n t).isSome = true → (z.slots n t).isSome = true) :
    z'.Exclusive := by
  intro n hcname t ht
  have hnone := hz n (hsub n .cname hcname) t ht
  by_contra hsome
  have := hsub n t (isSome_iff_ne_none.mpr hsome)
  simp [hnone] at this

/-- Setting a slot that shares its name with no CNAME. -/
theorem Exclusive.set {n : Name} {t : RRType} {q : Ptr} (hz : z.Exclusive)
    (hslots : z'.slots = (SlotChange.set n t q).apply z.slots)
    (hcname : t ≠ .cname → z.slots n .cname = none)
    (hothers : t = .cname → ∀ k ≠ .cname, z.slots n k = none) : z'.Exclusive := by
  intro m hsome k hk
  rw [hslots] at hsome ⊢
  simp only [SlotChange.apply] at hsome ⊢
  by_cases hm : m = n
  · subst hm
    by_cases ht : t = .cname
    · rw [if_neg (by simp [ht, hk])]
      exact hothers ht k hk
    · rw [if_neg (by simp [Ne.symm ht]), hcname ht] at hsome
      cases hsome
  · simp only [hm, false_and, if_false] at hsome ⊢
    exact hz m hsome k hk

variable [LawfulDomainTree T NameNode]

theorem Exclusive.addRRset {p : Ptr} (hz : z.Exclusive) (hfilled : z.Filled)
    (hok : z.addRRset h p = .ok o) : o.zone.Exclusive := by
  cases addRRset_effect hok with
  | invalid => exact hz
  | refused | kept => exact hz.of_subset fun n t hsome => by simpa [slots] using hsome
  | created hvalid hdata =>
    have hempty (t : RRType) : z.slots (h.rrsets.load p).name t = none := by simp [slots, hdata]
    exact hz.set (slots_storeNode p (by simp [hempty])) (fun _ => hempty _) fun _ t _ => hempty t
  | @stored nodeData _ q hvalid hdata hcheck hmerge =>
    have hslots (t : RRType) : nodeData.lookup t = z.slots (h.rrsets.load p).name t := by
      simp [slots, hdata]
    obtain ⟨hcname, hothers⟩ := (checkRRsetCouldBeAdded_eq_none_iff (hfilled _ _ hdata) _).mp hcheck
    refine hz.set (slots_storeNode q hslots) (fun ht => ?_) fun ht t hne => ?_
    · rw [← hslots]
      exact hcname ht
    · rw [← hslots]
      exact hothers ht t hne

variable {op : ZoneOp}

theorem isSome_slots_of_deletion (hop : ∀ p, op ≠ .add p) (hapex : z.KeepsApex h op)
    (hok : z.perform h op = .ok o) {n : Name} {t : RRType}
    (hsome : (o.zone.slots n t).isSome = true) : (z.slots n t).isSome = true := by
  obtain ⟨c, hc, hslots⟩ := perform_makes hok
  rw [hslots] at hsome
  cases hc with
  | keep => exact hsome
  | set _ _ hold =>
    simp only [SlotChange.apply] at hsome
    split at hsome
    · next heq =>
      rw [heq.1, heq.2]
      exact hold hop
    · exact hsome
  | unset | clear =>
    simp only [SlotChange.apply] at hsome
    split at hsome
    · cases hsome
    · exact hsome
  | keepApex hdelete hdata =>
    subst hdelete
    obtain ⟨hsoa, hns⟩ := hapex rfl hdata
    simp only [SlotChange.apply] at hsome
    split at hsome
    · next hn =>
      split at hsome
      · next ht =>
        rcases ht with rfl | rfl
        · obtain ⟨p, hp⟩ := slots_of_content hsoa
          simp [hn, hp]
        · obtain ⟨p, hp⟩ := slots_of_content hns
          simp [hn, hp]
      · cases hsome
    · exact hsome

theorem slots_ne_nil_perform (hz : ∀ n t, z.slots n t ≠ some none) (hapex : z.KeepsApex h op)
    (hok : z.perform h op = .ok o) (n : Name) (t : RRType) : o.zone.slots n t ≠ some none := by
  intro hnil
  by_cases hop : ∀ p, op ≠ .add p
  · have hsome := isSome_slots_of_deletion hop hapex hok (n := n) (t := t) (by simp [hnil])
    obtain ⟨c, -, hslots⟩ := perform_makes hok
    rw [hslots] at hnil
    rcases SlotChange.apply_eq_nil hnil with hold | ⟨_, _, hnone⟩
    · exact hz n t hold
    · simp [hnone] at hsome
  · obtain ⟨p, rfl⟩ := not_forall_not.mp hop
    exact hz n t (slots_eq_nil_of_addRRset hok hnil)

theorem Proper.perform_iff (hz : z.Proper h) (halloc : z.Allocated h) (hop : (op.value h).NonEmpty)
    (hok : z.perform h op = .ok o) : o.zone.Proper o.objects ↔ z.KeepsApex h op := by
  constructor
  · intro hproper
    cases op with
    | deleteDomain name =>
      intro hname hdata
      have hslots : o.zone.slots = (SlotChange.keepApex name).apply z.slots := by
        rcases (deleteDomain_change hok).2 with ⟨⟨err, herr⟩, _⟩ | ⟨_, hslots⟩
        · cases deleteDomain_effect hok with
          | outOfZone hout => exact absurd (hname ▸ suffix_refl _) hout
          | unknown _ hnone => simp [hnone] at hdata
          | apex | deleted => cases herr
        · rwa [if_pos hname] at hslots
      have hkept {t : RRType} (ht : t = .soa ∨ t = .ns) :
          (z.content h z.origin t).isSome = true := by
        have hslot : o.zone.slots name t = some ((z.slots name t).getD none) := by
          simp [hslots, SlotChange.apply, ht]
        obtain ⟨p, hp, _⟩ := hproper.stored name t _ hslot
        have hold : z.slots z.origin t = some (some p) := by
          rw [← hname]
          cases hslot : z.slots name t with
          | none => simp [hslot] at hp
          | some slot => simpa [hslot] using hp
        rw [content_of_slots hold, isSome_some]
      exact ⟨hkept (.inl rfl), hkept (.inr rfl)⟩
    | _ => trivial
  · intro hapex
    obtain ⟨hexclusive, hnil, hrdatas, hfilled⟩ := proper_iff.mp hz
    refine proper_iff.mpr ⟨?_, slots_ne_nil_perform hnil hapex hok, ?_, hfilled.perform hok⟩
    · by_cases hadd : ∀ p, op ≠ .add p
      · exact hexclusive.of_subset fun n t => isSome_slots_of_deletion hadd hapex hok
      · obtain ⟨p, rfl⟩ := not_forall_not.mp hadd
        exact hexclusive.addRRset hfilled hok
    · rw [content_perform_eq halloc hok]
      split
      · exact hrdatas
      · exact hrdatas.apply hop

end MemoryZone

variable {T : Type} [DomainTree T NameNode] [LawfulDomainTree T NameNode]

/-- CNAMEs stand alone and nothing is empty exactly if the apex is never deleted too early. -/
theorem proper_iff_along (h : Objects) (origin : Name) (ops : List ZoneOp)
    (hops : ∀ op ∈ ops, op.Allocated h ∧ (op.value h).NonEmpty) :
    (∀ s, Reached ZoneState.step ⟨h, (newMemoryZone origin : MemoryZone T), []⟩ ops s →
      s.zone.Proper s.objects) ↔
    Along ZoneState.step (fun s op => s.zone.KeepsApex s.objects op)
      ⟨h, (newMemoryZone origin : MemoryZone T), []⟩ ops := by
  refine reached_iff_along_of_subset
    (fun s : ZoneState T => s.zone.Allocated s.objects ∧
      ∀ op ∈ ops, op.Allocated s.objects ∧ (op.value s.objects).NonEmpty)
    (fun s => s.zone.Proper s.objects) ops ?_ ?_ ops (List.Subset.refl ops)
    ⟨(MemoryZone.WellFormed.newMemoryZone h origin).allocated, hops⟩ ?_
  · rintro s op hop s' ⟨hz, hall⟩ hproper hstep
    obtain ⟨o, hok, rfl⟩ := ZoneState.step_eq_ok.mp hstep
    have hext := MemoryZone.perform_extends hok
    refine ⟨⟨MemoryZone.perform_allocated hz (hall op hop).1 hok, fun op' hop' => ?_⟩,
      hproper.perform_iff hz (hall op hop).2 hok⟩
    obtain ⟨halloc, hvalue⟩ := hall op' hop'
    exact ⟨halloc.mono hext, ZoneOp.value_of_extends hext halloc ▸ hvalue⟩
  · intro s op _ e _ _ hstep
    cases op with
    | deleteDomain name =>
      obtain ⟨o, hok⟩ := MemoryZone.deleteDomain_returns s.objects s.zone name
      cases hok.symm.trans (ZoneState.step_eq_error.mp hstep)
    | _ => trivial
  · have hempty (n : Name) : dataAt (newMemoryZone origin : MemoryZone T).domains n = none := by
      simp [newMemoryZone, newWithDomains]
    refine ⟨fun n hsome => ?_, fun n t slot hslot => ?_, fun n hsome => ?_⟩
    · simp [MemoryZone.slots, hempty] at hsome
    · simp [MemoryZone.slots, hempty] at hslot
    · simp [hempty] at hsome

def apexObjects : Objects := .ofLists
  [⟨["example"], .soa, .internet, 300, [0]⟩, ⟨["example"], .ns, .internet, 300, [1]⟩,
    ⟨["example"], .a, .internet, 300, [2]⟩]
  [.soa ⟨["ns", "example"], ["root", "example"], 1, 7200, 3600, 86400, 300⟩,
    .ns ["ns", "example"], .a [1, 1, 1, 1]]

/-- A zone is loaded, gets an A RRset at its apex, and its apex is deleted. -/
theorem example_keepsApex :
    (∀ op ∈ ([.add 0, .add 1, .add 2, .deleteDomain ["example"]] : List ZoneOp),
      op.Allocated apexObjects ∧ (op.value apexObjects).NonEmpty) ∧
    ∀ s, Reached ZoneState.step
        (⟨apexObjects, newMemoryZone ["example"], []⟩ : ZoneState (ReferenceTree NameNode))
        [.add 0, .add 1, .add 2, .deleteDomain ["example"]] s →
      s.zone.Proper s.objects :=
  ⟨by decide, (proper_iff_along apexObjects ["example"]
    [.add 0, .add 1, .add 2, .deleteDomain ["example"]] (by decide)).mpr (by decide)⟩

/-- The apex is deleted, and has data but no RRset. -/
theorem example_apex_without_rrset :
    ∃ s, run ZoneState.step
        (⟨apexObjects, newMemoryZone ["example"], []⟩ : ZoneState (ReferenceTree NameNode))
        [.add 2, .deleteDomain ["example"]] = .ok s ∧
      s.results = [none, none] ∧
      (dataAt s.zone.domains ["example"]).isSome = true ∧
      (∀ nodeData ∈ dataAt s.zone.domains ["example"], ∀ entry ∈ nodeData.entries, entry.2 = none) ∧
      s.zone.slots ["example"] .soa = some none ∧ s.zone.slots ["example"] .ns = some none :=
  ⟨_, rfl, rfl, by decide, by decide, by decide, by decide⟩

end Vanguard.Zone
