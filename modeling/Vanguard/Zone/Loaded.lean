import Vanguard.Zone.Content
import Vanguard.Zone.FindSafety

namespace Vanguard.Zone

open Library

section

open SlotChange

variable {T : Type} [DomainTree T NameNode]

namespace MemoryZone

structure Filed (h : Objects) (z : MemoryZone T) : Prop where
  allocated : z.Allocated h
  keyed : ∀ n t p, z.slots n t = some (some p) → (h.value p).name = n ∧ (h.value p).typ = t
  nil : ∀ n t, z.slots n t = some none → t = .soa ∨ t = .ns
  inZone : ∀ n t, (z.slots n t).isSome = true → z.origin <:+ n

variable [LawfulDomainTree T NameNode] {h : Objects} {z : MemoryZone T}

theorem Filed.perform (hz : z.Filed h) {op : ZoneOp} {o : Outcome T} (hop : op.Allocated h)
    (hok : z.perform h op = .ok o) : o.zone.Filed o.objects := by
  obtain ⟨c, hc, hslots⟩ := perform_makes hok
  refine ⟨perform_allocated hz.allocated hop hok, fun n t p hslot => ?_, fun n t hslot => ?_,
    fun n t hsome => ?_⟩
  · rw [hslots] at hslot
    rcases apply_eq_some hslot with hold | rfl
    · rw [(perform_extends hok).value_eq (hz.allocated n t p hold)]
      exact hz.keyed n t p hold
    · cases hc with
      | set _ _ _ hkeyed => exact hkeyed (hz.keyed n t)
  · rw [hslots] at hslot
    rcases apply_eq_nil hslot with hold | ⟨_, htyp, _⟩
    · exact hz.nil n t hold
    · exact htyp
  · rw [perform_origin hok]
    rw [hslots] at hsome
    obtain ⟨slot, hslot⟩ := Option.isSome_iff_exists.mp hsome
    cases slot with
    | none =>
      rcases apply_eq_nil hslot with hold | ⟨rfl, _⟩
      · exact hz.inZone n t (by simp [hold])
      · cases hc
        exact List.suffix_rfl
    | some p =>
      rcases apply_eq_some hslot with hold | rfl
      · exact hz.inZone n t (by simp [hold])
      · cases hc with
        | set hin => exact hin

theorem Filed.newMemoryZone (h : Objects) (origin : Name) :
    (Zone.newMemoryZone origin : MemoryZone T).Filed h := by
  refine ⟨?_, ?_, ?_, ?_⟩
  all_goals simp [Allocated]

theorem Filed.clone (hz : z.Filed h) : z.clone.Filed h := by
  refine ⟨fun n t p hslot => ?_, fun n t p hslot => ?_, fun n t hslot => ?_, fun n t hsome => ?_⟩
  · exact hz.allocated n t p (by simpa using hslot)
  · exact hz.keyed n t p (by simpa using hslot)
  · exact hz.nil n t (by simpa using hslot)
  · exact hz.inZone n t (by simpa using hsome)

end MemoryZone

theorem filed_of_reached [LawfulDomainTree T NameNode] {h : Objects} {origin : Name}
    {calls : List ZoneCall} (hcalls : ∀ op, .change op ∈ calls → op.Allocated h)
    {s : ZoneState T}
    (hreached : Reached ZoneState.stepCall ⟨h, newMemoryZone origin, []⟩ calls s) :
    s.zone.Filed s.objects := by
  let Inv (s : ZoneState T) : Prop :=
    s.zone.Filed s.objects ∧ ∀ op, .change op ∈ calls → op.Allocated s.objects
  have halong : Along ZoneState.stepCall (fun _ _ => True)
      ⟨h, (newMemoryZone origin : MemoryZone T), []⟩ calls := along_of_forall (by simp) _ _
  refine (reached_induction Inv ?_ (halong.and_mem (List.Subset.refl calls))
    ⟨.newMemoryZone h origin, hcalls⟩ hreached).1
  rintro s c s' ⟨hs, hall⟩ ⟨-, hmem⟩ hstep
  cases c with
  | clone =>
    cases hstep
    exact ⟨hs.clone, hall⟩
  | change op =>
    obtain ⟨o, hok, rfl⟩ := ZoneState.step_eq_ok.mp hstep
    exact ⟨hs.perform (hall op hmem) hok, fun op' hmem' =>
      (hall op' hmem').mono (MemoryZone.perform_extends hok)⟩

end

section tree

variable {T D : Type} [DomainTree T D] [LawfulDomainTree T D] {t : T} {n k : Name}

theorem isSome_node_of_insert (hnode : (node (insert t k) n).isSome = true) :
    (node t n).isSome = true ∨ n <:+ k := by
  by_cases hnk : n = k
  · exact .inr (hnk ▸ List.suffix_rfl)
  · cases hold : node t n with
    | some nd => exact .inl rfl
    | none =>
      rcases node_insert_of_none t k n hnk hold with hnone | ⟨_, hsuffix, _⟩
      · simp [hnone] at hnode
      · exact .inr hsuffix

end tree

variable {T : Type} [DomainTree T NameNode]

namespace MemoryZone

structure Loaded (h : Objects) (z : MemoryZone T) : Prop where
  allocated : z.Allocated h
  stored : ∀ n t, z.slots n t ≠ some none
  cuts : z.CutsInStep
  marks : z.MarksInStep
  apex : (node z.domains z.origin).isSome = true
  inZone : ∀ n t, (z.slots n t).isSome = true → z.origin <:+ n
  keyed : ∀ n t p, z.slots n t = some (some p) → (h.value p).name = n ∧ (h.value p).typ = t
  typed : ∀ n, (dataAt z.domains n).isSome = true → ∃ t, (z.slots n t).isSome = true
  nodes : ∀ n, (node z.domains n).isSome = true →
    n = z.origin ∨ ∃ k, n <:+ k ∧ (dataAt z.domains k).isSome = true

/-- The zone has the node of its origin, nodes with data and those above them. -/
structure Nodes (z : MemoryZone T) : Prop where
  apex : (node z.domains z.origin).isSome = true
  typed : ∀ n, (dataAt z.domains n).isSome = true → ∃ t, (z.slots n t).isSome = true
  nodes : ∀ n, (node z.domains n).isSome = true →
    n = z.origin ∨ ∃ k, n <:+ k ∧ (dataAt z.domains k).isSome = true

variable [LawfulDomainTree T NameNode] {h : Objects} {z : MemoryZone T}

variable {nodeData : NameNode} {r : RRset Ptr}

theorem isSome_node_flagged (c : Prop) [Decidable c] (t : T) (n m : Name) :
    (node (if c then setCallback (setData t m nodeData) m true else setData t m nodeData) n).isSome =
      (node t n).isSome := by
  split <;> simp [setCallback, setData]

theorem isSome_node_of_storeNode {n : Name}
    (hnode : (node (z.storeNode (insert z.domains r.name) r nodeData).domains n).isSome = true) :
    (node z.domains n).isSome = true ∨ n <:+ r.name := by
  simp only [storeNode] at hnode
  split at hnode
  · rw [markWildcardParent, setMark, isSome_node_modifyNode] at hnode
    rcases isSome_node_of_insert hnode with hold | hsuffix
    · exact isSome_node_of_insert (by rwa [isSome_node_flagged] at hold)
    · exact .inr (hsuffix.trans (List.tail_suffix _))
  · exact isSome_node_of_insert (by rwa [isSome_node_flagged] at hnode)

theorem isSome_node_storeNode {n : Name} (hnode : (node z.domains n).isSome = true) :
    (node (z.storeNode (insert z.domains r.name) r nodeData).domains n).isSome = true := by
  have hinsert := isSome_node_insert hnode r.name
  simp only [storeNode]
  split
  · rw [markWildcardParent, setMark, isSome_node_modifyNode]
    exact isSome_node_insert (by rwa [isSome_node_flagged]) _
  · rwa [isSome_node_flagged]

theorem Nodes.insert (hz : z.Nodes) {name : Name} (hdata : dataAt z.domains name = some nodeData) :
    { z with domains := Zone.insert z.domains name }.Nodes := by
  refine ⟨isSome_node_insert hz.apex name, fun n hsome => ?_, fun n hnode => ?_⟩
  · simpa [slots] using hz.typed n (by simpa using hsome)
  · simp only [dataAt_insert]
    rcases isSome_node_of_insert hnode with hold | hsuffix
    · exact hz.nodes n hold
    · exact .inr ⟨name, hsuffix, by simp [hdata]⟩

theorem Nodes.storeNode (hz : z.Nodes) (q : Ptr)
    (hdata : ∀ t, nodeData.lookup t = z.slots r.name t) :
    (z.storeNode (Zone.insert z.domains r.name) r (nodeData.insert r.typ (some q))).Nodes := by
  have hdataAt (n : Name) := dataAt_storeNode (z := z) (isSome_node_insert_self z.domains r.name)
    (nodeData.insert r.typ (some q)) n
  refine ⟨isSome_node_storeNode hz.apex, fun n hsome => ?_, fun n hnode => ?_⟩
  · rw [slots_storeNode q hdata]
    by_cases hn : n = r.name
    · exact ⟨r.typ, by simp [SlotChange.apply, hn]⟩
    · rw [hdataAt n, if_neg hn, dataAt_insert] at hsome
      obtain ⟨t, ht⟩ := hz.typed n hsome
      exact ⟨t, by simpa [SlotChange.apply, hn] using ht⟩
  · rcases isSome_node_of_storeNode hnode with hold | hsuffix
    · refine (hz.nodes n hold).imp_right ?_
      rintro ⟨k, hk, hsome⟩
      refine ⟨k, hk, ?_⟩
      rw [hdataAt k, dataAt_insert]
      split
      · rfl
      · exact hsome
    · exact .inr ⟨r.name, hsuffix, by rw [hdataAt, if_pos rfl]; rfl⟩

theorem Nodes.addRRset (hz : z.Nodes) {p : Ptr} {o : Outcome T} (hok : z.addRRset h p = .ok o) :
    o.zone.Nodes := by
  cases addRRset_effect hok with
  | invalid => exact hz
  | created hvalid hdata | stored hvalid hdata =>
    exact hz.storeNode _ fun t => by simp [slots, hdata]
  | refused hvalid hdata | kept hvalid hdata => exact hz.insert hdata

theorem Loaded.addRRset (hz : z.Loaded h) {p : Ptr} (hp : p < h.rrsets.next) {o : Outcome T}
    (hok : z.addRRset h p = .ok o) : o.zone.Loaded o.objects := by
  have hperform : z.perform h (.add p) = .ok o := hok
  have hop : (ZoneOp.add p).Allocated h := hp
  have hfiled : z.Filed h :=
    ⟨hz.allocated, hz.keyed, fun n t hnil => absurd hnil (hz.stored n t), hz.inZone⟩
  obtain ⟨hallocated, hkeyed, -, hin⟩ := hfiled.perform hop hperform
  obtain ⟨hapex, htyped, hnodes⟩ := Nodes.addRRset ⟨hz.apex, hz.typed, hz.nodes⟩ hok
  exact ⟨hallocated, fun n t hnil => hz.stored n t (slots_eq_nil_of_addRRset hok hnil),
    hz.cuts.perform id hperform, hz.marks.perform hperform, hapex, hin, hkeyed, htyped, hnodes⟩

theorem Loaded.newMemoryZone (h : Objects) (origin : Name) :
    (Zone.newMemoryZone origin : MemoryZone T).Loaded h := by
  refine ⟨?_, ?_, fun n => ?_, fun n => ?_, isSome_node_insert_self _ _, ?_, ?_, ?_, ?_⟩
  · simp [Allocated]
  · simp
  · simp [slots, Zone.newMemoryZone, newWithDomains]
  · simp [Zone.newMemoryZone, newWithDomains]
  · simp
  · simp
  · simp [Zone.newMemoryZone, newWithDomains]
  · intro n hnode
    left
    by_contra hne
    rcases node_insert_of_none (newDomainTree : T) origin n hne (node_newDomainTree n) with
      hnone | ⟨_, _, k, _, hk⟩
    · simp [Zone.newMemoryZone, newWithDomains, hnone] at hnode
    · simp [node_newDomainTree] at hk

end MemoryZone

theorem loaded_of_run [LawfulDomainTree T NameNode] {h : Objects} {origin : Name} {ps : List Ptr}
    (hps : ∀ p ∈ ps, p < h.rrsets.next) {s : ZoneState T}
    (hrun : run ZoneState.step ⟨h, newMemoryZone origin, []⟩ (ps.map .add) = .ok s) :
    s.zone.Loaded s.objects ∧ s.zone.origin = origin := by
  let Inv (s : ZoneState T) : Prop :=
    (s.zone.Loaded s.objects ∧ s.zone.origin = origin) ∧ ∀ p ∈ ps, p < s.objects.rrsets.next
  have halong : Along ZoneState.step (fun _ _ => True)
      ⟨h, (newMemoryZone origin : MemoryZone T), []⟩ (ps.map .add) :=
    along_of_forall (fun _ _ => trivial) _ _
  have hinv : Inv s := by
    refine run_induction Inv ?_ (halong.and_mem (List.Subset.refl _))
      ⟨⟨.newMemoryZone h origin, rfl⟩, hps⟩ hrun
    rintro s op s' ⟨⟨hz, horigin⟩, hall⟩ ⟨_, hmem⟩ hstep
    obtain ⟨o, hok, rfl⟩ := ZoneState.step_eq_ok.mp hstep
    obtain ⟨p, hp, rfl⟩ := List.mem_map.mp hmem
    refine ⟨⟨hz.addRRset (hall p hp) hok, (MemoryZone.perform_origin hok).trans horigin⟩, ?_⟩
    exact fun p' hp' =>
      (hall p' hp').trans_le (MemoryZone.perform_extends hok).rrsets.next_le
  exact hinv.1

end Vanguard.Zone
