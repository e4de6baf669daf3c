import Vanguard.Zone.Operations

namespace Vanguard.Zone

open Library

variable {T : Type} [DomainTree T NameNode]

namespace MemoryZone

variable {h : Objects} {z : MemoryZone T} {o : Outcome T} {op : ZoneOp}

theorem isSome_dataAt_of_slots {n : Name} {t : RRType} (hslot : (z.slots n t).isSome = true) :
    (dataAt z.domains n).isSome = true := by
  cases hdata : dataAt z.domains n with
  | none => simp [slots, hdata] at hslot
  | some nodeData => rfl

/-- `Commit` accepts a zone that holds the node of its origin, with a slot for SOA and one for NS.
-/
theorem validate_eq_none_iff : z.validate = none ↔ z.originNode = .attached ∧
    (z.slots z.origin .soa).isSome = true ∧ (z.slots z.origin .ns).isSome = true := by
  unfold validate originData slots
  cases z.originNode with
  | detached => simp
  | attached =>
    cases dataAt z.domains z.origin with
    | none => simp
    | some nodeData =>
      cases hsoa : nodeData.lookup .soa with
      | none => simp [hsoa]
      | some soa => cases hns : nodeData.lookup .ns <;> simp [hsoa, hns]

/-- The slots of SOA and NS at the apex are cleared by an `unset` only. -/
theorem Makes.isSome_apply {c : SlotChange} {t : RRType} (hc : Makes h z op o c)
    (ht : t = .soa ∨ t = .ns) (hkeep : c ≠ .unset z.origin t)
    (hsome : (z.slots z.origin t).isSome = true) : (c.apply z.slots z.origin t).isSome = true := by
  cases hc with
  | keep => exact hsome
  | set =>
    simp only [SlotChange.apply]
    split
    · rfl
    · exact hsome
  | unset =>
    simp only [SlotChange.apply]
    split
    · next heq => exact absurd (by rw [heq.1, heq.2]) hkeep
    · exact hsome
  | clear hn => simpa [SlotChange.apply, Ne.symm hn] using hsome
  | keepApex => simp [SlotChange.apply, ht]

variable [LawfulDomainTree T NameNode]

theorem perform_soa (hok : z.perform h op = .ok o) (hsoa : (z.slots z.origin .soa).isSome = true) :
    (o.zone.slots z.origin .soa).isSome = true := by
  obtain ⟨c, hc, hslots⟩ := perform_makes hok
  rw [hslots]
  refine hc.isSome_apply (.inl rfl) ?_ hsoa
  rintro rfl
  cases hc with
  | unset hne => exact hne ⟨rfl, rfl⟩

theorem originNode_deleteNode {name : Name}
    (hdata : (dataAt (z.deleteNode name).domains z.origin).isSome = true) :
    (z.deleteNode name).originNode = z.originNode := by
  rw [dataAt_deleteNode] at hdata
  have hnode : (node (remove z.domains name) z.origin).isSome = true := by
    obtain ⟨nodeData, hsome⟩ := Option.isSome_iff_exists.mp hdata
    have hremove : dataAt (remove z.domains name) z.origin = some nodeData := by
      rw [dataAt_remove]
      exact hsome
    exact isSome_node_of_dataAt hremove
  unfold deleteNode removeName
  split <;> simp [hnode]

theorem perform_originNode (hok : z.perform h op = .ok o)
    (hsoa : (z.slots z.origin .soa).isSome = true) : o.zone.originNode = z.originNode := by
  have hdata := isSome_dataAt_of_slots (perform_soa hok hsoa)
  have hdrop {name : Name} {nodeData : NameNode} {typ : RRType}
      (hkeep : (dataAt (z.dropType name nodeData typ).domains z.origin).isSome = true) :
      (z.dropType name nodeData typ).originNode = z.originNode := by
    simp only [dropType] at hkeep ⊢
    split at hkeep
    · next hlen =>
      rw [if_pos hlen]
      exact originNode_deleteNode hkeep
    · next hlen => rw [if_neg hlen]
  cases op with
  | add p => cases addRRset_effect hok <;> rfl
  | deleteRRset p =>
    cases deleteRRset_effect hok with
    | dropped => exact hdrop hdata
    | _ => rfl
  | deleteRr p =>
    cases deleteRr_effect hok with
    | dropped => exact hdrop hdata
    | _ => rfl
  | deleteDomain name =>
    cases deleteDomain_effect hok with
    | deleted => exact originNode_deleteNode hdata
    | _ => rfl

/-- A zone that `Commit` accepts stays one, unless an RRset is deleted as a whole. -/
theorem perform_validate (hvalid : z.validate = none) (hop : ∀ p, op ≠ .deleteRRset p)
    (hok : z.perform h op = .ok o) : o.zone.validate = none := by
  obtain ⟨hattached, hsoa, hns⟩ := validate_eq_none_iff.mp hvalid
  rw [validate_eq_none_iff, perform_origin hok]
  refine ⟨(perform_originNode hok hsoa).trans hattached, perform_soa hok hsoa, ?_⟩
  obtain ⟨c, hc, hslots⟩ := perform_makes hok
  rw [hslots]
  refine hc.isSome_apply (.inr rfl) ?_ hns
  rintro rfl
  cases hc with
  | unset _ hne => exact hne hop hattached ⟨rfl, rfl⟩

theorem slots_eq_nil_of_addRRset {p : Ptr} {n : Name} {t : RRType} (hok : z.addRRset h p = .ok o)
    (hnil : o.zone.slots n t = some none) : z.slots n t = some none := by
  rcases addRRset_change hok with ⟨_, hslots⟩ | ⟨_, _, _, hslots, _⟩
  · rwa [hslots] at hnil
  · rw [hslots] at hnil
    rcases SlotChange.apply_eq_nil hnil with hold | ⟨hc, _⟩
    · exact hold
    · cases hc

theorem perform_allocated (hz : z.Allocated h) (hop : op.Allocated h)
    (hok : z.perform h op = .ok o) : o.zone.Allocated o.objects := by
  have hnext := (perform_extends hok).rrsets.next_le
  obtain ⟨c, hc, hslots⟩ := perform_makes hok
  intro n t q hslot
  rw [hslots] at hslot
  rcases SlotChange.apply_eq_some hslot with hold | rfl
  · exact (hz n t q hold).trans_le hnext
  · cases hc with
    | set _ hptr =>
      rcases hptr with rfl | hlt
      · exact hop.trans_le hnext
      · exact hlt

end MemoryZone

end Vanguard.Zone
