import Vanguard.Zone.Transaction

namespace Vanguard

open Library List

namespace Objects

def Closed (h : Objects) : Prop :=
  ∀ p < h.rrsets.next, ∀ q ∈ (h.rrsets.load p).rdatas, q < h.rdatas.next

structure Grows (h h' : Objects) : Prop where
  rrsets : h.rrsets.Extends h'.rrsets
  rdatas : h.rdatas.Extends h'.rdatas

theorem Grows.refl (h : Objects) : h.Grows h := ⟨.refl _, .refl _⟩

theorem Grows.trans {h h' h'' : Objects} (h₁ : h.Grows h') (h₂ : h'.Grows h'') : h.Grows h'' :=
  ⟨h₁.rrsets.trans h₂.rrsets, h₁.rdatas.trans h₂.rdatas⟩

theorem Grows.value_eq {h h' : Objects} (hgrows : h.Grows h') (hclosed : h.Closed) {p : Ptr}
    (hp : p < h.rrsets.next) : h'.value p = h.value p := by
  have hrdatas : (h.rrsets.load p).rdatas.map h'.rdatas.load =
      (h.rrsets.load p).rdatas.map h.rdatas.load :=
    map_congr_left fun q hq => hgrows.rdatas.load_eq q (hclosed p hp q hq)
  simp only [value, RRset.map, hgrows.rrsets.load_eq p hp, hrdatas]

theorem Closed.allocRRset {h : Objects} (hclosed : h.Closed) {r : RRset Ptr}
    (hr : ∀ q ∈ r.rdatas, q < h.rdatas.next) : (h.allocRRset r).1.Closed := by
  intro p hp q hq
  rcases Nat.lt_succ_iff_lt_or_eq.mp hp with hold | rfl
  · have hload : (h.allocRRset r).1.rrsets.load p = h.rrsets.load p :=
      (extends_allocRRset h r).rrsets.load_eq p hold
    exact hclosed p hold q (hload ▸ hq)
  · have hload : (h.allocRRset r).1.rrsets.load h.rrsets.next = r := Heap.load_alloc _ _
    exact hr q (hload ▸ hq)

theorem Closed.allocRecord {h : Objects} (hclosed : h.Closed) (rdata : Rdata) (name : Name)
    (typ : RRType) (cls : RRClass) (ttl : UInt32) :
    let h' := ({ h with rdatas := (h.rdatas.alloc rdata).1 }.allocRRset
      ⟨name, typ, cls, ttl, [(h.rdatas.alloc rdata).2]⟩).1
    h'.Closed ∧ h.Grows h' := by
  have hmade : ({ h with rdatas := (h.rdatas.alloc rdata).1 } : Objects).Closed := fun p hp q hq =>
    (hclosed p hp q hq).trans (Nat.lt_succ_self _)
  refine ⟨hmade.allocRRset ?_, Heap.extends_alloc _ _, Heap.extends_alloc _ _⟩
  simp

end Objects

namespace Zone

namespace MemoryZone

variable {T : Type} [DomainTree T NameNode] {h h' : Objects} {z : MemoryZone T}

theorem Agrees.of_grows (hz : z.Allocated h) (hclosed : h.Closed) (hgrows : h.Grows h') :
    z.Agrees h h' := fun n t q hslot =>
  ⟨hgrows.rrsets.load_eq q (hz n t q hslot), fun p hp =>
    hgrows.rdatas.load_eq p (hclosed q (hz n t q hslot) p hp)⟩

theorem Agrees.content_eq (hagree : z.Agrees h h') : z.content h' = z.content h := by
  funext n t
  rcases hslot : z.slots n t with _ | _ | q
  · simp [content, hslot, entryAt]
  · simp [content, hslot, entryAt]
  · simp [content, hslot, entryAt, hagree.value_eq hslot]

theorem Allocated.mono (hz : z.Allocated h) (hnext : h.rrsets.next ≤ h'.rrsets.next) :
    z.Allocated h' := fun n t p hslot => (hz n t p hslot).trans_le hnext

variable [LawfulDomainTree T NameNode]

theorem perform_closed {op : ZoneOp} {o : Outcome T} (hclosed : h.Closed) (hz : z.Allocated h)
    (hop : op.Allocated h) (hok : z.perform h op = .ok o) : o.objects.Closed := by
  have hstored {n : Name} {t : RRType} {nodeData : NameNode} {old : Ptr}
      (hdata : dataAt z.domains n = some nodeData) (hslot : nodeData.lookup t = some (some old)) :
      ∀ q ∈ (h.rrsets.load old).rdatas, q < h.rdatas.next :=
    hclosed old (hz n t old (by simp [slots, hdata, hslot]))
  cases op with
  | add p =>
    cases addRRset_effect hok with
    | stored hvalid hdata hcheck hmerge =>
      cases mergeRRset_effect hmerge with
      | merged hsoa hcname hslot hchange =>
        refine hclosed.allocRRset fun q hq => ?_
        obtain ⟨added, hsub, heq, -⟩ := addRdatas_eq h _ (h.rrsets.load p).rdatas
        rcases mem_append.mp (heq ▸ hq) with hold | hnew
        · exact hstored hdata hslot q hold
        · exact hclosed p hop q (hsub hnew)
      | _ => exact hclosed
    | _ => exact hclosed
  | deleteRr p =>
    cases deleteRr_effect hok with
    | reduced hcheck hdata hslot hleft =>
      exact hclosed.allocRRset fun q hq => hstored hdata hslot q (mem_filter.mp hq).1
    | _ => exact hclosed
  | deleteRRset p => exact (deleteRRset_change hok).1 ▸ hclosed
  | deleteDomain name => exact (deleteDomain_change hok).1 ▸ hclosed

end MemoryZone

end Zone

end Vanguard
