import Vanguard.Zone.Effects
import Vanguard.Library.Runs

namespace Vanguard.Zone

open Library AList

inductive ZoneOp where
  | add (p : Ptr)
  | deleteRRset (p : Ptr)
  | deleteRr (p : Ptr)
  | deleteDomain (name : Name)
  deriving DecidableEq, Repr

def ZoneOp.Allocated (h : Objects) : ZoneOp → Prop
  | .add p | .deleteRRset p | .deleteRr p => p < h.rrsets.next
  | .deleteDomain _ => True

instance (h : Objects) (op : ZoneOp) : Decidable (op.Allocated h) :=
  match op with
  | .add p | .deleteRRset p | .deleteRr p => inferInstanceAs (Decidable (p < h.rrsets.next))
  | .deleteDomain _ => .isTrue trivial

/-- The pointers a zone stores; `some none` is a type stored with a nil pointer. -/
abbrev Slots := Name → RRType → Option (Option Ptr)

inductive SlotChange where
  | keep
  | set (n : Name) (t : RRType) (p : Ptr)
  | unset (n : Name) (t : RRType)
  | clear (n : Name)
  /-- All slots of a name are cleared but SOA and NS, which are stored even when absent before. -/
  | keepApex (n : Name)

def SlotChange.apply (s : Slots) : SlotChange → Slots
  | .keep => s
  | .set n t p => fun m k => if m = n ∧ k = t then some (some p) else s m k
  | .unset n t => fun m k => if m = n ∧ k = t then none else s m k
  | .clear n => fun m k => if m = n then none else s m k
  | .keepApex n => fun m k =>
    if m = n then if k = .soa ∨ k = .ns then some ((s m k).getD none) else none else s m k

theorem SlotChange.apply_eq_some {s : Slots} {c : SlotChange} {n : Name} {t : RRType} {q : Ptr}
    (hslot : c.apply s n t = some (some q)) : s n t = some (some q) ∨ c = .set n t q := by
  cases c with
  | keep => exact .inl hslot
  | set m k p =>
    simp only [apply] at hslot
    split at hslot
    · next heq => exact .inr (by simp_all)
    · exact .inl hslot
  | unset m k =>
    simp only [apply] at hslot
    split at hslot
    · cases hslot
    · exact .inl hslot
  | clear m =>
    simp only [apply] at hslot
    split at hslot
    · cases hslot
    · exact .inl hslot
  | keepApex m =>
    simp only [apply] at hslot
    split at hslot
    · split at hslot
      · left
        cases hold : s n t with
        | none => simp [hold] at hslot
        | some slot => simpa [hold] using hslot
      · cases hslot
    · exact .inl hslot

theorem SlotChange.apply_eq_nil {s : Slots} {c : SlotChange} {n : Name} {t : RRType}
    (hslot : c.apply s n t = some none) :
    s n t = some none ∨ c = .keepApex n ∧ (t = .soa ∨ t = .ns) ∧ s n t = none := by
  cases c with
  | keep => exact .inl hslot
  | keepApex m =>
    simp only [apply] at hslot
    split at hslot
    · next hm =>
      split at hslot
      · next ht =>
        cases hold : s n t with
        | none => exact .inr ⟨by rw [hm], ht, rfl⟩
        | some slot => exact .inl (by simpa [hold] using hslot)
      · cases hslot
    · exact .inl hslot
  | _ =>
    simp only [apply] at hslot
    split at hslot
    · simp at hslot
    · exact .inl hslot

theorem eq_none_or_of_ne_nil {slot : Option (Option Ptr)} (hslot : slot ≠ some none) :
    slot = none ∨ ∃ p, slot = some (some p) := by
  rcases slot with _ | _ | p
  · exact .inl rfl
  · exact absurd rfl hslot
  · exact .inr ⟨p, rfl⟩

variable {T : Type} [DomainTree T NameNode]

namespace MemoryZone

def slots (z : MemoryZone T) : Slots := fun n t => (dataAt z.domains n).bind (AList.lookup t)

def Allocated (h : Objects) (z : MemoryZone T) : Prop :=
  ∀ n t p, z.slots n t = some (some p) → p < h.rrsets.next

def perform (h : Objects) (z : MemoryZone T) : ZoneOp → Except Panic (Outcome T)
  | .add p => z.addRRset h p
  | .deleteRRset p => z.deleteRRset h p
  | .deleteRr p => z.deleteRr h p
  | .deleteDomain name => z.deleteDomain h name

end MemoryZone

structure ZoneState (T : Type) where
  objects : Objects
  zone : MemoryZone T
  results : List (Option ZoneError)

def ZoneState.step (s : ZoneState T) (op : ZoneOp) : Except Panic (ZoneState T) :=
  match s.zone.perform s.objects op with
  | .ok o => .ok ⟨o.objects, o.zone, s.results ++ [o.err]⟩
  | .error e => .error e

theorem ZoneState.step_eq_ok {s s' : ZoneState T} {op : ZoneOp} :
    s.step op = .ok s' ↔ ∃ o, s.zone.perform s.objects op = .ok o ∧
      s' = ⟨o.objects, o.zone, s.results ++ [o.err]⟩ := by
  unfold step
  cases s.zone.perform s.objects op with
  | error e => simp
  | ok o => simp [eq_comm]

theorem ZoneState.step_eq_error {s : ZoneState T} {op : ZoneOp} {e : Panic} :
    s.step op = .error e ↔ s.zone.perform s.objects op = .error e := by
  unfold step
  cases s.zone.perform s.objects op <;> simp

theorem mergeRRset_store {h h' : Objects} {nodeData : NameNode} {p q : Ptr}
    (hmerge : mergeRRset h nodeData p = .ok (.store h' q)) :
    h.Extends h' ∧ (q = p ∨ q = h.rrsets.next ∧ h'.rrsets.next = h.rrsets.next + 1) := by
  cases mergeRRset_effect hmerge with
  | newerSoa | fresh | cname => exact ⟨Objects.Extends.refl _, .inl rfl⟩
  | merged => exact ⟨Objects.extends_allocRRset _ _, .inr ⟨rfl, rfl⟩⟩

theorem MergeEffect.keyed {h h' : Objects} {nodeData : NameNode} {p q : Ptr}
    (hmerge : MergeEffect h nodeData p (.store h' q))
    (hkeyed : ∀ old, nodeData.lookup (h.rrsets.load p).typ = some (some old) →
      (h.value old).name = (h.rrsets.load p).name ∧ (h.value old).typ = (h.rrsets.load p).typ) :
    (h'.value q).name = (h.rrsets.load p).name ∧ (h'.value q).typ = (h.rrsets.load p).typ := by
  cases hmerge with
  | newerSoa | fresh | cname => exact ⟨rfl, rfl⟩
  | @merged old hsoa hcname hslot =>
    rw [← Objects.ptr_allocRRset h, Objects.value_allocRRset]
    exact hkeyed old hslot

namespace MemoryZone

variable {h : Objects} {z : MemoryZone T} {r : RRset Ptr}

omit [DomainTree T NameNode] in
theorem checkRRsetValid_inZone (hvalid : z.checkRRsetValid r = none) : z.origin <:+ r.name := by
  by_contra hout
  unfold checkRRsetValid at hvalid
  rw [if_pos (Name.isSubDomain_eq_false.mpr hout)] at hvalid
  split at hvalid <;> cases hvalid

theorem checkRRsetCouldBeDeleted_soa (hcheck : z.checkRRsetCouldBeDeleted h r = .ok none) :
    ¬(r.name = z.origin ∧ r.typ = .soa) := by
  rintro ⟨hname, htyp⟩
  simp [checkRRsetCouldBeDeleted, hname, htyp] at hcheck

theorem checkRRsetCouldBeDeleted_inZone (hcheck : z.checkRRsetCouldBeDeleted h r = .ok none) :
    z.origin <:+ r.name := by
  by_contra hout
  simp [checkRRsetCouldBeDeleted, Name.isSubDomain_eq_false.mpr hout] at hcheck

theorem checkRRsetCouldBeDeleted_ns {old : Ptr} (hattached : z.originNode = .attached)
    (hslot : z.slots r.name r.typ = some (some old))
    (hcheck : z.checkRRsetCouldBeDeleted h r = .ok none)
    (hleft : rdatasDiff h (h.rrsets.load old).rdatas r.rdatas = []) :
    ¬(r.name = z.origin ∧ r.typ = .ns) := by
  rintro ⟨hname, htyp⟩
  have hin : r.name.isSubDomain z.origin = true := by simp [hname]
  have hsoa : r.typ ≠ .soa := by
    rw [htyp]
    decide
  unfold checkRRsetCouldBeDeleted at hcheck
  rw [if_neg (by simp [hin]), if_pos hname, if_neg hsoa, if_pos htyp] at hcheck
  rw [hname, htyp] at hslot
  simp only [originData, hattached] at hcheck
  cases hdata : dataAt z.domains z.origin with
  | none => simp [hdata] at hcheck
  | some nodeData =>
    have hlookup : nodeData.lookup .ns = some (some old) := by simpa [slots, hdata] using hslot
    simp [hdata, hlookup, hleft] at hcheck

variable [LawfulDomainTree T NameNode]

@[simp] theorem slots_clone (z : MemoryZone T) : z.clone.slots = z.slots := by
  funext n t
  have hid : (NameNode.clone : NameNode → NameNode) = id := rfl
  simp [slots, clone, newWithDomains, dataAt_clone, hid]

@[simp] theorem slots_newMemoryZone (origin n : Name) (t : RRType) :
    (newMemoryZone origin : MemoryZone T).slots n t = none := by
  simp [slots, newMemoryZone, newWithDomains]

theorem slots_storeNode {r : RRset Ptr} {nodeData : NameNode} (q : Ptr)
    (hdata : ∀ t, nodeData.lookup t = z.slots r.name t) :
    (z.storeNode (insert z.domains r.name) r (nodeData.insert r.typ (some q))).slots =
      (SlotChange.set r.name r.typ q).apply z.slots := by
  funext m t
  simp only [slots, SlotChange.apply]
  rw [dataAt_storeNode (isSome_node_insert_self _ _)]
  by_cases hm : m = r.name
  · subst hm
    by_cases ht : t = r.typ
    · subst ht
      simp
    · simpa [ht, lookup_insert_ne ht, slots] using hdata t
  · simp [hm]

variable {o : Outcome T}

theorem addRRset_change {p : Ptr} (hok : addRRset h z p = .ok o) :
    (o.objects = h ∧ o.zone.slots = z.slots) ∨
      ∃ q, o.err = none ∧ h.Extends o.objects ∧
        o.zone.slots =
          (SlotChange.set (h.rrsets.load p).name (h.rrsets.load p).typ q).apply z.slots ∧
        (q = p ∨ q = h.rrsets.next ∧ o.objects.rrsets.next = h.rrsets.next + 1) := by
  cases addRRset_effect hok with
  | invalid hvalid => exact .inl ⟨rfl, rfl⟩
  | created hvalid hdata =>
    refine .inr ⟨p, rfl, Objects.Extends.refl h, ?_, .inl rfl⟩
    apply slots_storeNode
    intro t
    simp [slots, hdata]
  | refused hvalid hdata hcheck => exact .inl ⟨rfl, by funext m t; simp [slots]⟩
  | kept hvalid hdata hcheck hmerge => exact .inl ⟨rfl, by funext m t; simp [slots]⟩
  | @stored nodeData h' q hvalid hdata hcheck hmerge =>
    have hslots : (z.storeNode (insert z.domains (h.rrsets.load p).name) (h.rrsets.load p)
        (nodeData.insert (h.rrsets.load p).typ (some q))).slots =
          (SlotChange.set (h.rrsets.load p).name (h.rrsets.load p).typ q).apply z.slots := by
      apply slots_storeNode
      intro t
      simp [slots, hdata]
    obtain ⟨hext, hq⟩ := mergeRRset_store hmerge
    exact .inr ⟨q, rfl, hext, hslots, hq⟩

theorem slots_dropType {name : Name} {nodeData : NameNode}
    (hdata : dataAt z.domains name = some nodeData) (typ : RRType) :
    (z.dropType name nodeData typ).slots = (SlotChange.unset name typ).apply z.slots := by
  funext m t
  exact dataAt_dropType hdata typ m t

theorem deleteRRset_change {p : Ptr} (hok : deleteRRset h z p = .ok o) :
    o.objects = h ∧ ((∃ err, o.err = some err) ∧ o.zone.slots = z.slots ∨
      o.err = none ∧ (z.slots (h.rrsets.load p).name (h.rrsets.load p).typ).isSome = true ∧
        z.checkRRsetCouldBeDeleted h (h.rrsets.load p) = .ok none ∧
        o.zone.slots =
          (SlotChange.unset (h.rrsets.load p).name (h.rrsets.load p).typ).apply z.slots) := by
  cases deleteRRset_effect hok with
  | refused hcheck | unknown hcheck hslot => exact ⟨rfl, .inl ⟨⟨_, rfl⟩, rfl⟩⟩
  | dropped hcheck hdata hslot =>
    exact ⟨rfl, .inr ⟨rfl, by simp [slots, hdata, hslot], hcheck, slots_dropType hdata _⟩⟩

theorem deleteDomain_change {name : Name} (hok : deleteDomain h z name = .ok o) :
    o.objects = h ∧ ((∃ err, o.err = some err) ∧ o.zone.slots = z.slots ∨
      o.err = none ∧ o.zone.slots =
        (if name = z.origin then SlotChange.keepApex name else .clear name).apply z.slots) := by
  cases deleteDomain_effect hok with
  | outOfZone hout | unknown hin hdata => exact ⟨rfl, .inl ⟨⟨_, rfl⟩, rfl⟩⟩
  | deleted hin hname hdata =>
    refine ⟨rfl, .inr ⟨rfl, ?_⟩⟩
    funext m t
    simp only [slots, if_neg hname, SlotChange.apply, dataAt_deleteNode]
    by_cases hm : m = name <;> simp [hm]
  | @apex oldData hname hdata =>
    refine ⟨rfl, .inr ⟨rfl, ?_⟩⟩
    funext m t
    simp only [slots, if_pos hname, SlotChange.apply, dataAt_setData (isSome_node_of_dataAt hdata)]
    by_cases hm : m = name
    · subst hm
      by_cases hns : t = .ns
      · subst hns
        simp [hdata]
      · by_cases hsoa : t = .soa
        · subst hsoa
          simp only [if_true, Option.bind_some, lookup_insert_ne hns, lookup_insert, hdata, true_or]
        · simp only [if_true, Option.bind_some, lookup_insert_ne hns,
            lookup_insert_ne hsoa, lookup_empty, hsoa, hns, or_self, if_false]
    · simp [hm]

theorem deleteRr_change {p : Ptr} (hok : deleteRr h z p = .ok o) :
    ((∃ err, o.err = some err) ∧ o.objects = h ∧ o.zone.slots = z.slots) ∨
    ∃ old, o.err = none ∧ z.slots (h.rrsets.load p).name (h.rrsets.load p).typ = some (some old) ∧
      z.checkRRsetCouldBeDeleted h (h.rrsets.load p) = .ok none ∧
      (rdatasDiff h (h.rrsets.load old).rdatas (h.rrsets.load p).rdatas = [] ∧ o.objects = h ∧
          o.zone.slots =
            (SlotChange.unset (h.rrsets.load p).name (h.rrsets.load p).typ).apply z.slots ∨
        rdatasDiff h (h.rrsets.load old).rdatas (h.rrsets.load p).rdatas ≠ [] ∧
          o.objects = (h.allocRRset { h.rrsets.load old with
            rdatas := rdatasDiff h (h.rrsets.load old).rdatas (h.rrsets.load p).rdatas }).1 ∧
          o.zone.slots = (SlotChange.set (h.rrsets.load p).name (h.rrsets.load p).typ
            h.rrsets.next).apply z.slots) := by
  cases deleteRr_effect hok with
  | refused hcheck | unknown hcheck hslot => exact .inl ⟨⟨_, rfl⟩, rfl, rfl⟩
  | dropped hcheck hdata hslot hleft =>
    refine .inr ⟨_, rfl, by simp [slots, hdata, hslot], hcheck, .inl ⟨hleft, rfl, ?_⟩⟩
    exact slots_dropType hdata _
  | reduced hcheck hdata hslot hleft =>
    refine .inr ⟨_, rfl, by simp [slots, hdata, hslot], hcheck, .inr ⟨hleft, rfl, ?_⟩⟩
    funext m t
    simp only [slots, SlotChange.apply, dataAt_setData (isSome_node_of_dataAt hdata)]
    by_cases hm : m = (h.rrsets.load p).name
    · subst hm
      by_cases ht : t = (h.rrsets.load p).typ
      · subst ht
        simp
      · simp [ht, hdata, lookup_insert_ne ht]
    · simp [hm]

omit [LawfulDomainTree T NameNode] in
@[simp] theorem origin_deleteNode (z : MemoryZone T) (name : Name) :
    (z.deleteNode name).origin = z.origin := by
  unfold deleteNode
  split <;> rfl

omit [LawfulDomainTree T NameNode] in
@[simp] theorem origin_dropType (z : MemoryZone T) (name : Name) (nodeData : NameNode)
    (typ : RRType) : (z.dropType name nodeData typ).origin = z.origin := by
  simp only [dropType]
  split
  · simp
  · rfl

/-- The change a call makes to the slots, with what the call has checked for it. -/
inductive Makes (h : Objects) (z : MemoryZone T) (op : ZoneOp) (o : Outcome T) : SlotChange → Prop
  | keep : Makes h z op o .keep
  | set {n : Name} {t : RRType} {q : Ptr} (hin : z.origin <:+ n)
    (hptr : op = .add q ∨ q < o.objects.rrsets.next)
    (hold : (∀ p, op ≠ .add p) → (z.slots n t).isSome = true)
    (hkeyed : (∀ p, z.slots n t = some (some p) → (h.value p).name = n ∧ (h.value p).typ = t) →
      (o.objects.value q).name = n ∧ (o.objects.value q).typ = t) : Makes h z op o (.set n t q)
  | unset {n : Name} {t : RRType} (hsoa : ¬(n = z.origin ∧ t = .soa))
    (hns : (∀ p, op ≠ .deleteRRset p) → z.originNode = .attached → ¬(n = z.origin ∧ t = .ns)) :
    Makes h z op o (.unset n t)
  | clear {n : Name} (hn : n ≠ z.origin) : Makes h z op o (.clear n)
  | keepApex (hop : op = .deleteDomain z.origin)
    (hdata : (dataAt z.domains z.origin).isSome = true) : Makes h z op o (.keepApex z.origin)

variable {op : ZoneOp}

variable (hok : z.perform h op = .ok o)

include hok

theorem perform_origin : o.zone.origin = z.origin := by
  cases op with
  | add p => cases addRRset_effect hok <;> rfl
  | deleteRRset p => cases deleteRRset_effect hok <;> simp
  | deleteRr p => cases deleteRr_effect hok <;> simp
  | deleteDomain name => cases deleteDomain_effect hok <;> simp

theorem perform_extends : h.Extends o.objects := by
  cases op with
  | add p =>
    rcases addRRset_change hok with ⟨hobjects, _⟩ | ⟨_, _, hext, _⟩
    · exact hobjects ▸ Objects.Extends.refl h
    · exact hext
  | deleteRRset p => exact (deleteRRset_change hok).1 ▸ Objects.Extends.refl h
  | deleteDomain name => exact (deleteDomain_change hok).1 ▸ Objects.Extends.refl h
  | deleteRr p =>
    cases deleteRr_effect hok with
    | reduced => exact Objects.extends_allocRRset _ _
    | _ => exact Objects.Extends.refl h

theorem perform_of_err {err : ZoneError} (herr : o.err = some err) :
    o.objects = h ∧ o.zone.slots = z.slots := by
  cases op with
  | add p =>
    rcases addRRset_change hok with hsame | ⟨_, hnone, _⟩
    · exact hsame
    · simp [hnone] at herr
  | deleteRr p =>
    rcases deleteRr_change hok with ⟨_, hsame⟩ | ⟨_, hnone, _⟩
    · exact hsame
    · simp [hnone] at herr
  | deleteRRset p =>
    obtain ⟨hobjects, ⟨_, hslots⟩ | ⟨hnone, _⟩⟩ := deleteRRset_change hok
    · exact ⟨hobjects, hslots⟩
    · simp [hnone] at herr
  | deleteDomain name =>
    obtain ⟨hobjects, ⟨_, hslots⟩ | ⟨hnone, _⟩⟩ := deleteDomain_change hok
    · exact ⟨hobjects, hslots⟩
    · simp [hnone] at herr

/-- Every call makes one change to the slots. -/
theorem perform_makes : ∃ c, Makes h z op o c ∧ o.zone.slots = c.apply z.slots := by
  cases op with
  | add p =>
    have hadd (hop : ∀ q, ZoneOp.add p ≠ .add q) {n : Name} {t : RRType} :
        (z.slots n t).isSome = true := absurd rfl (hop p)
    cases addRRset_effect hok with
    | invalid => exact ⟨.keep, .keep, rfl⟩
    | refused | kept => exact ⟨.keep, .keep, by funext m t; simp [slots, SlotChange.apply]⟩
    | created hvalid hdata =>
      exact ⟨_, .set (checkRRsetValid_inZone hvalid) (.inl rfl) (hadd ·) fun _ => ⟨rfl, rfl⟩,
        slots_storeNode p fun t => by simp [slots, hdata]⟩
    | stored hvalid hdata hcheck hmerge =>
      refine ⟨_, .set (checkRRsetValid_inZone hvalid) ?_ (hadd ·) fun hkeyed => ?_,
        slots_storeNode _ fun t => by simp [slots, hdata]⟩
      · rcases (mergeRRset_store hmerge).2 with rfl | ⟨rfl, hnext⟩
        · exact .inl rfl
        · exact .inr (hnext ▸ Nat.lt_succ_self _)
      · exact (mergeRRset_effect hmerge).keyed fun old hslot =>
          hkeyed old (by simp [slots, hdata, hslot])
  | deleteRRset p =>
    cases deleteRRset_effect hok with
    | refused | unknown => exact ⟨.keep, .keep, rfl⟩
    | dropped hcheck hdata =>
      exact ⟨_, .unset (checkRRsetCouldBeDeleted_soa hcheck) fun hop => absurd rfl (hop p),
        slots_dropType hdata _⟩
  | deleteRr p =>
    rcases deleteRr_change hok with ⟨_, _, hslots⟩ | ⟨old, _, hold, hcheck, hcase⟩
    · exact ⟨.keep, .keep, hslots⟩
    · rcases hcase with ⟨hleft, _, hslots⟩ | ⟨_, hobjects, hslots⟩
      · exact ⟨_, .unset (checkRRsetCouldBeDeleted_soa hcheck) fun _ hattached =>
          checkRRsetCouldBeDeleted_ns hattached hold hcheck hleft, hslots⟩
      · refine ⟨_, .set (checkRRsetCouldBeDeleted_inZone hcheck) (.inr ?_) (by simp [hold])
          fun hkeyed => ?_, hslots⟩
        · exact hobjects ▸ Nat.lt_succ_self _
        · rw [hobjects, ← Objects.ptr_allocRRset h, Objects.value_allocRRset]
          exact hkeyed old hold
  | deleteDomain name =>
    obtain ⟨_, ⟨_, hslots⟩ | ⟨herr, hslots⟩⟩ := deleteDomain_change hok
    · exact ⟨.keep, .keep, hslots⟩
    · split at hslots
      · next hname =>
        subst hname
        refine ⟨_, .keepApex rfl ?_, hslots⟩
        cases deleteDomain_effect hok with
        | outOfZone | unknown => cases herr
        | apex _ hdata => simp [hdata]
        | deleted _ hne => exact absurd rfl hne
      · next hname => exact ⟨_, .clear hname, hslots⟩

end MemoryZone

end Vanguard.Zone
