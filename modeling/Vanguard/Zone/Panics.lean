import Vanguard.Zone.Operations

namespace Vanguard.Zone

open Library

section

open Option

def StartsWithSoa (h : Objects) (p : Ptr) : Prop := (h.value p).rdatas.head?.any Rdata.isSoa = true

instance (h : Objects) (p : Ptr) : Decidable (StartsWithSoa h p) :=
  inferInstanceAs (Decidable (_ = _))

theorem firstSerial_returns_iff {h : Objects} {p : Ptr} :
    (∃ serial, firstSerial h (h.rrsets.load p) = .ok serial) ↔ StartsWithSoa h p := by
  have hvalue : (h.value p).rdatas = (h.rrsets.load p).rdatas.map h.rdatas.load := rfl
  unfold StartsWithSoa firstSerial
  rw [hvalue]
  cases hrdatas : (h.rrsets.load p).rdatas with
  | nil => simp
  | cons q rest => cases hload : h.rdatas.load q <;> simp [hload, Rdata.isSoa]

/-- The serials of both SOAs, or the RRset to merge with. -/
structure Mergeable (h : Objects) (nodeData : NameNode) (p : Ptr) : Prop where
  soa : (h.rrsets.load p).typ = .soa → ∀ old ∈ Option.join (nodeData.lookup .soa),
    StartsWithSoa h old ∧ StartsWithSoa h p
  merged : (h.rrsets.load p).typ ≠ .soa → (h.rrsets.load p).typ ≠ .cname →
    nodeData.lookup (h.rrsets.load p).typ ≠ some none

instance (h : Objects) (nodeData : NameNode) (p : Ptr) : Decidable (Mergeable h nodeData p) :=
  decidable_of_iff
    (((h.rrsets.load p).typ = .soa → ∀ old ∈ Option.join (nodeData.lookup RRType.soa),
      StartsWithSoa h old ∧ StartsWithSoa h p) ∧
    ((h.rrsets.load p).typ ≠ .soa → (h.rrsets.load p).typ ≠ .cname →
      nodeData.lookup (h.rrsets.load p).typ ≠ some none))
    ⟨fun hboth => ⟨hboth.1, hboth.2⟩, fun hm => ⟨hm.soa, hm.merged⟩⟩

theorem mergeRRset_returns_iff {h : Objects} {nodeData : NameNode} {p : Ptr} :
    (∃ d, mergeRRset h nodeData p = .ok d) ↔ Mergeable h nodeData p := by
  unfold mergeRRset
  by_cases hsoa : (h.rrsets.load p).typ = .soa
  · simp only [hsoa, if_true]
    have hmerge : Mergeable h nodeData p ↔ ∀ old ∈ Option.join (nodeData.lookup .soa),
        StartsWithSoa h old ∧ StartsWithSoa h p :=
      ⟨fun hm => hm.soa hsoa, fun hread => ⟨fun _ => hread, fun hne => absurd hsoa hne⟩⟩
    rw [hmerge]
    rcases nodeData.lookup RRType.soa with _ | _ | old
    · simp
    · simp
    · simp only [join_some, mem_def, Option.some.injEq, forall_eq', ← firstSerial_returns_iff]
      cases firstSerial h (h.rrsets.load old) with
      | error e => simp
      | ok oldSerial =>
        cases firstSerial h (h.rrsets.load p) with
        | error e => simp
        | ok newSerial => by_cases hle : newSerial ≤ oldSerial <;> simp [hle]
  · simp only [hsoa, if_false]
    have hmerge : Mergeable h nodeData p ↔ ((h.rrsets.load p).typ ≠ .cname →
        nodeData.lookup (h.rrsets.load p).typ ≠ some none) :=
      ⟨fun hm => hm.merged hsoa, fun hread => ⟨fun hs => absurd hs hsoa, fun _ => hread⟩⟩
    rw [hmerge]
    by_cases hcname : (h.rrsets.load p).typ = .cname
    · cases nodeData.lookup (h.rrsets.load p).typ <;> simp [hcname]
    · rcases nodeData.lookup (h.rrsets.load p).typ with _ | _ | old
      · simp
      · simp [hcname]
      · simp only [hcname, if_false]
        split <;> simp

namespace MemoryZone

variable {T : Type} [DomainTree T NameNode]

/-- `addRRset` gets past its two checks. -/
def Admits (z : MemoryZone T) (rrset : RRset Ptr) : Prop :=
  z.checkRRsetValid rrset = none ∧
  ∀ nodeData ∈ dataAt z.domains rrset.name, checkRRsetCouldBeAdded nodeData rrset = none

instance (z : MemoryZone T) (rrset : RRset Ptr) : Decidable (z.Admits rrset) :=
  inferInstanceAs (Decidable (_ ∧ _))

def NsReadable (z : MemoryZone T) (rrset : RRset Ptr) : Prop :=
  rrset.name = z.origin → rrset.typ = .ns →
    (z.originData.bind (AList.lookup .ns)).join.isSome = true

instance (z : MemoryZone T) (rrset : RRset Ptr) : Decidable (z.NsReadable rrset) :=
  inferInstanceAs (Decidable (_ → _ → _))

def Readable (h : Objects) (z : MemoryZone T) : ZoneOp → Prop
  | .add p => z.Admits (h.rrsets.load p) →
    ∀ nodeData ∈ dataAt z.domains (h.rrsets.load p).name, Mergeable h nodeData p
  | .deleteRRset p => z.NsReadable (h.rrsets.load p)
  | .deleteRr p => z.NsReadable (h.rrsets.load p) ∧
    (z.checkRRsetCouldBeDeleted h (h.rrsets.load p) = .ok none →
      z.slots (h.rrsets.load p).name (h.rrsets.load p).typ ≠ some none)
  | .deleteDomain _ => True

instance (h : Objects) (z : MemoryZone T) (op : ZoneOp) : Decidable (z.Readable h op) :=
  match op with
  | .add _ => inferInstanceAs (Decidable (_ → _))
  | .deleteRRset _ => inferInstanceAs (Decidable (NsReadable _ _))
  | .deleteRr _ => inferInstanceAs (Decidable (_ ∧ (_ → _)))
  | .deleteDomain _ => .isTrue trivial

def SoaReadable (h : Objects) (z : MemoryZone T) : Prop :=
  ∃ soa ∈ (z.originData.bind (AList.lookup .soa)).join,
    (h.value soa).rdatas.length = 1 ∧ StartsWithSoa h soa

instance (h : Objects) (z : MemoryZone T) : Decidable (z.SoaReadable h) :=
  inferInstanceAs (Decidable (∃ _ ∈ _, _))

variable {h : Objects} {z : MemoryZone T}

theorem increaseSerialNumber_returns_iff :
    (∃ h', z.increaseSerialNumber h = .ok h') ↔ z.SoaReadable h := by
  unfold increaseSerialNumber SoaReadable StartsWithSoa
  cases z.originData with
  | none => simp
  | some nodeData =>
    simp only [bind_some]
    rcases nodeData.lookup RRType.soa with _ | _ | soa
    · simp
    · simp
    · have hvalue : (h.value soa).rdatas = (h.rrsets.load soa).rdatas.map h.rdatas.load := rfl
      simp only [getD_some, join_some, mem_def, Option.some.injEq,
        exists_eq_left', hvalue, List.length_map]
      rcases (h.rrsets.load soa).rdatas with _ | ⟨q, _ | ⟨q', rest⟩⟩
      · simp
      · cases hload : h.rdatas.load q <;> simp [hload, Rdata.isSoa]
      · simp

theorem checkRRsetCouldBeDeleted_returns_iff {r : RRset Ptr} :
    (∃ err, z.checkRRsetCouldBeDeleted h r = .ok err) ↔ z.NsReadable r := by
  unfold checkRRsetCouldBeDeleted NsReadable
  by_cases hname : r.name = z.origin
  · by_cases hns : r.typ = .ns
    · have hin : r.name.isSubDomain z.origin = true := by
        rw [hname]
        exact Name.isSubDomain_eq_true.mpr (List.suffix_refl _)
      have hsoa : r.typ ≠ .soa := by
        rw [hns]
        decide
      rw [if_neg (by simp [hin]), if_pos hname, if_neg hsoa, if_pos hns, forall_prop_of_true hname,
        forall_prop_of_true hns]
      cases z.originData with
      | none => simp
      | some nodeData =>
        simp only [bind_some]
        rcases nodeData.lookup RRType.ns with _ | _ | ns
        · simp
        · simp
        · simp only [join_some, isSome_some, iff_true]
          split_ifs <;> exact ⟨_, rfl⟩
    · simp only [hns, false_imp_iff, imp_true_iff, iff_true, if_false]
      split_ifs <;> exact ⟨_, rfl⟩
  · simp only [hname, false_imp_iff, iff_true, if_false]
    split_ifs <;> exact ⟨_, rfl⟩

variable [LawfulDomainTree T NameNode]

theorem addRRset_returns_iff {p : Ptr} :
    (∃ o, z.addRRset h p = .ok o) ↔ z.Readable h (.add p) := by
  simp only [Readable, addRRset, dataAt_insert, Admits]
  cases hvalid : z.checkRRsetValid (h.rrsets.load p) with
  | some err => simp
  | none =>
    cases hdata : dataAt z.domains (h.rrsets.load p).name with
    | none => simp
    | some nodeData =>
      cases hcheck : checkRRsetCouldBeAdded nodeData (h.rrsets.load p) with
      | some err => simp [hcheck]
      | none =>
        simp only [mem_def, Option.some.injEq, forall_eq', hcheck, true_and, true_imp_iff,
          ← mergeRRset_returns_iff]
        rcases mergeRRset h nodeData p with _ | _ | _
        all_goals simp

theorem deleteDomain_returns (h : Objects) (z : MemoryZone T) (name : Name) :
    ∃ o, z.deleteDomain h name = .ok o := by
  simp only [deleteDomain, getNode_eq]
  split
  · exact ⟨_, rfl⟩
  · split
    · exact ⟨_, rfl⟩
    · split <;> exact ⟨_, rfl⟩

theorem perform_returns_iff {op : ZoneOp} :
    (∃ o, z.perform h op = .ok o) ↔ z.Readable h op := by
  cases op with
  | add p => exact addRRset_returns_iff
  | deleteDomain name => exact iff_of_true (deleteDomain_returns h z name) trivial
  | deleteRRset p =>
    simp only [perform, Readable, deleteRRset, getNode_eq,
      ← checkRRsetCouldBeDeleted_returns_iff (h := h)]
    cases z.checkRRsetCouldBeDeleted h (h.rrsets.load p) with
    | error e => simp
    | ok err =>
      cases err with
      | some err => simp
      | none =>
        refine iff_of_true ?_ ⟨none, rfl⟩
        simp only
        split
        · exact ⟨_, rfl⟩
        · split <;> exact ⟨_, rfl⟩
  | deleteRr p =>
    simp only [perform, Readable, deleteRr, getNode_eq,
      ← checkRRsetCouldBeDeleted_returns_iff (h := h)]
    cases z.checkRRsetCouldBeDeleted h (h.rrsets.load p) with
    | error e => simp
    | ok err =>
      cases err with
      | some err => simp
      | none =>
        simp only [Except.ok.injEq, exists_eq', true_and, true_imp_iff, slots]
        cases dataAt z.domains (h.rrsets.load p).name with
        | none => simp
        | some nodeData =>
          simp only [bind_some]
          rcases nodeData.lookup (h.rrsets.load p).typ with _ | _ | old
          · simp
          · simp
          · simp only
            split <;> simp

end MemoryZone

end

def Repeats (h : Objects) (nodeData : NameNode) (p : Ptr) : Prop :=
  (h.rrsets.load p).typ ≠ .soa ∧ (h.rrsets.load p).typ ≠ .cname ∧
  ∃ old ∈ Option.join (nodeData.lookup (h.rrsets.load p).typ),
    (addRdatas h (h.rrsets.load old).rdatas (h.rrsets.load p).rdatas).2 = true ∧
    (h.rrsets.load p).ttl = (h.rrsets.load old).ttl

instance (h : Objects) (nodeData : NameNode) (p : Ptr) : Decidable (Repeats h nodeData p) :=
  inferInstanceAs (Decidable (_ ∧ _ ∧ ∃ _ ∈ _, _))

theorem mergeRRset_keep_iff {h : Objects} {nodeData : NameNode} {p : Ptr} {d : Merge}
    (hmerge : mergeRRset h nodeData p = .ok d) :
    (∃ err, d = .keep (some err)) ↔ Repeats h nodeData p := by
  unfold Repeats
  cases mergeRRset_effect hmerge with
  | olderSoa htyp | newerSoa htyp => simp [htyp]
  | fresh hslot => simp [hslot]
  | cname htyp => simp [htyp]
  | duplicate hsoa hcname hslot hdup httl => simp [hsoa, hcname, hslot, hdup, httl]
  | merged hsoa hcname hslot hchange =>
    simp [hslot, hchange]

def Passed (err : Option ZoneError) : Prop := err = none ∨ err = some .noEffectiveUpdate

namespace MemoryZone

variable {T : Type} [DomainTree T NameNode]

def Takes (h : Objects) (z : MemoryZone T) : ZoneOp → Prop
  | .add p => z.checkRRsetValid (h.rrsets.load p) = some .noEffectiveUpdate ∨
    z.Admits (h.rrsets.load p) ∧
      ∀ nodeData ∈ dataAt z.domains (h.rrsets.load p).name, ¬Repeats h nodeData p
  | .deleteRRset p | .deleteRr p =>
    z.checkRRsetCouldBeDeleted h (h.rrsets.load p) = .ok none ∧
      (z.slots (h.rrsets.load p).name (h.rrsets.load p).typ).isSome = true
  | .deleteDomain name => name.isSubDomain z.origin = true ∧ (dataAt z.domains name).isSome = true

instance (h : Objects) (z : MemoryZone T) (op : ZoneOp) : Decidable (z.Takes h op) :=
  match op with
  | .add _ => inferInstanceAs (Decidable (_ ∨ _ ∧ ∀ _ ∈ _, _))
  | .deleteRRset _ | .deleteRr _ => inferInstanceAs (Decidable (_ ∧ _))
  | .deleteDomain _ => inferInstanceAs (Decidable (_ ∧ _))

variable {h : Objects} {z : MemoryZone T}

omit [DomainTree T NameNode] in
theorem checkRRsetValid_noEffectiveUpdate {r : RRset Ptr}
    (hvalid : z.checkRRsetValid r = some .noEffectiveUpdate) : r.typ = .ns := by
  unfold checkRRsetValid at hvalid
  split at hvalid
  · next hns => exact hns.1
  · split at hvalid <;> simp at hvalid

variable [LawfulDomainTree T NameNode] {op : ZoneOp} {o : Outcome T}

variable (hok : z.perform h op = .ok o)

include hok

theorem perform_noEffectiveUpdate (herr : o.err = some .noEffectiveUpdate) :
    ∃ p, op = .add p ∧ z.checkRRsetValid (h.rrsets.load p) = some .noEffectiveUpdate := by
  have hdelete : ∀ {r : RRset Ptr},
      z.checkRRsetCouldBeDeleted h r ≠ .ok (some .noEffectiveUpdate) := by
    intro r hcheck
    unfold checkRRsetCouldBeDeleted at hcheck
    repeat' split at hcheck
    all_goals simp at hcheck
  cases op with
  | add p =>
    cases addRRset_effect hok with
    | invalid hvalid => exact ⟨p, rfl, Option.some.inj herr ▸ hvalid⟩
    | created => cases herr
    | refused _ _ hcheck =>
      rw [Option.some.inj herr] at hcheck
      unfold checkRRsetCouldBeAdded at hcheck
      repeat' split at hcheck
      all_goals simp at hcheck
    | kept _ _ _ hmerge =>
      cases mergeRRset_effect hmerge <;> simp at herr
    | stored => cases herr
  | deleteRRset p =>
    cases deleteRRset_effect hok with
    | refused hcheck => exact absurd (Option.some.inj herr ▸ hcheck) hdelete
    | unknown => simp at herr
    | dropped => cases herr
  | deleteRr p =>
    cases deleteRr_effect hok with
    | refused hcheck => exact absurd (Option.some.inj herr ▸ hcheck) hdelete
    | unknown => simp at herr
    | dropped | reduced => cases herr
  | deleteDomain name => cases deleteDomain_effect hok <;> simp at herr

theorem passed_iff_of_effective
    (hop : ∀ p, op = .add p → z.checkRRsetValid (h.rrsets.load p) ≠ some .noEffectiveUpdate) :
    Passed o.err ↔ o.err = none := by
  refine ⟨?_, .inl⟩
  rintro (hnone | hineffective)
  · exact hnone
  · obtain ⟨p, hadd, hvalid⟩ := perform_noEffectiveUpdate hok hineffective
    exact absurd hvalid (hop p hadd)

theorem perform_passed_iff : Passed o.err ↔ z.Takes h op := by
  have hnil := passed_iff_of_effective hok
  cases op with
  | add p =>
    unfold Takes Admits
    cases addRRset_effect hok with
    | invalid hvalid => simp [Passed, hvalid]
    | created hvalid hdata => simp [Passed, hvalid, hdata]
    | refused hvalid hdata hcheck =>
      rw [hnil fun q hq => by simp [← ZoneOp.add.inj hq, hvalid]]
      simp [hvalid, hdata, hcheck]
    | @kept nodeData err hvalid hdata hcheck hmerge =>
      rw [hnil fun q hq => by simp [← ZoneOp.add.inj hq, hvalid]]
      have hrepeats := mergeRRset_keep_iff hmerge
      cases err with
      | none | some err => simpa [hvalid, hdata, hcheck] using hrepeats
    | stored hvalid hdata hcheck hmerge =>
      have hrepeats := mergeRRset_keep_iff hmerge
      simpa [Passed, hvalid, hdata, hcheck] using hrepeats
  | deleteRRset p =>
    rw [hnil fun q hq => by cases hq]
    unfold Takes slots
    cases deleteRRset_effect hok with
    | refused hcheck => simp [hcheck]
    | unknown hcheck hslot => simp [hslot]
    | dropped hcheck hdata hslot => simp [hcheck, hdata, hslot]
  | deleteRr p =>
    rw [hnil fun q hq => by cases hq]
    unfold Takes slots
    cases deleteRr_effect hok with
    | refused hcheck => simp [hcheck]
    | unknown hcheck hslot => simp [hslot]
    | dropped hcheck hdata hslot hleft => simp [hcheck, hdata, hslot]
    | reduced hcheck hdata hslot hleft => simp [hcheck, hdata, hslot]
  | deleteDomain name =>
    rw [hnil fun q hq => by cases hq]
    unfold Takes
    cases deleteDomain_effect hok with
    | outOfZone hout => simp [hout]
    | unknown hin hdata => simp [hdata]
    | apex hname hdata => simp [hname, hname ▸ hdata]
    | deleted hin hname hdata => simp [hin, hdata]

end MemoryZone

end Vanguard.Zone
