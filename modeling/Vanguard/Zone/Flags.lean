import Vanguard.Zone.Preservation

namespace Vanguard.Zone

open Library Option

section tree

variable {T D : Type} [DomainTree T D] [LawfulDomainTree T D] {t : T} {n m : Name}

theorem callbackAt_remove_of_ne (hm : m ≠ n)
    (hempty : dataAt t m = none → callbackAt t m = false) :
    callbackAt (remove t n) m = callbackAt t m := by
  cases hnode : node t m with
  | none => simp [callbackAt, hnode, node_remove_of_none t n m hnode]
  | some nd =>
    rcases node_remove_of_ne t n m nd hm hnode with hkept | ⟨hdata, hgone, _⟩
    · simp [callbackAt, hnode, hkept]
    · rw [hempty (by simp [dataAt, hnode, hdata])]
      simp [callbackAt, hgone]

theorem callbackAt_remove_self (t : T) (n : Name) :
    callbackAt (remove t n) n = true ↔ callbackAt t n = true ∧ HasNodeBelow t n := by
  by_cases hbelow : HasNodeBelow t n
  · cases hnode : node t n with
    | none => simp [callbackAt, hnode, node_remove_of_none t n n hnode]
    | some nd => simp [callbackAt, hnode, node_remove_inner t n nd hnode hbelow, hbelow]
  · simp [callbackAt, node_remove_leaf t n hbelow, hbelow]

theorem markAt_remove (hmark : markAt t m = true ↔ (dataAt t m.wildcard).isSome = true)
    (hne : m.wildcard ≠ n) :
    markAt (remove t n) m = true ↔ (dataAt t m.wildcard).isSome = true := by
  refine ⟨fun h => hmark.mp (markAt_of_remove h), fun hdata => ?_⟩
  have hmarked := hmark.mpr hdata
  obtain ⟨d, hd⟩ := isSome_iff_exists.mp hdata
  have hkept : dataAt (remove t n) m.wildcard = some d := by rw [dataAt_remove, if_neg hne, hd]
  have hbelow : HasNodeBelow (remove t n) m :=
    ⟨m.wildcard, Name.wildcard_ne m, List.suffix_cons _ _, isSome_node_of_dataAt hkept⟩
  rw [(flags_remove (isSome_node_remove (isSome_node_of_markAt hmarked) hbelow)).2]
  exact hmarked

theorem hasNodeBelow_setData (t : T) (n : Name) (d : D) (m : Name) :
    HasNodeBelow (setData t n d) m ↔ HasNodeBelow t m := by
  simp [HasNodeBelow, setData]

end tree

variable {T : Type} [DomainTree T NameNode]

namespace MemoryZone

variable (z : MemoryZone T)

/-- Exactly the nodes away from the apex that store type NS carry the callback flag. -/
def CutsInStep : Prop :=
  ∀ n, callbackAt z.domains n = true ↔ n ≠ z.origin ∧ (z.slots n .ns).isSome = true

def MarksInStep : Prop :=
  ∀ n, markAt z.domains n = true ↔ (dataAt z.domains n.wildcard).isSome = true

def NilAtApexOnly : Prop := ∀ n t, z.slots n t = some none → n = z.origin

def FlagsInStep : Prop :=
  (∀ n, callbackAt z.domains n = true →
    n ≠ z.origin ∧ ∃ p, z.slots n .ns = some (some p)) ∧ z.MarksInStep

/-- The node of a name stays when its NS RRset goes: it stores another type or has nodes below. -/
def Survives (n : Name) : Prop :=
  HasNodeBelow z.domains n ∨ ∃ t, t ≠ .ns ∧ (z.slots n t).isSome = true

end MemoryZone

def ZoneOp.Strands (h : Objects) (z : MemoryZone T) : ZoneOp → Prop
  | .add _ => False
  | .deleteRRset p =>
    z.origin <:+ (h.rrsets.load p).name ∧ (h.rrsets.load p).name ≠ z.origin ∧
      (h.rrsets.load p).typ = .ns ∧ (z.slots (h.rrsets.load p).name .ns).isSome = true ∧
      z.Survives (h.rrsets.load p).name
  | .deleteRr p =>
    z.origin <:+ (h.rrsets.load p).name ∧ (h.rrsets.load p).name ≠ z.origin ∧
      (h.rrsets.load p).typ = .ns ∧
      (∃ old, z.slots (h.rrsets.load p).name .ns = some (some old) ∧
        rdatasDiff h (h.rrsets.load old).rdatas (h.rrsets.load p).rdatas = []) ∧
      z.Survives (h.rrsets.load p).name
  | .deleteDomain n =>
    z.origin <:+ n ∧ n ≠ z.origin ∧ (z.slots n .ns).isSome = true ∧ HasNodeBelow z.domains n

namespace MemoryZone

variable [LawfulDomainTree T NameNode] {h : Objects} {z : MemoryZone T} {o : Outcome T}

section marks

variable (hz : z.MarksInStep)

include hz

theorem MarksInStep.storeNode (r : RRset Ptr) (nodeData : NameNode) :
    (z.storeNode (insert z.domains r.name) r nodeData).MarksInStep := by
  intro n
  rw [markAt_storeNode, dataAt_storeNode (isSome_node_insert_self _ _), markAt_insert,
    dataAt_insert]
  simp only [← Name.wildcard_eq_iff]
  by_cases hn : n.wildcard = r.name
  · simp [hn]
  · rw [if_neg hn, if_neg hn]
    exact hz n

theorem MarksInStep.deleteNode (name : Name) : (z.deleteNode name).MarksInStep := by
  intro n
  rw [markAt_deleteNode, dataAt_deleteNode]
  simp only [← Name.wildcard_eq_iff]
  by_cases hn : n.wildcard = name
  · simp [hn]
  · rw [if_neg hn, if_neg hn]
    exact markAt_remove (hz n) hn

theorem MarksInStep.setData {name : Name} {old : NameNode}
    (hdata : dataAt z.domains name = some old) (new : NameNode) :
    { z with domains := setData z.domains name new }.MarksInStep := by
  intro n
  simp only [markAt_setData, dataAt_setData (isSome_node_of_dataAt hdata)]
  by_cases hn : n.wildcard = name
  · rw [if_pos hn]
    simpa [hn, hdata] using hz n
  · rw [if_neg hn]
    exact hz n

theorem MarksInStep.dropType {name : Name} {nodeData : NameNode}
    (hdata : dataAt z.domains name = some nodeData) (typ : RRType) :
    (z.dropType name nodeData typ).MarksInStep := by
  simp only [MemoryZone.dropType]
  split
  · exact (hz.setData hdata _).deleteNode name
  · exact hz.setData hdata _

theorem MarksInStep.perform {op : ZoneOp} (hok : z.perform h op = .ok o) : o.zone.MarksInStep := by
  have hinsert (name : Name) : { z with domains := insert z.domains name }.MarksInStep := by
    intro n
    simpa using hz n
  cases op with
  | add p =>
    cases addRRset_effect hok with
    | invalid => exact hz
    | refused | kept => exact hinsert _
    | created | stored => exact hz.storeNode _ _
  | deleteRRset p =>
    cases deleteRRset_effect hok with
    | refused | unknown => exact hz
    | dropped hcheck hdata => exact hz.dropType hdata _
  | deleteDomain name =>
    cases deleteDomain_effect hok with
    | outOfZone | unknown => exact hz
    | apex hname hdata => exact hz.setData hdata _
    | deleted => exact hz.deleteNode name
  | deleteRr p =>
    cases deleteRr_effect hok with
    | refused | unknown => exact hz
    | dropped hcheck hdata => exact hz.dropType hdata _
    | reduced hcheck hdata => exact hz.setData hdata _

end marks

section cuts

omit [LawfulDomainTree T NameNode] in
theorem CutsInStep.empty (hz : z.CutsInStep) {n : Name} (hdata : dataAt z.domains n = none) :
    callbackAt z.domains n = false := by
  rw [← Bool.not_eq_true, hz n]
  simp [slots, hdata]

variable {nodeData : NameNode}

theorem CutsInStep.storeNode (hz : z.CutsInStep) {r : RRset Ptr} {q : Ptr}
    (hdata : ∀ t, nodeData.lookup t = z.slots r.name t) :
    (z.storeNode (insert z.domains r.name) r (nodeData.insert r.typ (some q))).CutsInStep := by
  intro n
  rw [callbackAt_storeNode (isSome_node_insert_self _ _), callbackAt_insert,
    slots_storeNode q hdata]
  simp only [SlotChange.apply, MemoryZone.storeNode]
  by_cases hn : n = r.name ∧ RRType.ns = r.typ
  · by_cases horigin : r.name = z.origin
    · have hflag : callbackAt z.domains z.origin = false := by simpa using hz z.origin
      simp [hn.1, ← hn.2, horigin, hflag]
    · simp [hn.1, ← hn.2, horigin]
  · have hflag : ¬(n = r.name ∧ r.typ = .ns ∧ r.name ≠ z.origin) := fun heq =>
      hn ⟨heq.1, heq.2.1.symm⟩
    rw [if_neg hflag, if_neg hn]
    exact hz n

variable {name : Name}

theorem CutsInStep.deleteNode (hz : z.CutsInStep)
    (hsafe : callbackAt z.domains name = true → ¬HasNodeBelow z.domains name) :
    (z.deleteNode name).CutsInStep := by
  intro n
  simp only [callbackAt_deleteNode, origin_deleteNode, slots, dataAt_deleteNode]
  by_cases hn : n = name
  · subst hn
    have hflag : ¬(callbackAt z.domains n = true ∧ HasNodeBelow z.domains n) := fun hboth =>
      hsafe hboth.1 hboth.2
    simpa [callbackAt_remove_self] using hflag
  · rw [callbackAt_remove_of_ne hn hz.empty, if_neg hn]
    exact hz n

theorem erase_length_ne_zero {typ : RRType} : (nodeData.erase typ).entries.length ≠ 0 ↔
      ∃ t, t ≠ typ ∧ (nodeData.lookup t).isSome = true := by
  constructor
  · intro hlen
    obtain ⟨⟨t, slot⟩, hmem⟩ := List.exists_mem_of_length_pos (Nat.pos_of_ne_zero hlen)
    have hlookup : (nodeData.erase typ).lookup t = some slot := AList.mem_lookup_iff.mpr hmem
    have hne : t ≠ typ := by
      rintro rfl
      rw [AList.lookup_erase] at hlookup
      cases hlookup
    rw [AList.lookup_erase_ne hne] at hlookup
    exact ⟨t, hne, by simp [hlookup]⟩
  · rintro ⟨t, hne, hsome⟩ hlen
    have hnone := lookup_of_length_eq_zero hlen t
    rw [AList.lookup_erase_ne hne] at hnone
    simp [hnone] at hsome

theorem callbackAt_dropType_self (hdata : dataAt z.domains name = some nodeData) (typ : RRType) :
    callbackAt (z.dropType name nodeData typ).domains name = true ↔
      callbackAt z.domains name = true ∧
        (HasNodeBelow z.domains name ∨ ∃ t, t ≠ typ ∧ (z.slots name t).isSome = true) := by
  have hleft : (nodeData.erase typ).entries.length ≠ 0 ↔
      ∃ t, t ≠ typ ∧ (z.slots name t).isSome = true := by
    rw [erase_length_ne_zero]
    simp [slots, hdata]
  simp only [dropType]
  split
  · next hlen =>
    have hnone : ¬∃ t, t ≠ typ ∧ (z.slots name t).isSome = true := fun hother =>
      hleft.mpr hother hlen
    rw [callbackAt_deleteNode, callbackAt_remove_self]
    simp [hasNodeBelow_setData, hnone]
  · next hlen => simp [hleft.mp hlen]

variable (hz : z.CutsInStep)

include hz

theorem callbackAt_dropType_of_ne {n name : Name} (hdata : dataAt z.domains name = some nodeData)
    (typ : RRType) (hn : n ≠ name) :
    callbackAt (z.dropType name nodeData typ).domains n = callbackAt z.domains n := by
  simp only [dropType]
  split
  · rw [callbackAt_deleteNode, callbackAt_remove_of_ne hn]
    · simp
    · intro hnone
      rw [dataAt_setData (isSome_node_of_dataAt hdata), if_neg hn] at hnone
      simpa using hz.empty hnone
  · simp

theorem CutsInStep.dropType (hdata : dataAt z.domains name = some nodeData) {typ : RRType}
    (hsafe : typ = .ns → callbackAt z.domains name = true → ¬z.Survives name) :
    (z.dropType name nodeData typ).CutsInStep := by
  intro n
  rw [slots_dropType hdata, origin_dropType]
  simp only [SlotChange.apply]
  by_cases hn : n = name
  · subst hn
    rw [callbackAt_dropType_self hdata]
    by_cases htyp : typ = .ns
    · subst htyp
      have hgone : ¬(callbackAt z.domains n = true ∧ z.Survives n) := fun hboth =>
        hsafe rfl hboth.1 hboth.2
      simpa [Survives] using hgone
    · rw [if_neg (fun heq => htyp heq.2.symm), hz n]
      constructor
      · exact fun hboth => hboth.1
      · exact fun hcut => ⟨hcut, .inr ⟨.ns, fun heq => htyp heq.symm, hcut.2⟩⟩
  · rw [callbackAt_dropType_of_ne hz hdata typ hn, if_neg (fun heq => hn heq.1)]
    exact hz n

theorem CutsInStep.setData {old new : NameNode} (hdata : dataAt z.domains name = some old)
    (hns : name ≠ z.origin → (new.lookup .ns).isSome = (old.lookup .ns).isSome) :
    { z with domains := setData z.domains name new }.CutsInStep := by
  intro n
  simp only [callbackAt_setData, slots, dataAt_setData (isSome_node_of_dataAt hdata)]
  by_cases hn : n = name
  · subst hn
    rw [hz n]
    by_cases horigin : n = z.origin
    · simp [horigin]
    · simp [slots, hdata, hns horigin]
  · rw [if_neg hn]
    exact hz n

theorem CutsInStep.perform {op : ZoneOp} (hsafe : ¬op.Strands h z) (hok : z.perform h op = .ok o) :
    o.zone.CutsInStep := by
  have hinsert (name : Name) : { z with domains := insert z.domains name }.CutsInStep := by
    intro n
    simpa [slots] using hz n
  have hslots {name : Name} {nodeData : NameNode}
      (hdata : dataAt z.domains name = some nodeData) (t : RRType) :
      nodeData.lookup t = z.slots name t := by
    simp [slots, hdata]
  cases op with
  | add p =>
    cases addRRset_effect hok with
    | invalid => exact hz
    | refused | kept => exact hinsert _
    | created hvalid hdata => exact hz.storeNode (fun t => by simp [slots, hdata])
    | stored hvalid hdata => exact hz.storeNode (hslots hdata)
  | deleteRRset p =>
    cases deleteRRset_effect hok with
    | refused | unknown => exact hz
    | dropped hcheck hdata hslot =>
      refine hz.dropType hdata fun htyp hflag hsurvives => hsafe ?_
      obtain ⟨hname, hsome⟩ := (hz _).mp hflag
      exact ⟨checkRRsetCouldBeDeleted_inZone hcheck, hname, htyp, hsome, hsurvives⟩
  | deleteDomain name =>
    cases deleteDomain_effect hok with
    | outOfZone | unknown => exact hz
    | apex hname hdata => exact hz.setData hdata fun hne => absurd hname hne
    | deleted hin hname hdata =>
      refine hz.deleteNode fun hflag hbelow => hsafe ?_
      exact ⟨hin, hname, ((hz _).mp hflag).2, hbelow⟩
  | deleteRr p =>
    cases deleteRr_effect hok with
    | refused | unknown => exact hz
    | @dropped nodeData old hcheck hdata hslot hleft =>
      refine hz.dropType hdata fun htyp hflag hsurvives => hsafe ?_
      obtain ⟨hname, hsome⟩ := (hz _).mp hflag
      refine ⟨checkRRsetCouldBeDeleted_inZone hcheck, hname, htyp, ⟨old, ?_, hleft⟩, hsurvives⟩
      rw [← hslots hdata, ← htyp]
      exact hslot
    | @reduced nodeData old hcheck hdata hslot hleft =>
      refine hz.setData hdata fun _ => ?_
      by_cases htyp : RRType.ns = (h.rrsets.load p).typ
      · rw [htyp, hslot]
        simp
      · rw [AList.lookup_insert_ne htyp]

end cuts

omit [LawfulDomainTree T NameNode] in
theorem checkRRsetCouldBeDeleted_of_ne {r : RRset Ptr} (hin : z.origin <:+ r.name)
    (hname : r.name ≠ z.origin) : z.checkRRsetCouldBeDeleted h r = .ok none := by
  simp [checkRRsetCouldBeDeleted, Name.isSubDomain_eq_true.mpr hin, hname]

theorem not_flagsInStep_dropType (hz : z.CutsInStep) {name : Name} {typ : RRType}
    {nodeData : NameNode} (hdata : dataAt z.domains name = some nodeData) (hname : name ≠ z.origin)
    (htyp : typ = .ns) (hsome : (z.slots name .ns).isSome = true) (hsurvives : z.Survives name) :
    ¬(z.dropType name nodeData typ).FlagsInStep := by
  subst htyp
  rintro ⟨hcuts, _⟩
  have hflag := (hz name).mpr ⟨hname, hsome⟩
  obtain ⟨_, p, hslot⟩ := hcuts name ((callbackAt_dropType_self hdata .ns).mpr ⟨hflag, hsurvives⟩)
  rw [slots_dropType hdata] at hslot
  simp [SlotChange.apply] at hslot

theorem not_flagsInStep_of_strands (hz : z.CutsInStep) {op : ZoneOp} (hstrands : op.Strands h z) :
    ∃ o, z.perform h op = .ok o ∧ ¬o.zone.FlagsInStep := by
  cases op with
  | add p => exact hstrands.elim
  | deleteRRset p =>
    obtain ⟨hin, hname, htyp, hsome, hsurvives⟩ := hstrands
    obtain ⟨nodeData, hdata⟩ := isSome_iff_exists.mp (isSome_dataAt_of_slots hsome)
    obtain ⟨slot, hslot⟩ : ∃ slot, nodeData.lookup (h.rrsets.load p).typ = some slot := by
      rw [htyp]
      simpa [slots, hdata, isSome_iff_exists] using hsome
    refine ⟨⟨h, z.dropType _ nodeData _, none⟩, ?_,
      not_flagsInStep_dropType hz hdata hname htyp hsome hsurvives⟩
    simp only [perform, deleteRRset, checkRRsetCouldBeDeleted_of_ne hin hname, getNode_eq, hdata,
      hslot]
  | deleteRr p =>
    obtain ⟨hin, hname, htyp, ⟨old, hold, hleft⟩, hsurvives⟩ := hstrands
    have hsome : (z.slots (h.rrsets.load p).name .ns).isSome = true := by simp [hold]
    obtain ⟨nodeData, hdata⟩ := isSome_iff_exists.mp (isSome_dataAt_of_slots hsome)
    have hslot : nodeData.lookup (h.rrsets.load p).typ = some (some old) := by
      rw [htyp]
      simpa [slots, hdata] using hold
    refine ⟨⟨h, z.dropType _ nodeData _, none⟩, ?_,
      not_flagsInStep_dropType hz hdata hname htyp hsome hsurvives⟩
    simp only [perform, deleteRr, checkRRsetCouldBeDeleted_of_ne hin hname, getNode_eq, hdata,
      hslot, hleft, if_true]
  | deleteDomain name =>
    obtain ⟨hin, hname, hsome, hbelow⟩ := hstrands
    obtain ⟨nodeData, hdata⟩ := isSome_iff_exists.mp (isSome_dataAt_of_slots hsome)
    refine ⟨⟨h, z.deleteNode name, none⟩, ?_, ?_⟩
    · simp [perform, deleteDomain, Name.isSubDomain_eq_true.mpr hin, hname, hdata]
    · rintro ⟨hcuts, _⟩
      have hflag : callbackAt (z.deleteNode name).domains name = true := by
        rw [callbackAt_deleteNode, callbackAt_remove_self]
        exact ⟨(hz name).mpr ⟨hname, hsome⟩, hbelow⟩
      obtain ⟨_, p, hslot⟩ := hcuts name hflag
      simp [slots, dataAt_deleteNode] at hslot

theorem NilAtApexOnly.perform (hz : z.NilAtApexOnly) {op : ZoneOp}
    (hok : z.perform h op = .ok o) : o.zone.NilAtApexOnly := by
  intro n t hnil
  rw [perform_origin hok]
  obtain ⟨c, hc, hslots⟩ := perform_makes hok
  rw [hslots] at hnil
  rcases SlotChange.apply_eq_nil hnil with hold | ⟨rfl, _⟩
  · exact hz n t hold
  · cases hc
    rfl

omit [LawfulDomainTree T NameNode] in
theorem flagsInStep_of (hcuts : z.CutsInStep) (hmarks : z.MarksInStep)
    (hnil : z.NilAtApexOnly) : z.FlagsInStep := by
  refine ⟨fun n hflag => ?_, hmarks⟩
  obtain ⟨hname, hsome⟩ := (hcuts n).mp hflag
  refine ⟨hname, ?_⟩
  match hslot : z.slots n .ns with
  | none => simp [hslot] at hsome
  | some none => exact absurd (hnil n .ns hslot) hname
  | some (some p) => exact ⟨p, rfl⟩

end MemoryZone

end Vanguard.Zone
