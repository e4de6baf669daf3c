import Vanguard.Zone.MemoryZone

namespace Vanguard.Zone

open Library

/-- The decisions of `mergeRRset`. -/
inductive MergeEffect (h : Objects) (nodeData : NameNode) (p : Ptr) : Merge → Prop
  | olderSoa {old : Ptr} {oldSerial newSerial : UInt32} (htyp : (h.rrsets.load p).typ = .soa)
      (hslot : nodeData.lookup (h.rrsets.load p).typ = some (some old))
      (hold : firstSerial h (h.rrsets.load old) = .ok oldSerial)
      (hnew : firstSerial h (h.rrsets.load p) = .ok newSerial) (hle : newSerial ≤ oldSerial) :
      MergeEffect h nodeData p (.keep none)
  | newerSoa {old : Ptr} {oldSerial newSerial : UInt32} (htyp : (h.rrsets.load p).typ = .soa)
      (hslot : nodeData.lookup (h.rrsets.load p).typ = some (some old))
      (hold : firstSerial h (h.rrsets.load old) = .ok oldSerial)
      (hnew : firstSerial h (h.rrsets.load p) = .ok newSerial) (hlt : oldSerial < newSerial) :
      MergeEffect h nodeData p (.store h p)
  | fresh (hslot : (nodeData.lookup (h.rrsets.load p).typ).join = none) :
      MergeEffect h nodeData p (.store h p)
  | cname {old : Option Ptr} (htyp : (h.rrsets.load p).typ = .cname)
      (hslot : nodeData.lookup (h.rrsets.load p).typ = some old) :
      MergeEffect h nodeData p (.store h p)
  | duplicate {old : Ptr} (hsoa : (h.rrsets.load p).typ ≠ .soa)
      (hcname : (h.rrsets.load p).typ ≠ .cname)
      (hslot : nodeData.lookup (h.rrsets.load p).typ = some (some old))
      (hdup : (addRdatas h (h.rrsets.load old).rdatas (h.rrsets.load p).rdatas).2 = true)
      (httl : (h.rrsets.load p).ttl = (h.rrsets.load old).ttl) :
      MergeEffect h nodeData p (.keep (some .duplicateRdata))
  | merged {old : Ptr} (hsoa : (h.rrsets.load p).typ ≠ .soa)
      (hcname : (h.rrsets.load p).typ ≠ .cname)
      (hslot : nodeData.lookup (h.rrsets.load p).typ = some (some old))
      (hchange : ¬((addRdatas h (h.rrsets.load old).rdatas (h.rrsets.load p).rdatas).2 = true ∧
        (h.rrsets.load p).ttl = (h.rrsets.load old).ttl)) :
      MergeEffect h nodeData p (.store
        (h.allocRRset { h.rrsets.load old with
          ttl := (h.rrsets.load p).ttl,
          rdatas := (addRdatas h (h.rrsets.load old).rdatas (h.rrsets.load p).rdatas).1 }).1
        h.rrsets.next)

theorem mergeRRset_effect {h : Objects} {nodeData : NameNode} {p : Ptr} {d : Merge}
    (hok : mergeRRset h nodeData p = .ok d) : MergeEffect h nodeData p d := by
  unfold mergeRRset at hok
  dsimp only at hok
  split at hok
  · next hsoa =>
    rw [← hsoa] at hok
    split at hok
    · next old hslot =>
      split at hok
      · cases hok
      · next oldSerial hold =>
        split at hok
        · cases hok
        · next newSerial hnew =>
          split at hok
          · next hle => exact Except.ok.inj hok ▸ .olderSoa hsoa hslot hold hnew hle
          · next hle =>
            exact Except.ok.inj hok ▸ .newerSoa hsoa hslot hold hnew (UInt32.not_le.mp hle)
    · next hslot =>
      refine Except.ok.inj hok ▸ .fresh ?_
      rcases hlookup : nodeData.lookup (h.rrsets.load p).typ with _ | _ | old
      · rfl
      · rfl
      · exact absurd hlookup (hslot old)
  · next hsoa =>
    split at hok
    · next hslot => exact Except.ok.inj hok ▸ .fresh (by rw [hslot]; rfl)
    · next hslot =>
      split at hok
      · next hcname => exact Except.ok.inj hok ▸ .cname hcname hslot
      · next hcname =>
        split at hok
        · cases hok
        · split at hok
          · next hdup => exact Except.ok.inj hok ▸ .duplicate hsoa hcname hslot hdup.1 hdup.2
          · next hchange => exact Except.ok.inj hok ▸ .merged hsoa hcname hslot hchange

variable {T : Type} [DomainTree T NameNode] {h : Objects} {z : MemoryZone T}

namespace MemoryZone

/-- The outcomes of `addRRset`. -/
inductive AddEffect (h : Objects) (z : MemoryZone T) (p : Ptr) : Outcome T → Prop
  | invalid {err : ZoneError} (hvalid : z.checkRRsetValid (h.rrsets.load p) = some err) :
      AddEffect h z p ⟨h, z, some err⟩
  | created (hvalid : z.checkRRsetValid (h.rrsets.load p) = none)
      (hdata : dataAt z.domains (h.rrsets.load p).name = none) :
      AddEffect h z p ⟨h, z.storeNode (insert z.domains (h.rrsets.load p).name) (h.rrsets.load p)
        (AList.insert (h.rrsets.load p).typ (some p) ∅), none⟩
  /-- `checkRRsetCouldBeAdded` fails. -/
  | refused {nodeData : NameNode} {err : ZoneError}
      (hvalid : z.checkRRsetValid (h.rrsets.load p) = none)
      (hdata : dataAt z.domains (h.rrsets.load p).name = some nodeData)
      (hcheck : checkRRsetCouldBeAdded nodeData (h.rrsets.load p) = some err) :
      AddEffect h z p ⟨h, { z with domains := insert z.domains (h.rrsets.load p).name }, some err⟩
  | kept {nodeData : NameNode} {err : Option ZoneError}
      (hvalid : z.checkRRsetValid (h.rrsets.load p) = none)
      (hdata : dataAt z.domains (h.rrsets.load p).name = some nodeData)
      (hcheck : checkRRsetCouldBeAdded nodeData (h.rrsets.load p) = none)
      (hmerge : mergeRRset h nodeData p = .ok (.keep err)) :
      AddEffect h z p ⟨h, { z with domains := insert z.domains (h.rrsets.load p).name }, err⟩
  | stored {nodeData : NameNode} {h' : Objects} {q : Ptr}
      (hvalid : z.checkRRsetValid (h.rrsets.load p) = none)
      (hdata : dataAt z.domains (h.rrsets.load p).name = some nodeData)
      (hcheck : checkRRsetCouldBeAdded nodeData (h.rrsets.load p) = none)
      (hmerge : mergeRRset h nodeData p = .ok (.store h' q)) :
      AddEffect h z p ⟨h', z.storeNode (insert z.domains (h.rrsets.load p).name)
        (h.rrsets.load p) (nodeData.insert (h.rrsets.load p).typ (some q)), none⟩

inductive DeleteRRsetEffect (h : Objects) (z : MemoryZone T) (p : Ptr) : Outcome T → Prop
  /-- `checkRRsetCouldBeDeleted` fails. -/
  | refused {err : ZoneError}
      (hcheck : z.checkRRsetCouldBeDeleted h (h.rrsets.load p) = .ok (some err)) :
      DeleteRRsetEffect h z p ⟨h, z, some err⟩
  | unknown (hcheck : z.checkRRsetCouldBeDeleted h (h.rrsets.load p) = .ok none)
      (hslot : (dataAt z.domains (h.rrsets.load p).name).bind
        (AList.lookup (h.rrsets.load p).typ) = none) :
      DeleteRRsetEffect h z p ⟨h, z, some .unknownRRset⟩
  | dropped {nodeData : NameNode} {old : Option Ptr}
      (hcheck : z.checkRRsetCouldBeDeleted h (h.rrsets.load p) = .ok none)
      (hdata : dataAt z.domains (h.rrsets.load p).name = some nodeData)
      (hslot : nodeData.lookup (h.rrsets.load p).typ = some old) :
      DeleteRRsetEffect h z p
        ⟨h, z.dropType (h.rrsets.load p).name nodeData (h.rrsets.load p).typ, none⟩

inductive DeleteDomainEffect (h : Objects) (z : MemoryZone T) (name : Name) : Outcome T → Prop
  | outOfZone (hout : ¬z.origin <:+ name) :
      DeleteDomainEffect h z name ⟨h, z, some .outOfZone⟩
  | unknown (hin : z.origin <:+ name) (hdata : dataAt z.domains name = none) :
      DeleteDomainEffect h z name ⟨h, z, some .unknownRRset⟩
  | apex {oldData : NameNode} (hname : name = z.origin)
      (hdata : dataAt z.domains name = some oldData) :
      DeleteDomainEffect h z name
        ⟨h, { z with
          domains := setData z.domains name
            (AList.insert .ns ((oldData.lookup .ns).getD none)
              (AList.insert .soa ((oldData.lookup .soa).getD none) ∅)) }, none⟩
  | deleted {oldData : NameNode} (hin : z.origin <:+ name) (hname : name ≠ z.origin)
      (hdata : dataAt z.domains name = some oldData) :
      DeleteDomainEffect h z name ⟨h, z.deleteNode name, none⟩

inductive DeleteRrEffect (h : Objects) (z : MemoryZone T) (p : Ptr) : Outcome T → Prop
  /-- `checkRRsetCouldBeDeleted` fails. -/
  | refused {err : ZoneError}
      (hcheck : z.checkRRsetCouldBeDeleted h (h.rrsets.load p) = .ok (some err)) :
      DeleteRrEffect h z p ⟨h, z, some err⟩
  | unknown (hcheck : z.checkRRsetCouldBeDeleted h (h.rrsets.load p) = .ok none)
      (hslot : (dataAt z.domains (h.rrsets.load p).name).bind
        (AList.lookup (h.rrsets.load p).typ) = none) :
      DeleteRrEffect h z p ⟨h, z, some .unknownRRset⟩
  | dropped {nodeData : NameNode} {old : Ptr}
      (hcheck : z.checkRRsetCouldBeDeleted h (h.rrsets.load p) = .ok none)
      (hdata : dataAt z.domains (h.rrsets.load p).name = some nodeData)
      (hslot : nodeData.lookup (h.rrsets.load p).typ = some (some old))
      (hleft : rdatasDiff h (h.rrsets.load old).rdatas (h.rrsets.load p).rdatas = []) :
      DeleteRrEffect h z p
        ⟨h, z.dropType (h.rrsets.load p).name nodeData (h.rrsets.load p).typ, none⟩
  /-- The slot gets a new RRset with the rdatas that are left. -/
  | reduced {nodeData : NameNode} {old : Ptr}
      (hcheck : z.checkRRsetCouldBeDeleted h (h.rrsets.load p) = .ok none)
      (hdata : dataAt z.domains (h.rrsets.load p).name = some nodeData)
      (hslot : nodeData.lookup (h.rrsets.load p).typ = some (some old))
      (hleft : rdatasDiff h (h.rrsets.load old).rdatas (h.rrsets.load p).rdatas ≠ []) :
      DeleteRrEffect h z p
        ⟨(h.allocRRset { h.rrsets.load old with
            rdatas := rdatasDiff h (h.rrsets.load old).rdatas (h.rrsets.load p).rdatas }).1,
          { z with
            domains := setData z.domains (h.rrsets.load p).name
              (nodeData.insert (h.rrsets.load p).typ (some h.rrsets.next)) }, none⟩

variable [LawfulDomainTree T NameNode]

theorem node_of_search_ne {domains : T} {name m : Name} {result : SearchResult}
    (hsearch : search domains name = (m, result)) (hne : result ≠ .exactMatch) :
    node domains name = none := by
  have hiff := search_exactMatch_iff domains name
  rw [hsearch] at hiff
  simpa using fun hsome => hne (hiff.mpr hsome)

@[simp] theorem getNode_eq (z : MemoryZone T) (name : Name) :
    z.getNode name = dataAt z.domains name := by
  unfold getNode
  cases hsearch : search z.domains name with
  | mk m result =>
    have hnone := node_of_search_ne hsearch
    cases result with
    | exactMatch => rfl
    | partialMatch | notFound => simp [dataAt, hnone]

variable {o : Outcome T}

theorem addRRset_effect {p : Ptr} (hok : addRRset h z p = .ok o) :
    AddEffect h z p o := by
  simp only [addRRset, dataAt_insert] at hok
  split at hok
  · next hvalid => exact Except.ok.inj hok ▸ .invalid hvalid
  · next hvalid =>
    split at hok
    · next hdata => exact Except.ok.inj hok ▸ .created hvalid hdata
    · next hdata =>
      split at hok
      · next hcheck => exact Except.ok.inj hok ▸ .refused hvalid hdata hcheck
      · next hcheck =>
        split at hok
        · cases hok
        · next hmerge => exact Except.ok.inj hok ▸ .kept hvalid hdata hcheck hmerge
        · next hmerge => exact Except.ok.inj hok ▸ .stored hvalid hdata hcheck hmerge

theorem deleteRRset_effect {p : Ptr} (hok : deleteRRset h z p = .ok o) :
    DeleteRRsetEffect h z p o := by
  simp only [deleteRRset, getNode_eq] at hok
  split at hok
  · cases hok
  · next hcheck => exact Except.ok.inj hok ▸ .refused hcheck
  · next hcheck =>
    split at hok
    · next hdata => exact Except.ok.inj hok ▸ .unknown hcheck (by simp [hdata])
    · next hdata =>
      split at hok
      · next hslot => exact Except.ok.inj hok ▸ .unknown hcheck (by simp [hdata, hslot])
      · next hslot => exact Except.ok.inj hok ▸ .dropped hcheck hdata hslot

theorem deleteDomain_effect {name : Name} (hok : deleteDomain h z name = .ok o) :
    DeleteDomainEffect h z name o := by
  simp only [deleteDomain, getNode_eq] at hok
  split at hok
  · next hsub => exact Except.ok.inj hok ▸ .outOfZone (Name.isSubDomain_eq_false.mp hsub)
  · next hsub =>
    have hin : z.origin <:+ name := Name.isSubDomain_eq_true.mp (Bool.not_eq_false _ ▸ hsub)
    split at hok
    · next hdata => exact Except.ok.inj hok ▸ .unknown hin hdata
    · next hdata =>
      split at hok
      · next hname => exact Except.ok.inj hok ▸ .apex hname hdata
      · next hname => exact Except.ok.inj hok ▸ .deleted hin hname hdata

theorem deleteRr_effect {p : Ptr} (hok : deleteRr h z p = .ok o) :
    DeleteRrEffect h z p o := by
  simp only [deleteRr, getNode_eq] at hok
  split at hok
  · cases hok
  · next hcheck => exact Except.ok.inj hok ▸ .refused hcheck
  · next hcheck =>
    split at hok
    · next hdata => exact Except.ok.inj hok ▸ .unknown hcheck (by simp [hdata])
    · next hdata =>
      split at hok
      · next hslot => exact Except.ok.inj hok ▸ .unknown hcheck (by simp [hdata, hslot])
      · cases hok
      · next hslot =>
        split at hok
        · next hleft => exact Except.ok.inj hok ▸ .dropped hcheck hdata hslot hleft
        · next hleft => exact Except.ok.inj hok ▸ .reduced hcheck hdata hslot hleft

theorem lookup_of_length_eq_zero {nodeData : NameNode} (hlen : nodeData.entries.length = 0)
    (t : RRType) : nodeData.lookup t = none := by
  have hnil : nodeData.entries = [] := List.length_eq_zero_iff.mp hlen
  simp [AList.lookup, hnil]

section storeNode

variable {domains : T} {r : RRset Ptr} (hnode : (node domains r.name).isSome = true)
  (nodeData : NameNode) (m : Name)

include hnode

theorem dataAt_storeNode : dataAt (z.storeNode domains r nodeData).domains m =
    if m = r.name then some nodeData else dataAt domains m := by
  have hdata := dataAt_setData hnode nodeData m
  unfold storeNode
  by_cases hwild : r.name.isWildCard = true <;>
    by_cases hns : r.typ = .ns ∧ r.name ≠ z.origin <;>
    simp [hwild, hns, markWildcardParent, hdata]

theorem callbackAt_storeNode : callbackAt (z.storeNode domains r nodeData).domains m =
    if m = r.name ∧ r.typ = .ns ∧ r.name ≠ z.origin then true else callbackAt domains m := by
  unfold storeNode
  by_cases hns : r.typ = .ns ∧ r.name ≠ z.origin
  · have hflag : callbackAt (setCallback (setData domains r.name nodeData) r.name true) m =
        if m = r.name then true else callbackAt domains m := by
      rw [callbackAt_setCallback (by simpa [setData] using hnode)]
      simp
    by_cases hwild : r.name.isWildCard = true <;> simp [hwild, hns, markWildcardParent, hflag]
  · by_cases hwild : r.name.isWildCard = true <;> simp [hwild, hns, markWildcardParent]

omit hnode in
theorem markAt_storeNode : markAt (z.storeNode domains r nodeData).domains m =
    if r.name.isWildCard = true ∧ m = r.name.parent then true else markAt domains m := by
  unfold storeNode
  by_cases hwild : r.name.isWildCard = true
  · simp only [hwild, if_true, true_and, markWildcardParent]
    rw [markAt_setMark (isSome_node_insert_self _ _)]
    by_cases hns : r.typ = .ns ∧ r.name ≠ z.origin <;> simp [hns]
  · by_cases hns : r.typ = .ns ∧ r.name ≠ z.origin <;> simp [hwild, hns]

end storeNode

theorem unmarkWildcardParent_eq (domains : T) (name : Name) :
    unmarkWildcardParent domains name = setMark domains name.parent false := by
  unfold unmarkWildcardParent
  cases hsearch : search domains name.parent with
  | mk m result =>
    have hnone := node_of_search_ne hsearch
    cases result with
    | exactMatch => rfl
    | partialMatch | notFound => simp [setMark, modifyNode, hnone]

theorem dataAt_deleteNode (z : MemoryZone T) (name m : Name) :
    dataAt (z.deleteNode name).domains m = if m = name then none else dataAt z.domains m := by
  unfold deleteNode removeName
  by_cases hwild : name.isWildCard = true <;>
    simp [hwild, unmarkWildcardParent_eq, dataAt_remove]

theorem callbackAt_deleteNode (z : MemoryZone T) (name m : Name) :
    callbackAt (z.deleteNode name).domains m = callbackAt (remove z.domains name) m := by
  unfold deleteNode removeName
  by_cases hwild : name.isWildCard = true <;> simp [hwild, unmarkWildcardParent_eq]

theorem markAt_deleteNode (z : MemoryZone T) (name m : Name) :
    markAt (z.deleteNode name).domains m =
      if name.isWildCard = true ∧ m = name.parent then false
      else markAt (remove z.domains name) m := by
  unfold deleteNode removeName
  by_cases hwild : name.isWildCard = true
  · simp [hwild, unmarkWildcardParent_eq, markAt_setMark_false]
  · simp [hwild]

theorem dataAt_dropType {name : Name} {nodeData : NameNode}
    (hdata : dataAt z.domains name = some nodeData) (typ : RRType) (m : Name) (t : RRType) :
    (dataAt (z.dropType name nodeData typ).domains m).bind (AList.lookup t) =
      if m = name ∧ t = typ then none else (dataAt z.domains m).bind (AList.lookup t) := by
  have hnode := isSome_node_of_dataAt hdata
  have hlookup : (nodeData.erase typ).lookup t = if t = typ then none else nodeData.lookup t := by
    by_cases ht : t = typ
    · subst ht
      rw [AList.lookup_erase, if_pos rfl]
    · rw [AList.lookup_erase_ne ht, if_neg ht]
  unfold dropType
  by_cases hlen : (nodeData.erase typ).entries.length = 0
  · rw [if_pos hlen, dataAt_deleteNode, dataAt_setData hnode]
    by_cases hm : m = name
    · have hzero := lookup_of_length_eq_zero hlen t
      rw [hlookup] at hzero
      by_cases ht : t = typ
      · simp [hm, ht]
      · simp only [ht, if_false] at hzero
        simp [hm, ht, hdata, hzero]
    · simp [hm]
  · rw [if_neg hlen, dataAt_setData hnode]
    by_cases hm : m = name
    · simp [hm, hdata, hlookup]
    · simp [hm]

end MemoryZone

end Vanguard.Zone
