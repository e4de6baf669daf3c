import Vanguard.Zone.Preservation
import Vanguard.Zone.ZoneMap

namespace Vanguard.Zone

open Library List Objects

def ZoneOp.value (h : Objects) : ZoneOp → MapOp
  | .add p => .add (h.value p)
  | .deleteRRset p => .deleteRRset (h.value p).name (h.value p).typ
  | .deleteRr p => .deleteRr (h.value p)
  | .deleteDomain name => .deleteDomain name

variable {h h' : Objects}

theorem ZoneOp.value_of_extends (hext : h.Extends h') {op : ZoneOp} (hop : op.Allocated h) :
    op.value h' = op.value h := by
  cases op with
  | deleteDomain name => rfl
  | _ => simp only [value, hext.value_eq hop]

theorem ZoneOp.Allocated.mono (hext : h.Extends h') {op : ZoneOp} (hop : op.Allocated h) :
    op.Allocated h' := by
  cases op with
  | deleteDomain name => trivial
  | _ => exact lt_of_lt_of_le (b := h.rrsets.next) hop hext.rrsets.next_le

theorem map_addRdatas (h : Objects) (old new : List Ptr) :
    (addRdatas h old new).1.map h.rdatas.load =
      union (old.map h.rdatas.load) (new.map h.rdatas.load) := by
  suffices hfold : ∀ acc : List Ptr × Bool,
      (new.foldl (fun acc p =>
        if acc.1.any (fun q => h.rdatas.load q = h.rdatas.load p) then acc
        else (acc.1 ++ [p], false)) acc).1.map h.rdatas.load =
      union (acc.1.map h.rdatas.load) (new.map h.rdatas.load) from hfold (old, true)
  unfold union
  induction new with
  | nil => intro acc; rfl
  | cons p new ih =>
    intro acc
    have hany : (acc.1.any fun q => decide (h.rdatas.load q = h.rdatas.load p)) = true ↔
        h.rdatas.load p ∈ acc.1.map h.rdatas.load := by
      simp
    rw [foldl_cons, map_cons, foldl_cons, ih]
    by_cases hmem : h.rdatas.load p ∈ acc.1.map h.rdatas.load
    · rw [if_pos hmem, if_pos (hany.mpr hmem)]
    · rw [if_neg hmem, if_neg (fun hp => hmem (hany.mp hp))]
      simp

/-- The rdatas that are not there yet are appended, and the flag says that there were none. -/
theorem addRdatas_eq (h : Objects) (old new : List Ptr) :
    ∃ added ⊆ new, (addRdatas h old new).1 = old ++ added ∧
      (addRdatas h old new).2 = added.isEmpty := by
  suffices hfold : ∀ acc : List Ptr × Bool, ∃ added ⊆ new, new.foldl (fun acc p =>
      if acc.1.any (fun q => h.rdatas.load q = h.rdatas.load p) then acc
      else (acc.1 ++ [p], false)) acc = (acc.1 ++ added, acc.2 && added.isEmpty) by
    obtain ⟨added, hsub, heq⟩ := hfold (old, true)
    exact ⟨added, hsub, congrArg Prod.fst heq, congrArg Prod.snd heq⟩
  induction new with
  | nil => exact fun acc => ⟨[], Subset.refl _, by simp⟩
  | cons p new ih =>
    intro acc
    rw [foldl_cons]
    split
    · obtain ⟨added, hsub, heq⟩ := ih acc
      exact ⟨added, subset_cons_of_subset p hsub, heq⟩
    · obtain ⟨added, hsub, heq⟩ := ih (acc.1 ++ [p], false)
      exact ⟨p :: added, cons_subset_cons p hsub, by simpa using heq⟩

theorem map_rdatasDiff (h : Objects) (first second : List Ptr) :
    (rdatasDiff h first second).map h.rdatas.load =
      difference (first.map h.rdatas.load) (second.map h.rdatas.load) := by
  unfold rdatasDiff difference
  rw [filter_map]
  congr 1
  apply filter_congr
  intro p _
  have hany : (second.any fun target => decide (h.rdatas.load p = h.rdatas.load target)) = true ↔
      h.rdatas.load p ∈ second.map h.rdatas.load := by
    rw [any_eq_true, mem_map]
    exact exists_congr fun q => and_congr_right fun _ => by rw [decide_eq_true_eq, eq_comm]
  rw [Bool.eq_iff_iff, Bool.not_eq_true', ← Bool.not_eq_true, hany]
  simp

theorem firstSerial_eq_ok {r : RRset Ptr} {serial : UInt32} (hserial : firstSerial h r = .ok serial)
    :
    ∃ soa, (r.rdatas.map h.rdatas.load).head? = some (.soa soa) ∧ soa.serial = serial := by
  unfold firstSerial at hserial
  cases hrdatas : r.rdatas with
  | nil => simp [hrdatas] at hserial
  | cons p rest =>
    cases hload : h.rdatas.load p with
    | soa soa =>
      simp only [hrdatas, hload, Except.ok.injEq] at hserial
      exact ⟨soa, by simp [hload], hserial⟩
    | _ => simp [hrdatas, hload] at hserial

theorem newer_eq_true_iff {old new : RRset Ptr} {oldSerial newSerial : UInt32}
    (hold : firstSerial h old = .ok oldSerial) (hnew : firstSerial h new = .ok newSerial) :
    newer (old.rdatas.map h.rdatas.load) (new.rdatas.map h.rdatas.load) = true ↔
      oldSerial < newSerial := by
  obtain ⟨a, ha, rfl⟩ := firstSerial_eq_ok hold
  obtain ⟨b, hb, rfl⟩ := firstSerial_eq_ok hnew
  simp [newer, ha, hb]

def entryAt (h : Objects) (slot : Option (Option Ptr)) : Option Entry :=
  slot.join.map fun p => .ofRRset (h.value p)

@[simp] theorem entryAt_none (h : Objects) : entryAt h none = none := rfl

theorem entry_merge {nodeData : NameNode} {p q : Ptr}
    (hmerge : MergeEffect h nodeData p (.store h' q)) : Entry.ofRRset (h'.value q) =
      Entry.add (entryAt h (nodeData.lookup (h.rrsets.load p).typ)) (h.value p) := by
  cases hmerge with
  | newerSoa htyp hslot hold hnew hlt =>
    have hnewer := (newer_eq_true_iff hold hnew).mpr hlt
    have htyp' : (h.value p).typ = .soa := htyp
    rw [hslot]
    simp only [entryAt, Option.join_some, Option.map_some, Entry.add, htyp', if_true]
    exact (if_pos hnewer).symm
  | fresh hslot => rw [entryAt, hslot]; rfl
  | @cname old htyp hslot =>
    have htyp' : (h.value p).typ = .cname := htyp
    have hne : RRType.cname ≠ .soa := by decide
    rw [hslot]
    cases old with
    | none => rfl
    | some old =>
      simp only [entryAt, Option.join_some, Option.map_some, Entry.add, hne, htyp', if_true,
        if_false]
  | @merged old hsoa hcname hslot hchange =>
    have hsoa' : (h.value p).typ ≠ .soa := hsoa
    have hcname' : (h.value p).typ ≠ .cname := hcname
    rw [← ptr_allocRRset h, value_allocRRset, hslot]
    simp only [entryAt, Option.join_some, Option.map_some, Entry.add, hsoa', hcname', if_false]
    simp only [Entry.ofRRset, RRset.map, map_addRdatas]
    rfl

theorem entry_keep {nodeData : NameNode} {p : Ptr} {err : Option ZoneError}
    (hmerge : MergeEffect h nodeData p (.keep err)) :
    some (Entry.add (entryAt h (nodeData.lookup (h.rrsets.load p).typ)) (h.value p)) =
      entryAt h (nodeData.lookup (h.rrsets.load p).typ) := by
  cases hmerge with
  | @olderSoa old oldSerial newSerial htyp hslot hold hnew hle =>
    have hnewer : newer (h.value old).rdatas (h.value p).rdatas ≠ true := fun hlt =>
      UInt32.not_lt.mpr hle ((newer_eq_true_iff hold hnew).mp hlt)
    have htyp' : (h.value p).typ = .soa := htyp
    rw [hslot]
    simp only [entryAt, Option.join_some, Option.map_some, Entry.add, htyp', if_true]
    exact congrArg some (if_neg hnewer)
  | @duplicate old hsoa hcname hslot hdup httl =>
    have hsoa' : (h.value p).typ ≠ .soa := hsoa
    have hcname' : (h.value p).typ ≠ .cname := hcname
    have hunion : union (h.value old).rdatas (h.value p).rdatas = (h.value old).rdatas := by
      obtain ⟨added, -, heq, hflag⟩ := addRdatas_eq h (h.rrsets.load old).rdatas
        (h.rrsets.load p).rdatas
      obtain rfl : added = [] := isEmpty_iff.mp (hflag.symm.trans hdup)
      have hmap := map_addRdatas h (h.rrsets.load old).rdatas (h.rrsets.load p).rdatas
      rw [heq, append_nil] at hmap
      exact hmap.symm
    have httl' : (h.value p).ttl = (h.value old).ttl := httl
    rw [hslot]
    simp only [entryAt, Option.join_some, Option.map_some, Entry.add, hsoa', hcname', if_false,
      Entry.ofRRset_rdatas, hunion, httl']
    rfl

namespace MemoryZone

variable {T : Type} [DomainTree T NameNode]

def content (h : Objects) (z : MemoryZone T) : ZoneMap := fun n t => entryAt h (z.slots n t)

theorem content_of_extends {h h' : Objects} {z : MemoryZone T} (hext : h.Extends h')
    (hz : z.Allocated h) : z.content h' = z.content h := by
  funext n t
  unfold content entryAt
  cases hslot : z.slots n t with
  | none => rfl
  | some slot =>
    cases slot with
    | none => rfl
    | some p => simp only [Option.join_some, Option.map_some, hext.value_eq (hz n t p hslot)]

section changes

variable {h : Objects} {z z' : MemoryZone T} {n : Name} {t : RRType}

theorem content_set {p : Ptr} (hslots : z'.slots = (SlotChange.set n t p).apply z.slots) :
    z'.content h = (z.content h).set n t (some (.ofRRset (h.value p))) := by
  funext m k
  simp only [content, hslots, SlotChange.apply, ZoneMap.set]
  split <;> rfl

theorem content_unset (hslots : z'.slots = (SlotChange.unset n t).apply z.slots) :
    z'.content h = (z.content h).set n t none := by
  funext m k
  simp only [content, hslots, SlotChange.apply, ZoneMap.set]
  split <;> rfl

theorem content_deleteDomain (hslots : z'.slots =
      (if n = z.origin then SlotChange.keepApex n else .clear n).apply z.slots) :
    z'.content h = (MapOp.deleteDomain n).apply z.origin (z.content h) := by
  funext m k
  by_cases hn : n = z.origin
  · simp only [content, hslots, if_pos hn, SlotChange.apply, MapOp.apply]
    by_cases hm : m = n
    · by_cases hk : k = .soa ∨ k = .ns
      · simp only [hm, hk, if_true, and_true, hn]
        cases z.slots z.origin k <;> rfl
      · simp [hm, hk]
    · simp [hm]
  · simp only [content, hslots, if_neg hn, SlotChange.apply, MapOp.apply]
    by_cases hm : m = n <;> simp [hm, hn]

theorem content_kept {nodeData : NameNode} {p : Ptr} {err : Option ZoneError}
    (hdata : dataAt z.domains (h.rrsets.load p).name = some nodeData)
    (hmerge : mergeRRset h nodeData p = .ok (.keep err)) :
    (MapOp.add (h.value p)).apply z.origin (z.content h) = z.content h := by
  have hkeep := entry_keep (mergeRRset_effect hmerge)
  have hslot : nodeData.lookup (h.rrsets.load p).typ =
      z.slots (h.rrsets.load p).name (h.rrsets.load p).typ := by simp [slots, hdata]
  rw [hslot] at hkeep
  have hsame : some (Entry.add (z.content h (h.value p).name (h.value p).typ) (h.value p)) =
      z.content h (h.value p).name (h.value p).typ := hkeep
  rw [MapOp.apply, hsame, ZoneMap.set_self]

end changes

variable [LawfulDomainTree T NameNode] {h : Objects} {z : MemoryZone T} {o : Outcome T}

theorem content_addRRset {p : Ptr} (hz : z.Allocated h) (hok : z.addRRset h p = .ok o)
    (herr : o.err = none) :
    o.zone.content o.objects = (MapOp.add (h.value p)).apply z.origin (z.content h) := by
  have hset {h' : Objects} {nodeData : NameNode} {q : Ptr} (hext : h.Extends h')
      (hdata : ∀ k, nodeData.lookup k = z.slots (h.rrsets.load p).name k) :
      (z.storeNode (insert z.domains (h.rrsets.load p).name) (h.rrsets.load p)
        (nodeData.insert (h.rrsets.load p).typ (some q))).content h' =
      (z.content h).set (h.value p).name (h.value p).typ (some (.ofRRset (h'.value q))) := by
    rw [content_set (slots_storeNode q hdata), content_of_extends hext hz]
    rfl
  have hslots {nodeData : NameNode}
      (hdata : dataAt z.domains (h.rrsets.load p).name = some nodeData) (k : RRType) :
      nodeData.lookup k = z.slots (h.rrsets.load p).name k := by
    simp [slots, hdata]
  cases addRRset_effect hok with
  | invalid | refused => cases herr
  | created hvalid hdata =>
    have hempty (k : RRType) : z.slots (h.rrsets.load p).name k = none := by simp [slots, hdata]
    have hnone : z.content h (h.value p).name (h.value p).typ = none := by
      simp [content, entryAt, Objects.value, RRset.map, hempty]
    rw [MapOp.apply, hset (Objects.Extends.refl h) (by simp [hempty]), hnone]
    rfl
  | kept hvalid hdata hcheck hmerge =>
    rw [content_kept hdata hmerge]
    funext m k
    simp [content, slots]
  | stored hvalid hdata hcheck hmerge =>
    have hentry := entry_merge (mergeRRset_effect hmerge)
    rw [hslots hdata] at hentry
    rw [MapOp.apply, hset (mergeRRset_store hmerge).1 (hslots hdata), hentry]
    rfl

theorem content_deleteRr {p : Ptr} (hz : z.Allocated h) (hok : z.deleteRr h p = .ok o)
    (herr : o.err = none) :
    o.zone.content o.objects = (MapOp.deleteRr (h.value p)).apply z.origin (z.content h) := by
  rcases deleteRr_change hok with ⟨⟨err, hsome⟩, _⟩ | ⟨old, _, hslot, _, hcase⟩
  · rw [hsome] at herr
    cases herr
  have hentry : z.content h (h.value p).name (h.value p).typ = some (.ofRRset (h.value old)) := by
    change entryAt h (z.slots _ _) = _
    exact congrArg (entryAt h) hslot
  have hleft : (rdatasDiff h (h.rrsets.load old).rdatas (h.rrsets.load p).rdatas).map
      h.rdatas.load = difference (h.value old).rdatas (h.value p).rdatas := map_rdatasDiff h _ _
  simp only [MapOp.apply, hentry, Option.bind_some, Entry.remove, Entry.ofRRset_rdatas,
    Entry.ofRRset_ttl]
  rcases hcase with ⟨hnil, hobjects, hslots⟩ | ⟨hcons, hobjects, hslots⟩
  · rw [if_pos (by simpa [hnil] using hleft.symm), hobjects, content_unset hslots]
    rfl
  · have hne : difference (h.value old).rdatas (h.value p).rdatas ≠ [] := by
      rw [← hleft]
      simpa using hcons
    rw [if_neg hne, hobjects, content_set hslots,
      content_of_extends (extends_allocRRset _ _) hz, ← ptr_allocRRset h,
      value_allocRRset]
    simp only [Entry.ofRRset, RRset.map, hleft]
    rfl

theorem content_perform {op : ZoneOp} (hz : z.Allocated h) (hok : z.perform h op = .ok o)
    (herr : o.err = none) :
    o.zone.content o.objects = (op.value h).apply z.origin (z.content h) := by
  cases op with
  | add p => exact content_addRRset hz hok herr
  | deleteRr p => exact content_deleteRr hz hok herr
  | deleteRRset p =>
    obtain ⟨hobjects, hcase⟩ := deleteRRset_change hok
    rcases hcase with ⟨⟨err, hsome⟩, _⟩ | ⟨_, _, _, hslots⟩
    · rw [hsome] at herr
      cases herr
    · rw [hobjects, content_unset hslots]
      rfl
  | deleteDomain name =>
    obtain ⟨hobjects, hcase⟩ := deleteDomain_change hok
    rcases hcase with ⟨⟨err, hsome⟩, _⟩ | ⟨_, hslots⟩
    · rw [hsome] at herr
      cases herr
    · rw [hobjects, content_deleteDomain hslots]
      rfl

theorem content_perform_of_err {op : ZoneOp} {err : ZoneError} (hok : z.perform h op = .ok o)
    (herr : o.err = some err) : o.zone.content o.objects = z.content h := by
  obtain ⟨hobjects, hslots⟩ := perform_of_err hok herr
  funext n t
  simp only [content, hobjects, hslots]

end MemoryZone

end Vanguard.Zone
