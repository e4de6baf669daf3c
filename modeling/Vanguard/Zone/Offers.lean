import Vanguard.Zone.Refinement

namespace Vanguard.Zone

open Library List Option

section

variable (origin : Name) (m : ZoneMap) (r : RRset Rdata)

/-- In the zone, no delegation of a wildcard, and no CNAME beside another type. -/
def ZoneMap.Accepts : Prop :=
  ¬(r.typ = .ns ∧ r.name.isWildCard = true) ∧ r.name.isSubDomain origin = true ∧
  (r.typ ≠ .cname → m r.name .cname = none) ∧
  (r.typ = .cname → ∀ t ≠ .cname, m r.name t = none)

open Classical in
noncomputable def ZoneMap.offer : ZoneMap :=
  if m.Accepts origin r then (MapOp.add r).apply origin m else m

/-- In the zone, not the SOA of the apex, and not all of its NS RRset. -/
def ZoneMap.Releases : Prop :=
  r.name.isSubDomain origin = true ∧ ¬(r.name = origin ∧ r.typ = .soa) ∧
  (r.name = origin → r.typ = .ns → ∀ e, m origin .ns = some e → difference e.rdatas r.rdatas ≠ [])

open Classical in
noncomputable def ZoneMap.withdraw : ZoneMap :=
  if m.Releases origin r then (MapOp.deleteRRset r.name r.typ).apply origin m else m

end

theorem ZoneMap.isSome_offer {origin n : Name} {m : ZoneMap} {r : RRset Rdata} {t : RRType}
    (hsome : (m n t).isSome = true) : (m.offer origin r n t).isSome = true := by
  unfold ZoneMap.offer
  split
  · simp only [MapOp.apply, ZoneMap.set]
    split
    · rfl
    · exact hsome
  · exact hsome

theorem length_le_one_iff {α : Type} {l : List α} (hnodup : l.Nodup) (hne : l ≠ []) (a : α) :
    l.length ≤ 1 ∧ a ∈ l ↔ ∀ b ∈ l, b = a := by
  constructor
  · rintro ⟨hlength, hmem⟩ b hb
    obtain ⟨c, rfl⟩ : ∃ c, l = [c] := length_eq_one_iff.mp
      (le_antisymm hlength (length_pos_iff.mpr hne))
    exact (mem_singleton.mp hb).trans (mem_singleton.mp hmem).symm
  · intro hall
    have hlength : l.length ≤ 1 := by
      rw [eq_replicate_of_mem hall] at hnodup
      exact nodup_replicate.mp hnodup
    obtain ⟨b, hb⟩ := exists_mem_of_ne_nil l hne
    exact ⟨hlength, hall b hb ▸ hb⟩

theorem checkRRsetCouldBeAdded_eq_none_iff {nodeData : NameNode} (hne : nodeData.entries ≠ [])
    (rrset : RRset Ptr) :
    checkRRsetCouldBeAdded nodeData rrset = none ↔
      (rrset.typ ≠ .cname → nodeData.lookup .cname = none) ∧
      (rrset.typ = .cname → ∀ t ≠ .cname, nodeData.lookup t = none) := by
  unfold checkRRsetCouldBeAdded
  by_cases htyp : rrset.typ = .cname
  · have hmem (t : RRType) : t ∈ nodeData.keys ↔ nodeData.lookup t ≠ none := by
      rw [← AList.mem_keys, ← AList.lookup_isSome, isSome_iff_ne_none]
    have honly := length_le_one_iff nodeData.keys_nodup (by simpa [AList.keys, List.keys] using hne)
      RRType.cname
    have hlength : nodeData.keys.length = nodeData.entries.length := by simp [AList.keys, List.keys]
    rw [hlength, hmem] at honly
    have hothers : (∀ t ≠ .cname, nodeData.lookup t = none) ↔ ∀ t ∈ nodeData.keys, t = .cname :=
      forall_congr' fun t => by rw [hmem, not_imp_comm, ← ne_eq, ne_eq]
    simp only [htyp, ne_eq, not_true_eq_false, if_false, false_imp_iff, true_and, true_imp_iff,
      hothers, ← honly]
    by_cases hlong : 1 < nodeData.entries.length
    · simp [hlong, Nat.not_le.mpr hlong]
    · simp [hlong, Nat.not_lt.mp hlong, isNone_iff_eq_none]
  · simp [htyp, isSome_iff_ne_none]

namespace MemoryZone

variable {T : Type} [DomainTree T NameNode]

def Filled (z : MemoryZone T) : Prop :=
  ∀ n (nodeData : NameNode), dataAt z.domains n = some nodeData → nodeData.entries ≠ []

omit [DomainTree T NameNode] in
theorem checkRRsetValid_eq_none_iff {z : MemoryZone T} {rrset : RRset Ptr} :
    z.checkRRsetValid rrset = none ↔ ¬(rrset.typ = .ns ∧ rrset.name.isWildCard = true) ∧
      rrset.name.isSubDomain z.origin = true := by
  unfold checkRRsetValid
  split_ifs <;> simp_all

variable {h : Objects} {z : MemoryZone T} {o : Outcome T} {p : Ptr}

theorem content_eq_none_iff (hz : z.WellFormed h) {n : Name} {t : RRType} :
    z.content h n t = none ↔ z.slots n t = none := by
  unfold content entryAt
  rcases eq_none_or_of_ne_nil (hz.stored n t) with hslot | ⟨q, hslot⟩
  · simp [hslot]
  · simp [hslot]

theorem accepts_of_no_data (hz : z.WellFormed h)
    (hvalid : z.checkRRsetValid (h.rrsets.load p) = none)
    (hdata : dataAt z.domains (h.rrsets.load p).name = none) :
    (z.content h).Accepts z.origin (h.value p) := by
  have hempty (t : RRType) : z.content h (h.rrsets.load p).name t = none := by
    rw [content_eq_none_iff hz, slots, hdata, bind_none]
  obtain ⟨hwildcard, hin⟩ := checkRRsetValid_eq_none_iff.mp hvalid
  exact ⟨hwildcard, hin, fun _ => hempty _, fun _ t _ => hempty t⟩

variable {nodeData : NameNode}

theorem accepts_iff (hz : z.WellFormed h) (hfilled : z.Filled)
    (hdata : dataAt z.domains (h.rrsets.load p).name = some nodeData) :
    (z.content h).Accepts z.origin (h.value p) ↔
      z.checkRRsetValid (h.rrsets.load p) = none ∧
      checkRRsetCouldBeAdded nodeData (h.rrsets.load p) = none := by
  have hlookup (t : RRType) :
      z.content h (h.rrsets.load p).name t = none ↔ nodeData.lookup t = none := by
    rw [content_eq_none_iff hz, slots, hdata, bind_some]
  rw [checkRRsetValid_eq_none_iff, checkRRsetCouldBeAdded_eq_none_iff (hfilled _ _ hdata),
    and_assoc]
  refine and_congr_right' (and_congr_right' (and_congr ?_ ?_))
  · exact imp_congr_right fun _ => hlookup _
  · exact imp_congr_right fun _ => forall₂_congr fun t _ => hlookup t

theorem releases_iff (hz : z.WellFormed h) {err : Option ZoneError}
    (hcheck : z.checkRRsetCouldBeDeleted h (h.rrsets.load p) = .ok err) :
    (z.content h).Releases z.origin (h.value p) ↔ err = none := by
  have hname : (h.value p).name = (h.rrsets.load p).name := rfl
  have htyp : (h.value p).typ = (h.rrsets.load p).typ := rfl
  unfold ZoneMap.Releases
  rw [hname, htyp]
  unfold checkRRsetCouldBeDeleted at hcheck
  split at hcheck
  · next hout => simp [← Except.ok.inj hcheck, hout]
  split at hcheck
  · next hout hapex =>
    split at hcheck
    · next hsoa => simp [← Except.ok.inj hcheck, hapex, hsoa]
    split at hcheck
    · next hsoa hns =>
      -- The apex NS RRset is compared with the rdatas of the deletion.
      simp only [originData, hz.attached] at hcheck
      cases hdata : dataAt z.domains z.origin with
      | none => simp [hdata] at hcheck
      | some nodeData =>
        have hlookup : z.slots z.origin .ns = nodeData.lookup .ns := by simp [slots, hdata]
        rcases eq_none_or_of_ne_nil (hlookup ▸ hz.stored z.origin .ns) with hslot | ⟨ns, hslot⟩
        · simp [hdata, hslot] at hcheck
        · have hentry : z.content h z.origin .ns = some (.ofRRset (h.value ns)) :=
            content_of_slots (hlookup.trans hslot)
          have hleft := map_rdatasDiff h (h.rrsets.load ns).rdatas (h.rrsets.load p).rdatas
          have hdiff : rdatasDiff h (h.rrsets.load ns).rdatas (h.rrsets.load p).rdatas = [] ↔
              difference (h.value ns).rdatas (h.value p).rdatas = [] := by
            rw [← map_eq_nil_iff, hleft]
            rfl
          simp only [hdata, hslot, hdiff] at hcheck
          have hin : (h.rrsets.load p).name.isSubDomain z.origin = true := by simpa using hout
          split at hcheck
          · next hnil => simp [← Except.ok.inj hcheck, hapex, hns, hentry, hnil]
          · next hcons =>
            have hne : RRType.ns ≠ .soa := by decide
            simp [← Except.ok.inj hcheck, hapex ▸ hin, hapex, hns, hentry, hcons, hne]
    · next hsoa hns => simp_all
  · next hout hapex => simp_all

theorem Filled.of_dataAt {z' : MemoryZone T} (hz : z.Filled)
    (hdata : ∀ n (nodeData : NameNode), dataAt z'.domains n = some nodeData →
      nodeData.entries ≠ [] ∨ dataAt z.domains n = some nodeData) : z'.Filled :=
  fun n nodeData hn => (hdata n nodeData hn).elim id (hz n nodeData)

variable [LawfulDomainTree T NameNode]

section

variable (hz : z.WellFormed h) (hfilled : z.Filled) (hok : z.addRRset h p = .ok o)

include hz hfilled hok

theorem content_addRRset_eq :
    o.zone.content o.objects = (z.content h).offer z.origin (h.value p) := by
  have hperform : z.perform h (.add p) = .ok o := hok
  have hsame : o.err ≠ none → ¬(z.content h).Accepts z.origin (h.value p) →
      o.zone.content o.objects = (z.content h).offer z.origin (h.value p) := fun herr hnot => by
    obtain ⟨err, herr⟩ := ne_none_iff_exists'.mp herr
    rw [ZoneMap.offer, if_neg hnot]
    exact content_perform_of_err hperform herr
  have hadded : o.err = none → (z.content h).Accepts z.origin (h.value p) →
      o.zone.content o.objects = (z.content h).offer z.origin (h.value p) := fun herr haccepts => by
    rw [ZoneMap.offer, if_pos haccepts]
    exact content_addRRset hz.allocated hok herr
  cases addRRset_effect hok with
  | invalid hvalid =>
    refine hsame (some_ne_none _) fun haccepts => ?_
    have hnone := checkRRsetValid_eq_none_iff.mpr ⟨haccepts.1, haccepts.2.1⟩
    exact some_ne_none _ (hvalid.symm.trans hnone)
  | created hvalid hdata => exact hadded rfl (accepts_of_no_data hz hvalid hdata)
  | refused hvalid hdata hcheck =>
    refine hsame (some_ne_none _) fun haccepts => ?_
    exact some_ne_none _ (hcheck.symm.trans ((accepts_iff hz hfilled hdata).mp haccepts).2)
  | @kept nodeData err hvalid hdata hcheck hmerge =>
    have haccepts := (accepts_iff hz hfilled hdata).mpr ⟨hvalid, hcheck⟩
    cases err with
    | none => exact hadded rfl haccepts
    | some err =>
      rw [ZoneMap.offer, if_pos haccepts, content_kept hdata hmerge]
      exact content_perform_of_err hperform rfl
  | stored hvalid hdata hcheck hmerge =>
    exact hadded rfl ((accepts_iff hz hfilled hdata).mpr ⟨hvalid, hcheck⟩)

theorem accepts_or_of_addRRset :
    (z.content h).Accepts z.origin (h.value p) ∨
      o.err = some .noEffectiveUpdate ∧ (h.value p).typ = .ns ∧ (h.value p).name.isWildCard = true ∨
      o.err = some .outOfZone ∨ o.err = some .cnameCoExistsWithOtherRR := by
  cases addRRset_effect hok with
  | invalid hvalid =>
    right
    unfold checkRRsetValid at hvalid
    split_ifs at hvalid with hcut
    · exact .inl ⟨hvalid.symm, hcut⟩
    · exact .inr (.inl hvalid.symm)
  | created hvalid hdata => exact .inl (accepts_of_no_data hz hvalid hdata)
  | refused hvalid hdata hcheck =>
    unfold checkRRsetCouldBeAdded at hcheck
    split_ifs at hcheck
    all_goals exact .inr (.inr (.inr hcheck.symm))
  | kept hvalid hdata hcheck | stored hvalid hdata hcheck =>
    exact .inl ((accepts_iff hz hfilled hdata).mpr ⟨hvalid, hcheck⟩)

end

theorem content_deleteRRset_eq (hz : z.WellFormed h) (hok : z.deleteRRset h p = .ok o) :
    o.zone.content o.objects = (z.content h).withdraw z.origin (h.value p) := by
  have hperform : z.perform h (.deleteRRset p) = .ok o := hok
  unfold ZoneMap.withdraw
  cases deleteRRset_effect hok with
  | refused hcheck => rw [if_neg (by simp [releases_iff hz hcheck])]
  | unknown hcheck hslot =>
    have hnone : z.content h (h.value p).name (h.value p).typ = none :=
      (content_eq_none_iff hz).mpr hslot
    rw [if_pos ((releases_iff hz hcheck).mpr rfl), MapOp.apply, ← hnone, ZoneMap.set_self]
  | dropped hcheck hdata hslot =>
    rw [if_pos ((releases_iff hz hcheck).mpr rfl)]
    exact content_perform hz.allocated hperform rfl

theorem insert_entries_ne_nil (nodeData : NameNode) (t : RRType) (slot : Option Ptr) :
    (nodeData.insert t slot).entries ≠ [] := by
  rw [AList.entries_insert]
  exact cons_ne_nil _ _

theorem Filled.dropType (hz : z.Filled) {n : Name} {t : RRType}
    (hdata : dataAt z.domains n = some nodeData) : (z.dropType n nodeData t).Filled := by
  refine hz.of_dataAt fun m left hm => ?_
  have hset := dataAt_setData (isSome_node_of_dataAt hdata) (nodeData.erase t)
  simp only [MemoryZone.dropType] at hm
  split at hm
  · rw [dataAt_deleteNode, hset] at hm
    split at hm
    · cases hm
    · exact .inr hm
  · next hlength =>
    rw [hset] at hm
    split at hm
    · cases hm
      exact .inl fun hnil => hlength (length_eq_zero_iff.mpr hnil)
    · exact .inr hm

theorem Filled.storeNode (hz : z.Filled) {r : RRset Ptr} {slot : Option Ptr} :
    (z.storeNode (insert z.domains r.name) r (nodeData.insert r.typ slot)).Filled := by
  refine hz.of_dataAt fun m left hm => ?_
  rw [dataAt_storeNode (by simp)] at hm
  split at hm
  · cases hm
    exact .inl (insert_entries_ne_nil nodeData r.typ slot)
  · exact .inr (by simpa using hm)

theorem Filled.perform {op : ZoneOp} (hz : z.Filled) (hok : z.perform h op = .ok o) :
    o.zone.Filled := by
  have hset {n : Name} {nodeData : NameNode} {left : NameNode} {t : RRType} {slot : Option Ptr}
      (hdata : dataAt z.domains n = some left) :
      ({ z with domains := setData z.domains n (nodeData.insert t slot) } :
        MemoryZone T).Filled := by
    refine hz.of_dataAt fun m left hm => ?_
    rw [dataAt_setData (isSome_node_of_dataAt hdata)] at hm
    split at hm
    · cases hm
      exact .inl (insert_entries_ne_nil nodeData t slot)
    · exact .inr hm
  cases op with
  | add p =>
    cases addRRset_effect hok with
    | invalid => exact hz
    | created | stored => exact hz.storeNode
    | refused | kept => exact hz.of_dataAt fun m left hm => .inr (by simpa using hm)
  | deleteRRset p =>
    cases deleteRRset_effect hok with
    | dropped hcheck hdata hslot => exact hz.dropType hdata
    | _ => exact hz
  | deleteRr p =>
    cases deleteRr_effect hok with
    | dropped hcheck hdata hslot => exact hz.dropType hdata
    | reduced hcheck hdata hslot => exact hset hdata
    | _ => exact hz
  | deleteDomain name =>
    cases deleteDomain_effect hok with
    | apex hname hdata => exact hset hdata
    | deleted hin hname hdata =>
      refine hz.of_dataAt fun m left hm => ?_
      rw [dataAt_deleteNode] at hm
      split at hm
      · cases hm
      · exact .inr hm
    | _ => exact hz

theorem Filled.clone (hz : z.Filled) : z.clone.Filled := by
  refine hz.of_dataAt fun m left hm => .inr ?_
  have hid : (NameNode.clone : NameNode → NameNode) = id := rfl
  simpa [MemoryZone.clone, newWithDomains, dataAt_clone, hid] using hm

end MemoryZone

end Vanguard.Zone
