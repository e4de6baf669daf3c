import Vanguard.Auth.Update
import Vanguard.Zone.Panics
import Vanguard.Zone.Serial

namespace Vanguard

open Library List Zone.MemoryZone

namespace Auth

open Zone

def setsSoa (origin : Name) (r : RRset Rdata) : Bool :=
  r.cls = .internet && r.typ = .soa && r.name = origin

def newestSerial (origin : Name) (old : UInt32) (rrsets : List (RRset Rdata)) : UInt32 :=
  rrsets.foldl
    (fun newest r =>
      match serialOf r.rdatas with
      | some serial => if setsSoa origin r && newest < serial then serial else newest
      | none => newest)
    old

def SoaAdvances (origin : Name) (old : UInt32) (rrsets : List (RRset Rdata)) : Prop :=
  (∃ r ∈ rrsets, r.typ = .soa) → SerialGt (newestSerial origin old rrsets) old

instance (origin : Name) (old : UInt32) (rrsets : List (RRset Rdata)) :
    Decidable (SoaAdvances origin old rrsets) := inferInstanceAs (Decidable (_ → _))

variable {T Z : Type} [DomainTree T NameNode] [LawfulDomainTree T NameNode] [NameTree Z Ptr]

variable {s s' : Progress T} {p : Ptr}

omit [LawfulDomainTree T NameNode] in
theorem updateRRset_eq_ok (hstep : updateRRset s p = .ok s') :
    ∃ o, s.tmp.perform s.objects (updateOp p (s.objects.rrsets.load p)) = .ok o ∧
      ((o.err = none ∧ s' = ⟨o.objects, o.zone,
          s.explicitUpdateSOA || (s.objects.rrsets.load p).typ = .soa, true⟩) ∨
        (o.err = some .noEffectiveUpdate ∧
          s' = { s with objects := o.objects, tmp := o.zone })) := by
  unfold updateRRset at hstep
  dsimp only at hstep
  split at hstep
  · cases hstep
  · next o hok =>
    refine ⟨o, hok, ?_⟩
    split at hstep
    · next herr =>
      cases hstep
      exact .inl ⟨herr, rfl⟩
    · next herr =>
      cases hstep
      exact .inr ⟨herr, rfl⟩
    · cases hstep

structure Follows (s : Progress T) (rrsets : List (RRset Rdata)) (old : UInt32)
    (s' : Progress T) : Prop where
  extend : s.objects.Extends s'.objects
  allocated : s'.tmp.Allocated s'.objects
  origin : s'.tmp.origin = s.tmp.origin
  serial : s'.tmp.serial s'.objects = some (newestSerial s.tmp.origin old rrsets)
  explicit : s'.explicitUpdateSOA = (s.explicitUpdateSOA || rrsets.any (fun r => r.typ = .soa))
  content : s'.hasRRModified = false →
    s.hasRRModified = false ∧ s'.tmp.content s'.objects = s.tmp.content s.objects

variable {old : UInt32} {origin : Name}

theorem serialOf_add {e : Entry} (hold : serialOf e.rdatas = some old) {r : RRset Rdata}
    (hsets : setsSoa origin r = true) :
    serialOf (Entry.add (some e) r).rdatas = some (newestSerial origin old [r]) := by
  have htyp : r.typ = .soa := by
    simp only [setsSoa, Bool.and_eq_true, decide_eq_true_eq] at hsets
    exact hsets.1.2
  have hhead : ∃ soa, e.rdatas.head? = some (.soa soa) ∧ soa.serial = old := by
    unfold serialOf at hold
    split at hold
    · next soa hsoa => exact ⟨soa, hsoa, Option.some.inj hold⟩
    · cases hold
  obtain ⟨soa, hsoa, rfl⟩ := hhead
  have hnewer : newer e.rdatas r.rdatas = true ↔
      ∃ new, serialOf r.rdatas = some new ∧ soa.serial < new := by
    unfold newer serialOf
    rw [hsoa]
    cases r.rdatas.head? with
    | none => simp
    | some rdata => cases rdata <;> simp
  simp only [Entry.add, htyp, if_true, newestSerial, foldl_cons, foldl_nil, hsets, Bool.true_and]
  by_cases hlt : newer e.rdatas r.rdatas = true
  · obtain ⟨new, hnew, hless⟩ := hnewer.mp hlt
    simp [hlt, hnew, hless]
  · rw [if_neg hlt, hold]
    cases hnew : serialOf r.rdatas with
    | none => rfl
    | some new =>
      have hnot : ¬soa.serial < new := fun hless => hlt (hnewer.mpr ⟨new, hnew, hless⟩)
      simp [hnot]

theorem newestSerial_of_not {r : RRset Rdata} (hsets : setsSoa origin r = false) :
    newestSerial origin old [r] = old := by
  simp only [newestSerial, foldl_cons, foldl_nil, hsets]
  split <;> simp

theorem updateOp_eq_add {p q : Ptr} {r : RRset Ptr} (hop : updateOp p r = .add q) :
    p = q ∧ r.cls = .internet := by
  unfold updateOp at hop
  split_ifs at hop with hcls
  exact ⟨ZoneOp.add.inj hop, hcls⟩

variable {h : Objects}

theorem serial_perform {z : MemoryZone T} {o : Outcome T} (hz : z.Allocated h)
    (hold : z.serial h = some old) (hok : z.perform h (updateOp p (h.rrsets.load p)) = .ok o)
    (herr : o.err = none) :
    o.zone.serial o.objects = some (newestSerial z.origin old [h.value p]) := by
  by_cases hsets : setsSoa z.origin (h.value p) = true
  · have hall := hsets
    simp only [setsSoa, Bool.and_eq_true, decide_eq_true_eq] at hall
    have hop : updateOp p (h.rrsets.load p) = .add p := if_pos hall.1.1
    rw [hop] at hok
    obtain ⟨e, he, hserial⟩ : ∃ e, z.content h z.origin .soa = some e ∧
        serialOf e.rdatas = some old := Option.bind_eq_some_iff.mp hold
    rw [MemoryZone.serial, perform_origin hok, content_soa_add hz hok herr hall.2 hall.1.2, he]
    exact serialOf_add hserial hsets
  · have hother : ∀ q, updateOp p (h.rrsets.load p) = .add q →
        ¬((h.value q).name = z.origin ∧ (h.value q).typ = .soa) := by
      intro q hop htarget
      obtain ⟨rfl, hcls⟩ := updateOp_eq_add hop
      have hcls' : (h.value p).cls = .internet := hcls
      exact hsets (by simp [setsSoa, htarget.1, htarget.2, hcls'])
    rw [MemoryZone.serial, perform_origin hok,
      content_soa_perform hz hok hother, newestSerial_of_not (by simpa using hsets)]
    exact hold

theorem allocated_updateOp (hp : p < h.rrsets.next) (r : RRset Ptr) :
    (updateOp p r).Allocated h := by
  unfold updateOp
  split_ifs
  all_goals first | exact hp | trivial

theorem Follows.round (hz : s.tmp.Allocated s.objects) (hp : p < s.objects.rrsets.next)
    (hold : s.tmp.serial s.objects = some old) (hstep : updateRRset s p = .ok s') :
    Follows s [s.objects.value p] old s' := by
  obtain ⟨o, hok, hcase⟩ := updateRRset_eq_ok hstep
  have hext := perform_extends hok
  have halloc := perform_allocated hz (allocated_updateOp hp _) hok
  have horigin := perform_origin hok
  rcases hcase with ⟨herr, rfl⟩ | ⟨herr, rfl⟩
  · refine ⟨hext, halloc, horigin, serial_perform hz hold hok herr, ?_, nofun⟩
    simp [Objects.value, RRset.map]
  · -- Only an NS RRset is passed over, and that one is no SOA.
    have hcontent := content_perform_of_err hok herr
    obtain ⟨q, hop, hvalid⟩ := perform_noEffectiveUpdate hok herr
    obtain ⟨rfl, -⟩ := updateOp_eq_add hop
    have hns : (s.objects.value p).typ = .ns := checkRRsetValid_noEffectiveUpdate hvalid
    refine ⟨hext, halloc, horigin, ?_, ?_, fun hmod => ⟨hmod, hcontent⟩⟩
    · rw [newestSerial_of_not (by simp [setsSoa, hns, RRType.ns, RRType.soa]), ← hold]
      simp only [MemoryZone.serial, horigin, hcontent]
    · simp [hns, RRType.ns, RRType.soa]

variable {rrsets : List Ptr}

theorem Follows.loop (hz : s.tmp.Allocated s.objects)
    (hlist : ∀ p ∈ rrsets, p < s.objects.rrsets.next) (hold : s.tmp.serial s.objects = some old)
    (hrun : run updateRRset s rrsets = .ok s') : Follows s (rrsets.map s.objects.value) old s' := by
  induction rrsets generalizing s old with
  | nil =>
    cases hrun
    exact ⟨.refl _, hz, rfl, hold, by simp, fun hmod => ⟨hmod, rfl⟩⟩
  | cons p rrsets ih =>
    obtain ⟨mid, hmid, hrest⟩ := run_cons_ok.mp hrun
    have hround := Follows.round hz (hlist p mem_cons_self) hold hmid
    have hlater : ∀ q ∈ rrsets, q < s.objects.rrsets.next :=
      fun q hq => hlist q (mem_cons_of_mem _ hq)
    have hrest' := ih hround.allocated
      (fun q hq => lt_of_lt_of_le (hlater q hq) hround.extend.rrsets.next_le) hround.serial hrest
    have hvalues : rrsets.map mid.objects.value = rrsets.map s.objects.value :=
      map_congr_left fun q hq => hround.extend.value_eq (hlater q hq)
    rw [hvalues] at hrest'
    refine ⟨hround.extend.trans hrest'.extend, hrest'.allocated, hrest'.origin.trans hround.origin,
      hround.origin ▸ hrest'.serial, ?_, fun hmod => ?_⟩
    · rw [hrest'.explicit, hround.explicit]
      simp [Bool.or_assoc]
    · obtain ⟨hmid', hcontent'⟩ := hrest'.content hmod
      obtain ⟨hmod', hcontent⟩ := hround.content hmid'
      exact ⟨hmod', hcontent'.trans hcontent⟩

theorem newestSerial_of_no_soa {rrsets : List (RRset Rdata)} (hnone : ¬∃ r ∈ rrsets, r.typ = .soa) :
    newestSerial origin old rrsets = old := by
  induction rrsets with
  | nil => rfl
  | cons r rrsets ih =>
    have hr : setsSoa origin r = false := by
      have hne : r.typ ≠ .soa := fun htyp => hnone ⟨r, mem_cons_self, htyp⟩
      simp [setsSoa, hne]
    change newestSerial origin (newestSerial origin old [r]) rrsets = old
    rw [newestSerial_of_not hr]
    exact ih fun ⟨r', hmem, htyp⟩ => hnone ⟨r', mem_cons_of_mem _ hmem, htyp⟩

omit [LawfulDomainTree T NameNode] in
theorem handleDynamicRRsets_eq_ok {aclFind : String → List UInt8 → Bool} {h h' : Objects}
    {ds ds' : AuthDataSource T Z} {viewName : String} {zoneName : Name}
    {clientIP : Option (List UInt8)} {z : Ptr}
    (hzone : ds.getZone viewName zoneName = .exactMatch z)
    (hok : handleDynamicRRsets aclFind h ds viewName zoneName clientIP rrsets = .ok (h', ds', none))
    :
    ∃ u, updateZone h (ds.zones.load z).zone rrsets = .ok u ∧ h' = u.objects ∧
      ds' = { ds with zones := ds.zones.write z { ds.zones.load z with zone := u.zone } } ∧
      u.err = none := by
  unfold handleDynamicRRsets AuthDataSource.getUpdator at hok
  simp only [hzone] at hok
  cases hallowed : (ds.zones.load z).getUpdator aclFind clientIP false with
  | false => simp [hallowed] at hok
  | true =>
    simp only [hallowed, if_true] at hok
    cases hu : updateZone h (ds.zones.load z).zone rrsets with
    | error e => simp [hu] at hok
    | ok u =>
      simp only [hu, Except.ok.injEq, Prod.mk.injEq] at hok
      exact ⟨u, rfl, hok.1.symm, hok.2.1.symm, hok.2.2⟩

/-- The transaction of the whole loop was committed, its serial increased if there was no SOA. -/
theorem updateZone_committed {dz : DynamicZone T} {u : Updated T}
    (hok : updateZone h dz rrsets = .ok u) (herr : u.err = none)
    (hchanged : u.zone.memoryZone.content u.objects ≠ dz.memoryZone.content h)
    (hz : dz.memoryZone.Allocated h) (hlist : ∀ p ∈ rrsets, p < h.rrsets.next)
    (hold : dz.memoryZone.serial h = some old) :
    ∃ s : Progress T, Follows ⟨h, dz.begin.2, false, false⟩ (rrsets.map h.value) old s ∧
      u.zone.memoryZone = s.tmp ∧
      (if s.explicitUpdateSOA then u.objects = s.objects
        else s.tmp.increaseSerialNumber s.objects = .ok u.objects) := by
  have hslots : dz.begin.2.slots = dz.memoryZone.slots := slots_clone _
  have hz' : dz.begin.2.Allocated h := fun n t p hslot => hz n t p (hslots ▸ hslot)
  have hold' : dz.begin.2.serial h = some old := by
    rw [← hold, MemoryZone.serial, MemoryZone.serial, MemoryZone.content, hslots]
    rfl
  cases updateZone_effect hok with
  | refused hrun => cases herr
  | idle hrun hmodified =>
    -- Nothing had an effect, so the objects were at most extended.
    have hext := (Follows.loop hz' hlist hold' hrun).extend
    exact absurd (content_of_extends hext hz) hchanged
  | @committed s objects hrun hmodified hserial =>
    have hcommit : (dz.begin.1.commit s.tmp).2 = none := by simpa using herr
    exact ⟨s, Follows.loop hz' hlist hold' hrun, (DynamicZone.commit_of_none hcommit).2, hserial⟩

/-- The serial grows exactly if the SOAs of the update, if any, are an advance. -/
theorem update_serialGt_iff (aclFind : String → List UInt8 → Bool) {h h' : Objects}
    {ds ds' : AuthDataSource T Z} {viewName : String} {zoneName : Name}
    {clientIP : Option (List UInt8)} {rrsets : List Ptr}
    (hok : handleDynamicRRsets aclFind h ds viewName zoneName clientIP rrsets = .ok (h', ds', none))
    {z : Ptr} (hzone : ds.getZone viewName zoneName = .exactMatch z)
    (hz : (ds.zones.load z).zone.memoryZone.Allocated h)
    (hlist : ∀ p ∈ rrsets, p < h.rrsets.next) {old : UInt32}
    (hold : (ds.zones.load z).zone.memoryZone.serial h = some old)
    (hchanged : ∃ n t, t ≠ .soa ∧ (ds'.zones.load z).zone.memoryZone.content h' n t ≠
      (ds.zones.load z).zone.memoryZone.content h n t) :
    (∃ new, (ds'.zones.load z).zone.memoryZone.serial h' = some new ∧ SerialGt new old) ↔
      SoaAdvances (ds.zones.load z).zone.memoryZone.origin old (rrsets.map h.value) := by
  obtain ⟨u, hu, rfl, rfl, herr⟩ := handleDynamicRRsets_eq_ok hzone hok
  simp only [Heap.load_write_self] at hchanged ⊢
  have hcontent : u.zone.memoryZone.content u.objects ≠
      (ds.zones.load z).zone.memoryZone.content h := by
    obtain ⟨n, t, -, hne⟩ := hchanged
    exact fun heq => hne (by rw [heq])
  obtain ⟨s, hs, hinstalled, hobjects⟩ := updateZone_committed hu herr hcontent hz hlist hold
  rw [hinstalled]
  have hexplicit : s.explicitUpdateSOA = true ↔ ∃ r ∈ rrsets.map h.value, r.typ = .soa := by
    simp [hs.explicit]
  by_cases hsoa : s.explicitUpdateSOA = true
  · rw [if_pos hsoa] at hobjects
    rw [hobjects, hs.serial]
    have hlisted := hexplicit.mp hsoa
    constructor
    · rintro ⟨new, hnew, hgt⟩ -
      exact Option.some.inj hnew ▸ hgt
    · exact fun hadvances => ⟨_, rfl, hadvances hlisted⟩
  · rw [if_neg hsoa] at hobjects
    have hlisted : ¬∃ r ∈ rrsets.map h.value, r.typ = .soa := fun hr => hsoa (hexplicit.mpr hr)
    obtain ⟨serial, hbefore, hafter⟩ := serial_increaseSerialNumber hobjects
    obtain rfl : serial = old := by
      rw [hs.serial, newestSerial_of_no_soa hlisted] at hbefore
      exact (Option.some.inj hbefore).symm
    exact ⟨fun _ hr => absurd hr hlisted, fun _ => ⟨_, hafter, serialGt_add_one _⟩⟩

def exampleDataSource : AuthDataSource (ReferenceTree NameNode) (NameTable Ptr) where
  viewZones view := if view = "default" then some ⟨[(["example"], 0)]⟩ else none
  zones := ⟨fun _ => ⟨⟨exampleZone, false⟩, [], []⟩, 1⟩

/-- An update that adds an address and a SOA with serial 5 to the zone with serial 1. -/
theorem example_update_advances :
    ∃ h' ds', handleDynamicRRsets (fun _ _ => false) exampleObjects exampleDataSource "default"
        ["example"] none [5, 2] = .ok (h', ds', none) ∧
      ∃ new, (ds'.zones.load 0).zone.memoryZone.serial h' = some new ∧ SerialGt new 1 := by
  obtain ⟨h', ds', hok, hchanged⟩ : ∃ h' ds', handleDynamicRRsets (fun _ _ => false)
      exampleObjects exampleDataSource "default" ["example"] none [5, 2] = .ok (h', ds', none) ∧
      (ds'.zones.load 0).zone.memoryZone.content h' ["www", "example"] .a ≠
        (exampleDataSource.zones.load 0).zone.memoryZone.content exampleObjects
          ["www", "example"] .a := ⟨_, _, rfl, by decide⟩
  have hlist : ∀ p ∈ [5, 2], p < exampleObjects.rrsets.next := by decide
  have hold : (exampleDataSource.zones.load 0).zone.memoryZone.serial exampleObjects = some 1 := by
    decide
  have hadvances : SoaAdvances ["example"] 1 ([5, 2].map exampleObjects.value) := by decide
  exact ⟨h', ds', hok, (update_serialGt_iff (fun _ _ => false) hok rfl
    exampleZone_wellFormed.allocated hlist hold ⟨_, .a, by decide, hchanged⟩).mpr hadvances⟩

/-- An address added together with the present SOA comes under the old serial. -/
theorem example_update_keeps_serial :
    ∃ h' ds', handleDynamicRRsets (fun _ _ => false) exampleObjects exampleDataSource "default"
        ["example"] none [0, 2] = .ok (h', ds', none) ∧
      (exampleDataSource.zones.load 0).zone.memoryZone.content exampleObjects
        ["www", "example"] .a = none ∧
      (ds'.zones.load 0).zone.memoryZone.content h' ["www", "example"] .a =
        some ⟨300, [.a [1, 1, 1, 1], .a [2, 2, 2, 2]]⟩ ∧
      (exampleDataSource.zones.load 0).zone.memoryZone.serial exampleObjects = some 1 ∧
      (ds'.zones.load 0).zone.memoryZone.serial h' = some 1 ∧ ¬SerialGt 1 1 :=
  ⟨_, _, rfl, by decide, by decide, by decide, by decide, by decide⟩

end Auth

end Vanguard
