import Vanguard.Zone.Refinement

namespace Vanguard.Zone

open Library MemoryZone

def SingleAt (origin n : Name) (t : RRType) (rdatas : List Rdata) : Prop :=
  (t = .soa → n = origin ∧ rdatas.length = 1) ∧ (t = .cname → rdatas.length = 1)

instance (origin n : Name) (t : RRType) (rdatas : List Rdata) :
    Decidable (SingleAt origin n t rdatas) :=
  inferInstanceAs (Decidable (_ ∧ _))

theorem singleAt_of_ne {origin n : Name} {t : RRType} {rdatas : List Rdata} (hsoa : t ≠ .soa)
    (hcname : t ≠ .cname) : SingleAt origin n t rdatas :=
  ⟨fun ht => absurd ht hsoa, fun ht => absurd ht hcname⟩

/-- Every SOA entry stands at the apex with one rdata, and every CNAME entry has one rdata. -/
def ZoneMap.Singletons (origin : Name) (m : ZoneMap) : Prop :=
  ∀ n t e, m n t = some e → SingleAt origin n t e.rdatas

def ZoneMap.GivesWay (m : ZoneMap) (r : RRset Rdata) : Prop :=
  r.typ = .soa → ∀ e ∈ m r.name .soa, newer e.rdatas r.rdatas = true

instance (m : ZoneMap) (r : RRset Rdata) : Decidable (m.GivesWay r) :=
  inferInstanceAs (Decidable (_ → _))

/-- A SOA stands at the apex with one rdata, and a CNAME has one rdata. -/
def MapOp.Single (origin : Name) (m : ZoneMap) : MapOp → Prop
  | .add r => m.GivesWay r → SingleAt origin r.name r.typ r.rdatas
  | _ => True

variable {origin : Name} {m : ZoneMap}

theorem ZoneMap.Singletons.set_iff (hm : m.Singletons origin) (n : Name) (t : RRType)
    (new : Option Entry) :
    (m.set n t new).Singletons origin ↔ ∀ e, new = some e → SingleAt origin n t e.rdatas := by
  constructor
  · intro hset e he
    exact hset n t e (by simp [ZoneMap.set, he])
  · intro hnew n' t' e hentry
    simp only [ZoneMap.set] at hentry
    split at hentry
    · next heq =>
      obtain ⟨rfl, rfl⟩ := heq
      exact hnew e hentry
    · exact hm n' t' e hentry

theorem ZoneMap.Singletons.add_iff (hm : m.Singletons origin) (r : RRset Rdata) :
    SingleAt origin r.name r.typ (Entry.add (m r.name r.typ) r).rdatas ↔
      (MapOp.add r).Single origin m := by
  simp only [MapOp.Single]
  by_cases hsoa : r.typ = .soa
  · cases hold : m r.name r.typ with
    | none =>
      have hgives : m.GivesWay r := fun _ e he => by
        rw [← hsoa, hold] at he
        cases he
      simp [Entry.add, hgives]
    | some old =>
      have hgives : m.GivesWay r ↔ newer old.rdatas r.rdatas = true := by
        rw [hsoa] at hold
        simp [ZoneMap.GivesWay, hsoa, hold]
      rw [hgives]
      by_cases hnewer : newer old.rdatas r.rdatas = true
      · simp [Entry.add, hsoa, hnewer]
      · have hkept := hm r.name r.typ old hold
        simpa [Entry.add, hsoa, hnewer] using hkept
  · have hgives : m.GivesWay r := fun htyp => absurd htyp hsoa
    rw [forall_prop_of_true hgives]
    by_cases hcname : r.typ = .cname
    · cases m r.name r.typ with
      | none => rfl
      | some old => rw [Entry.add, if_neg hsoa, if_pos hcname, Entry.ofRRset_rdatas]
    · exact iff_of_true (singleAt_of_ne hsoa hcname) (singleAt_of_ne hsoa hcname)

theorem SingleAt.remove {origin n : Name} {t : RRType} {e e' : Entry} {listed : List Rdata}
    (he : SingleAt origin n t e.rdatas) (hremove : e.remove listed = some e') :
    SingleAt origin n t e'.rdatas := by
  unfold Entry.remove at hremove
  split at hremove
  · cases hremove
  · next hne =>
    cases hremove
    have hlength (hone : e.rdatas.length = 1) : (difference e.rdatas listed).length = 1 := by
      have hpos := List.length_pos_iff.mpr hne
      have hle : (difference e.rdatas listed).length ≤ e.rdatas.length := List.length_filter_le _ _
      omega
    exact ⟨fun ht => ⟨(he.1 ht).1, hlength (he.1 ht).2⟩, fun ht => hlength (he.2 ht)⟩

theorem ZoneMap.Singletons.apply_iff (hm : m.Singletons origin) (op : MapOp) :
    (op.apply origin m).Singletons origin ↔ op.Single origin m := by
  cases op with
  | add r =>
    simp only [MapOp.apply, hm.set_iff, Option.some.injEq, forall_eq', hm.add_iff]
  | deleteRRset n t => simp [MapOp.apply, hm.set_iff, MapOp.Single]
  | deleteRr r =>
    simp only [MapOp.apply, hm.set_iff, MapOp.Single, iff_true]
    intro e' hremove
    obtain ⟨e, hold, hremove⟩ := Option.bind_eq_some_iff.mp hremove
    exact (hm _ _ e hold).remove hremove
  | deleteDomain n =>
    simp only [MapOp.Single, iff_true]
    intro n' t e hentry
    simp only [MapOp.apply] at hentry
    split at hentry
    · split at hentry
      · exact hm n' t e hentry
      · cases hentry
    · exact hm n' t e hentry

namespace MemoryZone

variable {T : Type} [DomainTree T NameNode]

/-- A SOA or CNAME RRset that `addRRset` stores is single, and a SOA stands at the apex. -/
def AddsSingle (h : Objects) (z : MemoryZone T) : ZoneOp → Prop
  | .add p => z.Admits (h.rrsets.load p) → (MapOp.add (h.value p)).Single z.origin (z.content h)
  | _ => True

instance (h : Objects) (z : MemoryZone T) (op : ZoneOp) : Decidable (z.AddsSingle h op) :=
  match op with
  | .add _ => inferInstanceAs (Decidable (_ → _ → _))
  | .deleteRRset _ | .deleteRr _ | .deleteDomain _ => .isTrue trivial

variable [LawfulDomainTree T NameNode] {h : Objects} {z : MemoryZone T} {o : Outcome T}

theorem admits_iff_of_addRRset {p : Ptr} (hok : z.addRRset h p = .ok o)
    (htyp : (h.rrsets.load p).typ = .soa ∨ (h.rrsets.load p).typ = .cname) :
    z.Admits (h.rrsets.load p) ↔ o.err = none := by
  unfold Admits
  cases addRRset_effect hok with
  | invalid hvalid => simp [hvalid]
  | created hvalid hdata => simp [hvalid, hdata]
  | refused hvalid hdata hcheck => simp [hdata, hcheck]
  | stored hvalid hdata hcheck hmerge => simp [hvalid, hdata, hcheck]
  | kept hvalid hdata hcheck hmerge =>
    cases mergeRRset_effect hmerge with
    | olderSoa => simp [hvalid, hdata, hcheck]
    | duplicate hsoa hcname => exact absurd htyp (not_or.mpr ⟨hsoa, hcname⟩)

omit [LawfulDomainTree T NameNode] in
theorem mergeable_of_givesWay {p : Ptr} {nodeData : NameNode}
    (hdata : dataAt z.domains (h.rrsets.load p).name = some nodeData)
    (htyp : (h.rrsets.load p).typ = .soa ∨ (h.rrsets.load p).typ = .cname)
    (hgives : (z.content h).GivesWay (h.value p)) : Mergeable h nodeData p := by
  refine ⟨fun hsoa old hold => ?_, fun hsoa hcname => absurd htyp (not_or.mpr ⟨hsoa, hcname⟩)⟩
  have hslot : z.slots (h.rrsets.load p).name .soa = some (some old) := by
    rw [slots, hdata, Option.bind_some]
    exact Option.join_eq_some_iff.mp hold
  have hnewer := hgives hsoa _ (content_of_slots hslot)
  unfold newer at hnewer
  split at hnewer
  · next a b ha hb =>
    have ha' : (h.value old).rdatas.head? = some (.soa a) := ha
    simp [StartsWithSoa, ha', hb, Rdata.isSoa]
  · cases hnewer

theorem addsSingle_of_error {op : ZoneOp} {e : Panic} (herror : z.perform h op = .error e) :
    z.AddsSingle h op := by
  cases op with
  | add p =>
    intro hadmits hgives
    by_cases htyp : (h.rrsets.load p).typ = .soa ∨ (h.rrsets.load p).typ = .cname
    · have hreadable : z.Readable h (.add p) := fun _ nodeData hdata =>
        mergeable_of_givesWay hdata htyp hgives
      obtain ⟨o, hok⟩ := perform_returns_iff.mpr hreadable
      cases herror.symm.trans hok
    · obtain ⟨hsoa, hcname⟩ := not_or.mp htyp
      exact singleAt_of_ne hsoa hcname
  | _ => trivial

theorem singletons_perform_iff {op : ZoneOp} (hz : z.Allocated h) (hok : z.perform h op = .ok o)
    (hsingle : (z.content h).Singletons z.origin) :
    (o.zone.content o.objects).Singletons o.zone.origin ↔ z.AddsSingle h op := by
  rw [content_perform_eq hz hok, perform_origin hok]
  cases op with
  | add p =>
    by_cases htyp : (h.rrsets.load p).typ = .soa ∨ (h.rrsets.load p).typ = .cname
    · have hadmits := admits_iff_of_addRRset hok htyp
      simp only [AddsSingle, hadmits]
      cases herr : o.err with
      | none => simpa [ZoneOp.value] using hsingle.apply_iff (.add (h.value p))
      | some err => simpa using hsingle
    · obtain ⟨hsoa, hcname⟩ := not_or.mp htyp
      have hop : (MapOp.add (h.value p)).Single z.origin (z.content h) :=
        fun _ => singleAt_of_ne hsoa hcname
      refine iff_of_true ?_ fun _ => hop
      split
      · exact hsingle
      · exact (hsingle.apply_iff _).mpr hop
  | _ =>
    refine iff_of_true ?_ trivial
    split
    · exact hsingle
    · exact (hsingle.apply_iff _).mpr trivial

end MemoryZone

variable {T : Type} [DomainTree T NameNode] [LawfulDomainTree T NameNode]

/-- SOA and CNAME RRsets have one rdata exactly if every one that is stored as it is does. -/
theorem singletons_iff_along (h : Objects) (origin : Name) (ops : List ZoneOp)
    (hops : ∀ op ∈ ops, op.Allocated h) :
    (∀ s, Reached ZoneState.step ⟨h, (newMemoryZone origin : MemoryZone T), []⟩ ops s →
      (s.zone.content s.objects).Singletons s.zone.origin) ↔
    Along ZoneState.step (fun s op => s.zone.AddsSingle s.objects op)
      ⟨h, (newMemoryZone origin : MemoryZone T), []⟩ ops := by
  have hnew : (newMemoryZone origin : MemoryZone T).WellFormed h :=
    MemoryZone.WellFormed.newMemoryZone h origin
  refine reached_iff_along_of_subset
    (fun s : ZoneState T => s.zone.Allocated s.objects ∧ ∀ op ∈ ops, op.Allocated s.objects)
    (fun s => (s.zone.content s.objects).Singletons s.zone.origin) ops ?_ ?_ ops
    (List.Subset.refl ops) ⟨hnew.allocated, hops⟩ ?_
  · rintro s op hop s' ⟨hz, hall⟩ hsingle hstep
    obtain ⟨o, hok, rfl⟩ := ZoneState.step_eq_ok.mp hstep
    have hext := perform_extends hok
    exact ⟨⟨perform_allocated hz (hall op hop) hok,
      fun op' hop' => (hall op' hop').mono hext⟩, singletons_perform_iff hz hok hsingle⟩
  · intro s op _ e _ _ hstep
    exact addsSingle_of_error (ZoneState.step_eq_error.mp hstep)
  · intro n t e hentry
    simp [MemoryZone.content, MemoryZone.slots, newMemoryZone, newWithDomains] at hentry

/-- SOAs and CNAMEs of one and of two rdatas, and a SOA below the apex. -/
def singletonObjects : Objects := .ofLists
  [⟨["example"], .soa, .internet, 300, [0]⟩, ⟨["example"], .soa, .internet, 300, [0, 1]⟩,
    ⟨["b", "example"], .soa, .internet, 300, [0]⟩, ⟨["c", "example"], .cname, .internet, 300, [2]⟩,
    ⟨["c", "example"], .cname, .internet, 300, [2, 3]⟩]
  [.soa ⟨["ns", "example"], ["root", "example"], 1, 7200, 3600, 86400, 300⟩,
    .soa ⟨["ns", "example"], ["root", "example"], 5, 7200, 3600, 86400, 300⟩,
    .cname ["www", "example"], .cname ["web", "example"]]

/-- Single rdatas, and a SOA of two that is not newer and is passed over. -/
theorem example_adds_single :
    (∀ op ∈ ([.add 0, .add 3, .add 1] : List ZoneOp), op.Allocated singletonObjects) ∧
    ∀ s, Reached ZoneState.step
        (⟨singletonObjects, newMemoryZone ["example"], []⟩ : ZoneState (ReferenceTree NameNode))
        [.add 0, .add 3, .add 1] s →
      (s.zone.content s.objects).Singletons s.zone.origin :=
  ⟨by decide, (singletons_iff_along singletonObjects ["example"] [.add 0, .add 3, .add 1]
    (by decide)).mpr (by decide)⟩

/-- With a SOA of two rdatas `increaseSerialNumber` panics. -/
theorem example_adds_several :
    ∃ s, run ZoneState.step
        (⟨singletonObjects, newMemoryZone ["example"], []⟩ : ZoneState (ReferenceTree NameNode))
        [.add 1, .add 2, .add 4] = .ok s ∧
      s.results = [none, none, none] ∧
      (s.zone.content s.objects ["example"] .soa).map (·.rdatas.length) = some 2 ∧
      (s.zone.content s.objects ["b", "example"] .soa).map (·.rdatas.length) = some 1 ∧
      (s.zone.content s.objects ["c", "example"] .cname).map (·.rdatas.length) = some 2 ∧
      s.zone.increaseSerialNumber s.objects = .error .zoneSoaIsNotOne :=
  ⟨_, rfl, rfl, by decide, by decide, by decide, rfl⟩

end Vanguard.Zone
