import Vanguard.Zone.Content
import Vanguard.Zone.Panics
import Vanguard.Zone.ReferenceTree

namespace Vanguard.Zone

open Library List Option MemoryZone

def SoaRdatas (rdatas : List Rdata) : Prop := rdatas ≠ [] ∧ ∀ r ∈ rdatas, r.isSoa = true

instance (rdatas : List Rdata) : Decidable (SoaRdatas rdatas) := inferInstanceAs (Decidable (_ ∧ _))

def ZoneMap.SoaTyped (m : ZoneMap) : Prop := ∀ n e, m n .soa = some e → SoaRdatas e.rdatas

def MapOp.SoaTyped : MapOp → Prop
  | .add r => r.typ = .soa → SoaRdatas r.rdatas
  | _ => True

instance (op : MapOp) : Decidable op.SoaTyped :=
  match op with
  | .add r => inferInstanceAs (Decidable (r.typ = .soa → SoaRdatas r.rdatas))
  | .deleteRRset _ _ | .deleteRr _ | .deleteDomain _ => .isTrue trivial

theorem SoaRdatas.remove {e e' : Entry} {listed : List Rdata} (hsoa : SoaRdatas e.rdatas)
    (hremove : e.remove listed = some e') : SoaRdatas e'.rdatas := by
  unfold Entry.remove at hremove
  split at hremove
  · cases hremove
  · next hne =>
    cases hremove
    exact ⟨hne, fun r hr => hsoa.2 r (mem_of_mem_filter hr)⟩

theorem ZoneMap.SoaTyped.apply {origin : Name} {m : ZoneMap} {op : MapOp} (hm : m.SoaTyped)
    (hop : op.SoaTyped) : (op.apply origin m).SoaTyped := by
  intro n e hentry
  cases op with
  | deleteRRset n' t =>
    simp only [MapOp.apply, ZoneMap.set] at hentry
    split at hentry
    · cases hentry
    · exact hm n e hentry
  | deleteDomain n' =>
    simp only [MapOp.apply] at hentry
    split at hentry
    · split at hentry
      · exact hm n e hentry
      · cases hentry
    · exact hm n e hentry
  | deleteRr r =>
    simp only [MapOp.apply, ZoneMap.set] at hentry
    split at hentry
    · next heq =>
      obtain ⟨old, hold, hremove⟩ := bind_eq_some_iff.mp hentry
      exact (hm r.name old (by rw [← hold, heq.2])).remove hremove
    · exact hm n e hentry
  | add r =>
    simp only [MapOp.apply, ZoneMap.set] at hentry
    split at hentry
    · next heq =>
      cases hentry
      have htyp : r.typ = .soa := heq.2.symm
      cases hold : m r.name r.typ with
      | none => exact hop htyp
      | some old =>
        simp only [Entry.add, htyp, if_true]
        split
        · exact hop htyp
        · exact hm r.name old (by rw [← hold, htyp])
    · exact hm n e hentry

variable {h : Objects}

theorem SoaRdatas.startsWithSoa {p : Ptr} (hsoa : SoaRdatas (h.value p).rdatas) :
    StartsWithSoa h p := by
  obtain ⟨hne, hall⟩ := hsoa
  obtain ⟨r, rest, hrdatas⟩ := exists_cons_of_ne_nil hne
  simpa [StartsWithSoa, hrdatas] using hall r (by simp [hrdatas])

namespace MemoryZone

variable {T : Type} [DomainTree T NameNode]

/-- A zone no call can make the code panic on, as long as its apex is complete. -/
structure WellFormed (h : Objects) (z : MemoryZone T) : Prop where
  attached : z.originNode = .attached
  allocated : z.Allocated h
  stored : ∀ n t, z.slots n t ≠ some none
  soaTyped : (z.content h).SoaTyped

def HasApex (h : Objects) (z : MemoryZone T) : Prop :=
  (z.content h z.origin .soa).isSome = true ∧ (z.content h z.origin .ns).isSome = true

instance (h : Objects) (z : MemoryZone T) : Decidable (z.HasApex h) :=
  inferInstanceAs (Decidable (_ ∧ _))

end MemoryZone

def ZoneOp.WellFormed (h : Objects) (op : ZoneOp) : Prop := op.Allocated h ∧ (op.value h).SoaTyped

instance (h : Objects) (op : ZoneOp) : Decidable (op.WellFormed h) :=
  inferInstanceAs (Decidable (_ ∧ _))

theorem ZoneOp.WellFormed.mono {h h' : Objects} (hext : h.Extends h') {op : ZoneOp}
    (hop : op.WellFormed h) : op.WellFormed h' :=
  ⟨hop.1.mono hext, ZoneOp.value_of_extends hext hop.1 ▸ hop.2⟩

namespace MemoryZone

variable {T : Type} [DomainTree T NameNode] [LawfulDomainTree T NameNode] {h : Objects}
  {z : MemoryZone T} {op : ZoneOp} {o : Outcome T}

omit [LawfulDomainTree T NameNode] in
theorem slots_of_content {n : Name} {t : RRType} (hentry : (z.content h n t).isSome = true) :
    ∃ p, z.slots n t = some (some p) := by
  unfold content entryAt at hentry
  match hslot : z.slots n t with
  | none | some none => simp [hslot] at hentry
  | some (some p) => exact ⟨p, rfl⟩

variable {p : Ptr}

omit [LawfulDomainTree T NameNode] in
theorem content_of_slots {n : Name} {t : RRType} (hslot : z.slots n t = some (some p)) :
    z.content h n t = some (.ofRRset (h.value p)) := by
  simp [content, entryAt, hslot]

omit [LawfulDomainTree T NameNode] in
theorem WellFormed.readable_add (hz : z.WellFormed h) (hop : (ZoneOp.add p).WellFormed h) :
    z.Readable h (.add p) := by
  intro _ nodeData hdata
  have hslots (k : RRType) : z.slots (h.rrsets.load p).name k = nodeData.lookup k := by
    rw [slots, hdata, bind_some]
  refine ⟨fun hsoa old hold => ⟨?_, (hop.2 hsoa).startsWithSoa⟩, fun _ _ => ?_⟩
  · have hslot := (hslots .soa).trans (join_eq_some_iff.mp hold)
    exact (hz.soaTyped _ _ (content_of_slots hslot)).startsWithSoa
  · rw [← hslots]
    exact hz.stored _ _

omit [LawfulDomainTree T NameNode] in
theorem nsReadable_of_content (hattached : z.originNode = .attached)
    (hns : (z.content h z.origin .ns).isSome = true) (r : RRset Ptr) : z.NsReadable r := by
  obtain ⟨p, hslot⟩ := slots_of_content hns
  have hlookup : z.originData.bind (AList.lookup .ns) = some (some p) := by
    rw [originData, hattached]
    exact hslot
  intro _ _
  rw [hlookup]
  rfl

theorem perform_total (hz : z.WellFormed h) (hapex : z.HasApex h) (hop : op.WellFormed h) :
    ∃ o, z.perform h op = .ok o := by
  have hns := nsReadable_of_content hz.attached hapex.2
  rw [perform_returns_iff]
  cases op with
  | add p => exact hz.readable_add hop
  | deleteRRset p => exact hns _
  | deleteRr p => exact ⟨hns _, fun _ => hz.stored _ _⟩
  | deleteDomain name => trivial

theorem content_perform_eq (hz : z.Allocated h) (hok : z.perform h op = .ok o) :
    o.zone.content o.objects =
      if o.err.isSome then z.content h else (op.value h).apply z.origin (z.content h) := by
  cases herr : o.err with
  | none => exact content_perform hz hok herr
  | some err => exact content_perform_of_err hok herr

theorem WellFormed.perform (hz : z.WellFormed h) (hapex : z.HasApex h) (hop : op.WellFormed h)
    (hok : z.perform h op = .ok o) : o.zone.WellFormed o.objects := by
  obtain ⟨soa, hsoa⟩ := slots_of_content hapex.1
  obtain ⟨ns, hns⟩ := slots_of_content hapex.2
  refine ⟨?_, perform_allocated hz.allocated hop.1 hok, ?_, ?_⟩
  · rw [perform_originNode hok (by simp [hsoa])]
    exact hz.attached
  · intro n t hnil
    obtain ⟨c, hc, hslots⟩ := perform_makes hok
    rw [hslots] at hnil
    rcases SlotChange.apply_eq_nil hnil with hold | ⟨rfl, ht, hnone⟩
    · exact hz.stored n t hold
    · cases hc
      rcases ht with rfl | rfl
      · simp [hsoa] at hnone
      · simp [hns] at hnone
  · rw [content_perform_eq hz.allocated hok]
    split
    · exact hz.soaTyped
    · exact hz.soaTyped.apply hop.2

theorem WellFormed.newMemoryZone (h : Objects) (origin : Name) :
    (newMemoryZone origin : MemoryZone T).WellFormed h := by
  refine ⟨rfl, ?_, ?_, ?_⟩
  · simp [Allocated]
  · simp
  · intro n e hentry
    simp [content] at hentry

theorem WellFormed.addRRset (hz : z.WellFormed h) (hop : (ZoneOp.add p).WellFormed h)
    (hok : z.addRRset h p = .ok o) : o.zone.WellFormed o.objects := by
  have hperform : z.perform h (.add p) = .ok o := hok
  refine ⟨?_, perform_allocated hz.allocated hop.1 hperform, ?_, ?_⟩
  · rw [← hz.attached]
    cases addRRset_effect hok <;> rfl
  · exact fun n t hnil => hz.stored n t (slots_eq_nil_of_addRRset hok hnil)
  · rw [content_perform_eq hz.allocated hperform]
    split
    · exact hz.soaTyped
    · exact hz.soaTyped.apply hop.2

end MemoryZone

variable {T : Type} [DomainTree T NameNode] [LawfulDomainTree T NameNode]

def ZoneState.Ready (ops : List ZoneOp) (s : ZoneState T) : Prop :=
  s.zone.WellFormed s.objects ∧ ∀ op ∈ ops, op.WellFormed s.objects

theorem wellFormed_of_additions {origin : Name} {ps : List Ptr}
    (hops : ∀ p ∈ ps, (ZoneOp.add p).WellFormed h) {s : ZoneState T}
    (hrun : run ZoneState.step ⟨h, newMemoryZone origin, []⟩ (ps.map .add) = .ok s) :
    s.zone.WellFormed s.objects := by
  have hready : (⟨h, newMemoryZone origin, []⟩ : ZoneState T).Ready (ps.map .add) := by
    refine ⟨.newMemoryZone h origin, fun op hop => ?_⟩
    obtain ⟨p, hp, rfl⟩ := mem_map.mp hop
    exact hops p hp
  have halong : Along ZoneState.step (fun _ _ => True)
      ⟨h, (newMemoryZone origin : MemoryZone T), []⟩ (ps.map .add) :=
    along_of_forall (fun _ _ => trivial) _ _
  refine (run_induction (ZoneState.Ready (ps.map .add)) ?_
    (halong.and_mem (List.Subset.refl _)) hready hrun).1
  rintro s op s' ⟨hz, hall⟩ ⟨_, hmem⟩ hstep
  obtain ⟨o, hok, rfl⟩ := ZoneState.step_eq_ok.mp hstep
  obtain ⟨p, hp, rfl⟩ := mem_map.mp hmem
  exact ⟨hz.addRRset (hall _ hmem) hok, fun op' hmem' =>
    (hall op' hmem').mono (perform_extends hok)⟩

theorem content_of_run {s s' : ZoneState T} {ops : List ZoneOp} (hz : s.zone.Allocated s.objects)
    (hops : ∀ op ∈ ops, op.Allocated s.objects) (hrun : run ZoneState.step s ops = .ok s') :
    ∃ errs, s'.results = s.results ++ errs ∧ errs.length = ops.length ∧
      s'.zone.content s'.objects =
        (s.zone.content s.objects).replay s.zone.origin
          ((ops.map (·.value s.objects)).zip errs) := by
  induction ops generalizing s with
  | nil =>
    cases hrun
    exact ⟨[], by simp, rfl, rfl⟩
  | cons op ops ih =>
    obtain ⟨mid, hstep, hrest⟩ := run_cons_ok.mp hrun
    obtain ⟨o, hok, rfl⟩ := ZoneState.step_eq_ok.mp hstep
    have hop := hops op mem_cons_self
    have hext := perform_extends hok
    have hops' (op' : ZoneOp) (hmem : op' ∈ ops) : op'.Allocated o.objects :=
      (hops op' (mem_cons_of_mem _ hmem)).mono hext
    obtain ⟨errs, hresults, hlength, hcontent⟩ := ih (perform_allocated hz hop hok) hops' hrest
    have hvalues : ops.map (·.value o.objects) = ops.map (·.value s.objects) :=
      map_congr_left fun op' hmem =>
        ZoneOp.value_of_extends hext (hops op' (mem_cons_of_mem _ hmem))
    refine ⟨o.err :: errs, by simp [hresults], by simp [hlength], ?_⟩
    rw [hcontent, hvalues, perform_origin hok, content_perform_eq hz hok]
    rfl

theorem run_returns {z : MemoryZone T} {ops : List ZoneOp} (hz : z.WellFormed h)
    (hops : ∀ op ∈ ops, op.WellFormed h)
    (hapex : Along ZoneState.step (fun s _ => s.zone.HasApex s.objects) ⟨h, z, []⟩ ops) :
    ∃ s', run ZoneState.step ⟨h, z, []⟩ ops = .ok s' := by
  have hstep (s : ZoneState T) (op : ZoneOp) (hready : s.Ready ops)
      (hcall : s.zone.HasApex s.objects ∧ op ∈ ops) : ∃ s', s.step op = .ok s' ∧ s'.Ready ops := by
    obtain ⟨hz, hops⟩ := hready
    obtain ⟨hcomplete, hmem⟩ := hcall
    obtain ⟨o, hok⟩ := perform_total hz hcomplete (hops op hmem)
    refine ⟨_, ZoneState.step_eq_ok.mpr ⟨o, hok, rfl⟩, hz.perform hcomplete (hops op hmem) hok, ?_⟩
    exact fun op' hmem' => (hops op' hmem').mono (perform_extends hok)
  obtain ⟨s', hrun, _⟩ := run_total _ hstep (hapex.and_mem (List.Subset.refl ops)) ⟨hz, hops⟩
  exact ⟨s', hrun⟩

theorem mem_slots_referenceTree {z : MemoryZone (ReferenceTree NameNode)} {n : Name} {t : RRType}
    {slot : Option Ptr} (hslot : z.slots n t = some slot) :
    ∃ entry ∈ z.domains.nodes, ∃ nodeData ∈ entry.2.data, ⟨t, slot⟩ ∈ nodeData.entries := by
  obtain ⟨nodeData, hdata, hlookup⟩ := bind_eq_some_iff.mp hslot
  obtain ⟨nd, hmem, hnd⟩ := ReferenceTree.mem_nodes_of_dataAt hdata
  exact ⟨(n, nd), hmem, nodeData, hnd, AList.mem_lookup_iff.mp hlookup⟩

/-- A small zone, two A RRsets of one name, an empty NS RRset and a newer SOA. -/
def exampleObjects : Objects := .ofLists
  [⟨["example"], .soa, .internet, 300, [0]⟩, ⟨["example"], .ns, .internet, 300, [1]⟩,
    ⟨["www", "example"], .a, .internet, 300, [2, 3]⟩, ⟨["www", "example"], .a, .internet, 60, [2]⟩,
    ⟨["example"], .ns, .internet, 0, []⟩, ⟨["example"], .soa, .internet, 300, [4]⟩]
  [.soa ⟨["ns", "example"], ["root", "example"], 1, 7200, 3600, 86400, 300⟩,
    .ns ["ns", "example"], .a [1, 1, 1, 1], .a [2, 2, 2, 2],
    .soa ⟨["ns", "example"], ["root", "example"], 5, 7200, 3600, 86400, 300⟩]

def exampleZone : MemoryZone (ReferenceTree NameNode) :=
  match run ZoneState.step ⟨exampleObjects, newMemoryZone ["example"], []⟩ [.add 0, .add 1] with
  | .ok s => s.zone
  | .error _ => newMemoryZone ["example"]

theorem exampleZone_wellFormed : exampleZone.WellFormed exampleObjects := by
  have hrun : run ZoneState.step (⟨exampleObjects, newMemoryZone ["example"], []⟩ :
      ZoneState (ReferenceTree NameNode)) ([0, 1].map .add) =
        .ok ⟨exampleObjects, exampleZone, [none, none]⟩ := rfl
  exact wellFormed_of_additions (by decide) hrun

end Vanguard.Zone
