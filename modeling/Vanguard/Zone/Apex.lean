import Vanguard.Zone.Refinement
import Vanguard.Zone.DynamicZone

namespace Vanguard.Zone

open Library

def HasRdata (e : Option Entry) : Prop := ∃ entry, e = some entry ∧ entry.rdatas ≠ []

theorem HasRdata.add {e : Option Entry} (he : HasRdata e) {r : RRset Rdata}
    (htyp : r.typ ≠ .cname) : HasRdata (some (Entry.add e r)) := by
  obtain ⟨entry, rfl, hne⟩ := he
  exact ⟨_, rfl, Entry.add_rdatas_ne_nil (by simpa using hne) (.inr ⟨rfl, htyp⟩)⟩

namespace MemoryZone

variable {T : Type} [DomainTree T NameNode]

def ApexComplete (h : Objects) (z : MemoryZone T) : Prop :=
  HasRdata (z.content h z.origin .soa) ∧ HasRdata (z.content h z.origin .ns)

/-- The SOA RRset stays, and the NS slot is empty or has an RRset with rdata. -/
structure ApexKept (h : Objects) (z : MemoryZone T) : Prop where
  attached : z.originNode = .attached
  allocated : z.Allocated h
  soa : HasRdata (z.content h z.origin .soa)
  ns : z.slots z.origin .ns = none ∨ HasRdata (z.content h z.origin .ns)

end MemoryZone

/-- The call stores an NS slot at the apex that has no rdata, if there is no NS slot yet. -/
def ZoneOp.Spoils (h : Objects) (origin : Name) : ZoneOp → Prop
  | .add p => (h.value p).name = origin ∧ (h.value p).typ = .ns ∧ (h.value p).rdatas = []
  | .deleteDomain name => name = origin
  | .deleteRRset _ | .deleteRr _ => False

namespace MemoryZone

variable {T : Type} [DomainTree T NameNode] [LawfulDomainTree T NameNode] {h : Objects}
  {z : MemoryZone T} {op : ZoneOp} {o : Outcome T}

variable {p : Ptr}

theorem content_soa_add (hz : z.Allocated h) (hok : z.perform h (.add p) = .ok o)
    (herr : o.err = none) (hname : (h.value p).name = z.origin) (htyp : (h.value p).typ = .soa) :
    o.zone.content o.objects z.origin .soa =
      some (Entry.add (z.content h z.origin .soa) (h.value p)) := by
  rw [content_perform_eq hz hok]
  simp [herr, ZoneOp.value, MapOp.apply, ZoneMap.set, hname, htyp]

theorem content_soa_perform (hz : z.Allocated h) (hok : z.perform h op = .ok o)
    (hother : ∀ p, op = .add p → ¬((h.value p).name = z.origin ∧ (h.value p).typ = .soa)) :
    o.zone.content o.objects z.origin .soa = z.content h z.origin .soa := by
  rw [content_perform_eq hz hok]
  cases herr : o.err with
  | some err => rfl
  | none =>
    simp only [Option.isSome_none, Bool.false_eq_true, if_false]
    cases op with
    | add p => exact if_neg fun heq => hother p rfl ⟨heq.1.symm, heq.2.symm⟩
    | deleteRRset p =>
      obtain ⟨_, ⟨⟨err, hsome⟩, _⟩ | ⟨_, _, hcheck, _⟩⟩ := deleteRRset_change hok
      · simp [herr] at hsome
      · have hne := checkRRsetCouldBeDeleted_soa hcheck
        exact if_neg fun heq => hne ⟨heq.1.symm, heq.2.symm⟩
    | deleteRr p =>
      rcases deleteRr_change hok with ⟨⟨err, hsome⟩, _⟩ | ⟨_, _, _, hcheck, _⟩
      · simp [herr] at hsome
      · have hne := checkRRsetCouldBeDeleted_soa hcheck
        exact if_neg fun heq => hne ⟨heq.1.symm, heq.2.symm⟩
    | deleteDomain name =>
      simp only [ZoneOp.value, MapOp.apply]
      by_cases hname : z.origin = name
      · simp [← hname]
      · simp [hname]

theorem hasRdata_soa_perform (hz : z.ApexKept h) (hok : z.perform h op = .ok o) :
    HasRdata (o.zone.content o.objects z.origin .soa) := by
  by_cases hadd : ∃ p, op = .add p ∧ (h.value p).name = z.origin ∧ (h.value p).typ = .soa
  · obtain ⟨p, rfl, hname, htyp⟩ := hadd
    cases herr : o.err with
    | some err =>
      rw [content_perform_of_err hok herr]
      exact hz.soa
    | none =>
      rw [content_soa_add hz.allocated hok herr hname htyp]
      refine hz.soa.add ?_
      rw [htyp]
      decide
  · rw [content_soa_perform hz.allocated hok fun p hp htarget => hadd ⟨p, hp, htarget⟩]
    exact hz.soa

theorem content_perform_of_ok (hz : z.Allocated h) (hok : z.perform h op = .ok o)
    (herr : o.err = none) :
    o.zone.content o.objects = (op.value h).apply z.origin (z.content h) := by
  rw [content_perform_eq hz hok, herr]
  rfl

variable (hz : z.ApexKept h)

include hz

theorem ns_perform (hsafe : z.slots z.origin .ns = none → ¬op.Spoils h z.origin)
    (hok : z.perform h op = .ok o) :
    o.zone.slots z.origin .ns = none ∨ HasRdata (o.zone.content o.objects z.origin .ns) := by
  cases herr : o.err with
  | some err =>
    obtain ⟨hobjects, hslots⟩ := perform_of_err hok herr
    rw [content, hobjects, hslots]
    exact hz.ns
  | none =>
    rcases hslot : o.zone.slots z.origin .ns with _ | _ | q
    · exact .inl rfl
    · obtain ⟨c, hc, hslots⟩ := perform_makes hok
      rw [hslots] at hslot
      rcases SlotChange.apply_eq_nil hslot with hold | ⟨rfl, -, hnone⟩
      · rcases hz.ns with hnone | ⟨e, he, _⟩
        · simp [hold] at hnone
        · simp [content, entryAt, hold] at he
      · cases hc with
        | keepApex hop => exact absurd (by rw [hop]; rfl) (hsafe hnone)
    · have hentry := content_of_slots (h := o.objects) hslot
      refine .inr ⟨_, hentry, ?_⟩
      rw [content_perform_of_ok hz.allocated hok herr] at hentry
      refine MapOp.rdatas_apply (fun e he => ?_) (fun r hop hname htyp => ?_) hentry
      · rcases hz.ns with hnone | ⟨e', he', hne⟩
        · simp [content, hnone] at he
        · cases he'.symm.trans he
          exact hne
      · rcases hz.ns with hnone | ⟨e, he, _⟩
        · cases op with
          | add p =>
            cases hop
            exact .inl fun hnil => hsafe hnone ⟨hname, htyp, hnil⟩
          | _ => cases hop
        · refine .inr ⟨by simp [he], ?_⟩
          rw [htyp]
          decide

theorem ApexKept.perform (hop : op.Allocated h)
    (hsafe : z.slots z.origin .ns = none → ¬op.Spoils h z.origin) (hok : z.perform h op = .ok o) :
    o.zone.ApexKept o.objects := by
  have horigin := perform_origin hok
  have hsoa : (z.slots z.origin .soa).isSome = true := by
    obtain ⟨e, hentry, _⟩ := hz.soa
    have hsome : (z.content h z.origin .soa).isSome = true := by simp [hentry]
    obtain ⟨p, hslot⟩ := slots_of_content hsome
    simp [hslot]
  refine ⟨?_, perform_allocated hz.allocated hop hok, ?_, ?_⟩
  · rw [perform_originNode hok hsoa]
    exact hz.attached
  · rw [horigin]
    exact hasRdata_soa_perform hz hok
  · rw [horigin]
    exact ns_perform hz hsafe hok

omit [LawfulDomainTree T NameNode] in
theorem ApexKept.complete (hvalid : z.validate = none) : z.ApexComplete h := by
  refine ⟨hz.soa, hz.ns.resolve_left fun hnone => ?_⟩
  unfold validate originData at hvalid
  simp only [hz.attached] at hvalid
  cases hdata : dataAt z.domains z.origin with
  | none => simp [hdata] at hvalid
  | some node =>
    have hlookup : node.lookup .ns = none := by simpa [slots, hdata] using hnone
    simp only [hdata, hlookup] at hvalid
    split at hvalid <;> simp at hvalid

end MemoryZone

variable {T : Type} [DomainTree T NameNode] [LawfulDomainTree T NameNode]

/-- A commit installs a complete apex if no call empties its NS RRset. -/
theorem commit_apexComplete {h : Objects} {dz : DynamicZone T} {ops : List ZoneOp}
    {s : ZoneState T} (hapex : dz.memoryZone.ApexComplete h) (halloc : dz.memoryZone.Allocated h)
    (hops : ∀ op ∈ ops, op.Allocated h)
    (hsafe : Along ZoneState.step (fun s op => s.zone.slots s.zone.origin .ns = none →
      ¬op.Spoils s.objects s.zone.origin) ⟨h, dz.begin.2, []⟩ ops)
    (hrun : run ZoneState.step ⟨h, dz.begin.2, []⟩ ops = .ok s)
    (hcommit : (dz.begin.1.commit s.zone).2 = none) :
    (dz.begin.1.commit s.zone).1.memoryZone.ApexComplete s.objects := by
  obtain ⟨hvalid, hinstalled⟩ := DynamicZone.commit_of_none hcommit
  rw [hinstalled]
  have hstart : dz.begin.2.ApexKept h := by
    have hslots : dz.begin.2.slots = dz.memoryZone.slots := MemoryZone.slots_clone _
    refine ⟨rfl, ?_, ?_, .inr ?_⟩
    · intro n t p hslot
      exact halloc n t p (hslots ▸ hslot)
    · rw [MemoryZone.content, hslots]
      exact hapex.1
    · rw [MemoryZone.content, hslots]
      exact hapex.2
  let Inv (s : ZoneState T) : Prop := s.zone.ApexKept s.objects ∧ ∀ op ∈ ops, op.Allocated s.objects
  have hkept : Inv s := by
    refine run_induction Inv ?_ (hsafe.and_mem (List.Subset.refl ops)) ⟨hstart, hops⟩ hrun
    rintro s op s' ⟨hs, hall⟩ ⟨hop, hmem⟩ hstep
    obtain ⟨o, hok, rfl⟩ := ZoneState.step_eq_ok.mp hstep
    exact ⟨hs.perform (hall op hmem) hop hok, fun op' hmem' =>
      (hall op' hmem').mono (MemoryZone.perform_extends hok)⟩
  exact hkept.1.complete hvalid

def exampleDynamicZone : DynamicZone (ReferenceTree NameNode) := ⟨exampleZone, false⟩

/-- A transaction that adds an A RRset and takes one of its rdatas ends with a complete apex. -/
theorem example_commit_apexComplete :
    ∃ s, run ZoneState.step ⟨exampleObjects, exampleDynamicZone.begin.2, []⟩
        [.add 2, .deleteRr 3] = .ok s ∧
      (exampleDynamicZone.begin.1.commit s.zone).2 = none ∧
      (exampleDynamicZone.begin.1.commit s.zone).1.memoryZone.ApexComplete s.objects := by
  have hapex : exampleDynamicZone.memoryZone.ApexComplete exampleObjects :=
    ⟨⟨⟨300, [.soa ⟨["ns", "example"], ["root", "example"], 1, 7200, 3600, 86400, 300⟩]⟩,
      by decide, by decide⟩, ⟨⟨300, [.ns ["ns", "example"]]⟩, by decide, by decide⟩⟩
  have hops : ∀ op ∈ ([.add 2, .deleteRr 3] : List ZoneOp), op.Allocated exampleObjects := by
    decide
  have hsafe : Along ZoneState.step (fun s op => s.zone.slots s.zone.origin .ns = none →
      ¬op.Spoils s.objects s.zone.origin) ⟨exampleObjects, exampleDynamicZone.begin.2, []⟩
      [.add 2, .deleteRr 3] := by
    refine ⟨fun _ hspoils => absurd hspoils.1 (by decide), ?_⟩
    rintro _ ⟨⟩
    exact ⟨fun _ => id, fun _ _ => trivial⟩
  refine ⟨_, rfl, ?_, ?_⟩
  · decide
  · exact commit_apexComplete hapex exampleZone_wellFormed.allocated hops hsafe rfl (by decide)

/-- After a deletion with no rdatas, that of the apex leaves a nil NS, and is committed. -/
theorem example_commit_without_ns :
    exampleDynamicZone.memoryZone.validate = none ∧
    ∃ s, run ZoneState.step ⟨exampleObjects, exampleDynamicZone.begin.2, []⟩
        [.deleteRRset 4, .deleteDomain ["example"]] = .ok s ∧
      (exampleDynamicZone.begin.1.commit s.zone).2 = none ∧
      (exampleDynamicZone.begin.1.commit s.zone).1.memoryZone.slots ["example"] .ns = some none :=
  ⟨by decide, _, rfl, by decide, by decide⟩

end Vanguard.Zone
