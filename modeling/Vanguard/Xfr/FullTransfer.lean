import Vanguard.Xfr.Update
import Vanguard.Zone.Overlay

namespace Vanguard.Xfr

open Library Zone List

/-- A whole zone between two SOAs of serial `n`. -/
structure WholeAnswer (h : Objects) (origin : Name) (n : UInt32) (first : AnswerRRset)
    (body : List AnswerRRset) (last : AnswerRRset) : Prop where
  wholeZone : WholeZone origin first.value (body.map AnswerRRset.value)
  first_serial : first.HasSerial n
  last_typ : last.value.typ = .soa
  last_serial : last.HasSerial n
  allocated : ∀ a ∈ first :: body, a.ptr < h.rrsets.next
  value_eq : ∀ a ∈ first :: body, a.value = h.value a.ptr

variable {first last : AnswerRRset} {body : List AnswerRRset}

theorem axfrInputs_whole (hfirst : first.value.typ = .soa) (hbody : ∀ r ∈ body, r.value.typ ≠ .soa)
    (hlast : last.value.typ = .soa) : axfrInputs (first :: (body ++ [last])) =
      .soa true first :: (body.map (fun r => .rrset r.ptr) ++ [.soa true last]) := by
  have hmiddle (k : ℕ) (input : AnswerRRset × ℕ → AxfrInput)
      (hinput : ∀ r ∈ body, ∀ i, input (r, i) = .rrset r.ptr) :
      (body.zipIdx k).map input = body.map fun r => .rrset r.ptr := by
    clear hbody
    induction body generalizing k with
    | nil => rfl
    | cons r body ih =>
      rw [zipIdx_cons, map_cons, hinput r mem_cons_self,
        ih _ fun r' hr' => hinput r' (mem_cons_of_mem _ hr'), map_cons]
  unfold axfrInputs
  rw [zipIdx_cons, map_cons, zipIdx_append, map_append,
    hmiddle _ _ fun r hr i => if_neg (hbody r hr)]
  simp [hfirst, hlast, Nat.add_comm 1]

variable {n : UInt32}

theorem ixfrInputs_whole {first r : AnswerRRset} (hfirst : first.value.typ = .soa)
    (hserial : first.HasSerial n) (hr : r.value.typ ≠ .soa) (rest : List AnswerRRset) :
    ∃ inputs, ixfrInputs (first :: r :: rest) =
      .soa true (some n) :: .rrset r.ptr :: inputs := by
  obtain ⟨x, hx, hn⟩ : ∃ x, first.value.rdatas = [x] ∧ serialOf x = some n := by
    unfold AnswerRRset.HasSerial at hserial
    obtain ⟨x, hx⟩ := length_eq_one_iff.mp
      ((length_map serialOf).symm.trans (congrArg List.length hserial))
    exact ⟨x, hx, by simpa [hx] using hserial⟩
  simp [ixfrInputs, zipIdx_cons, hfirst, hx, hn, hr]

variable {σ : Type} {F : Engine}

variable {h : Objects} {origin : Name}

section

variable (hF : F.Lawful) (u : Updator σ) (hanswer : WholeAnswer h origin n first body last)

include hF hanswer

theorem run_axfr_whole (currentSerial : UInt32) (tx : σ) :
    ∃ sm', (newXFRStateMachine currentSerial n tx).run F u .axfr (first :: (body ++ [last])) =
      .ok sm' ∧ sm'.generator.tx = ((first :: body).map AnswerRRset.ptr).foldl u.add tx := by
  have hzone := hanswer.wholeZone
  have hinputs := axfrInputs_whole hzone.soa_typ
    (fun r hr => hzone.typ_ne_soa r.value (mem_map_of_mem hr)) hanswer.last_typ
  have hrrsets : bodyRRsets (body.map fun r => .rrset r.ptr) = body.map AnswerRRset.ptr := by
    simp [bodyRRsets, filterMap_map]
  have hne : body.map AnswerRRset.ptr ≠ [] := by
    obtain ⟨r, hr, -⟩ := hzone.ns
    exact fun hnil => by simp [map_eq_nil_iff.mp hnil] at hr
  have hall : ∀ input ∈ body.map fun r => AxfrInput.rrset r.ptr, input.IsBody := by
    intro input hinput
    obtain ⟨r, -, rfl⟩ := mem_map.mp hinput
    trivial
  have hbody g := run_body (u := u) hF (p := .start) (.inl rfl) g hall
  simp only [hrrsets, if_neg hne] at hbody
  refine ⟨⟨.done, ⟨n, currentSerial, ((first :: body).map AnswerRRset.ptr).foldl u.add tx⟩⟩,
    ?_, rfl⟩
  show run (axfrStep F u) _ (axfrInputs _) = _
  rw [hinputs]
  refine run_cons_ok.mpr ⟨_, (AxfrMove.opening _ first hanswer.first_serial).step_eq_ok hF, ?_⟩
  refine run_append.mpr ⟨_, hbody _, ?_⟩
  exact run_cons_ok.mpr ⟨_, (AxfrMove.closing _ last hanswer.last_serial).step_eq_ok hF, rfl⟩

theorem run_ixfr_whole (currentSerial latestSerial : UInt32) (tx : σ) :
    ∃ sm', (newXFRStateMachine currentSerial latestSerial tx).run F u .ixfr
        (first :: (body ++ [last])) = .error (sm', .err .errIXFRDataSectionFormatError) ∧
      sm'.generator.tx = tx := by
  have hzone := hanswer.wholeZone
  obtain ⟨r, body', rfl⟩ : ∃ r body', body = r :: body' := by
    obtain ⟨r, hr, -⟩ := hzone.ns
    cases body with
    | nil => cases hr
    | cons r body' => exact ⟨r, body', rfl⟩
  obtain ⟨inputs, hinputs⟩ := ixfrInputs_whole hzone.soa_typ hanswer.first_serial
    (hzone.typ_ne_soa r.value (by simp)) (body' ++ [last])
  have hopen := (IxfrMove.opening (u := u) ⟨latestSerial, currentSerial, tx⟩ n).step_eq_ok hF
  have hevent := hF.invalidEvent (genIXFRStateMachine u) .start ⟨n, currentSerial, tx⟩
    (.getNoneSoa r.ptr) rfl
  refine ⟨⟨.start, ⟨n, currentSerial, tx⟩⟩, ?_, rfl⟩
  show run (ixfrStep F u) _ (ixfrInputs _) = _
  rw [cons_append, hinputs, run, newXFRStateMachine, hopen]
  simp only [run, ixfrStep, XFRStateMachine.event, hevent]

end

variable {T : Type} [DomainTree T NameNode]

theorem memoryZone_commit (dz : DynamicZone T) (tmp : MemoryZone T) :
    (dz.commit tmp).1.memoryZone = if tmp.validate = none then tmp else dz.memoryZone := by
  unfold DynamicZone.commit
  cases tmp.validate with
  | none | some err => rfl

variable [LawfulDomainTree T NameNode]

/-- A full transfer lays the new version over the old content. -/
theorem runTransfer_whole (hF : F.Lawful) (dz : DynamicZone T) (currentSerial : UInt32)
    (hz : dz.memoryZone.WellFormed h) (hfilled : dz.memoryZone.Filled)
    (hanswer : WholeAnswer h dz.memoryZone.origin n first body last) :
    ∃ s : ZoneState T, Intact dz.memoryZone.origin s ∧ h.Extends s.objects ∧
      s.zone.content s.objects = ((first :: body).map AnswerRRset.value).foldl
        (ZoneMap.offer dz.memoryZone.origin) (dz.memoryZone.content h) ∧
      runTransfer F .axfr h dz currentSerial n (first :: (body ++ [last])) =
        .ok (s.objects, (dz.begin.1.commit s.zone).1, true) := by
  have hzone := hanswer.wholeZone
  have hvalues : ((first :: body).map AnswerRRset.ptr).map h.value =
      (first :: body).map AnswerRRset.value := by
    rw [map_map]
    exact map_congr_left fun a ha => (hanswer.value_eq a ha).symm
  have hops : ∀ p ∈ (first :: body).map AnswerRRset.ptr, (ZoneOp.add p).WellFormed h := by
    intro p hp
    obtain ⟨a, ha, rfl⟩ := mem_map.mp hp
    refine ⟨hanswer.allocated a ha, fun htyp => ?_⟩
    rw [← hanswer.value_eq a ha] at htyp ⊢
    rcases mem_cons.mp ha with rfl | hbody
    · obtain ⟨x, hx⟩ := hzone.soa_rdatas
      simp [SoaRdatas, hx, Rdata.isSoa]
    · exact absurd htyp (hzone.typ_ne_soa a.value (mem_map_of_mem hbody))
  obtain ⟨sm', hrun, htx⟩ := run_axfr_whole hF zoneUpdator hanswer currentSerial
    (.ok (⟨h, dz.begin.2, []⟩ : ZoneState T))
  obtain ⟨s, hs, hintact, hext, hcontent⟩ := zoneUpdator_foldl_add (intact_begin hz hfilled) hops
  refine ⟨s, hintact, hext, ?_, ?_⟩
  · rw [hcontent, hvalues, content_begin]
  · have htx' : sm'.generator.tx = .ok s := htx.trans hs
    unfold runTransfer
    simp only [hrun, htx']
    rfl

theorem updateZoneUseXFR_whole (hF : F.Lawful) {dz : DynamicZone T} (typ : XfrType)
    (currentSerial : UInt32) (hz : dz.memoryZone.WellFormed h) (hfilled : dz.memoryZone.Filled)
    (hanswer : WholeAnswer h dz.memoryZone.origin n first body last) :
    ∃ (s : ZoneState T) (dz' : DynamicZone T), Intact dz.memoryZone.origin s ∧
      h.Extends s.objects ∧
      s.zone.content s.objects = ((first :: body).map AnswerRRset.value).foldl
        (ZoneMap.offer dz.memoryZone.origin) (dz.memoryZone.content h) ∧
      dz'.memoryZone = (if s.zone.validate = none then s.zone else dz.memoryZone) ∧
      updateZoneUseXFR F typ h dz currentSerial n (first :: (body ++ [last])) =
        .ok (s.objects, dz') := by
  cases typ with
  | axfr =>
    obtain ⟨s, hintact, hext, hcontent, hrun⟩ :=
      runTransfer_whole hF dz currentSerial hz hfilled hanswer
    refine ⟨s, _, hintact, hext, hcontent, memoryZone_commit _ _, ?_⟩
    unfold updateZoneUseXFR
    rw [hrun]
    rfl
  | ixfr =>
    -- The incremental machine gives up at the second RRset and the answer is read once more.
    have hfailed : runTransfer F .ixfr h dz currentSerial n (first :: (body ++ [last])) =
        .ok (h, dz.begin.1.rollBack, false) := by
      obtain ⟨sm', hrun, htx⟩ := run_ixfr_whole hF zoneUpdator hanswer currentSerial n
        (.ok (⟨h, dz.begin.2, []⟩ : ZoneState T))
      unfold runTransfer
      simp only [hrun, htx]
      rfl
    obtain ⟨s, hintact, hext, hcontent, hrun⟩ :=
      runTransfer_whole hF dz.begin.1.rollBack currentSerial hz hfilled hanswer
    refine ⟨s, _, hintact, hext, hcontent, memoryZone_commit _ _, ?_⟩
    unfold updateZoneUseXFR
    rw [hfailed]
    change Except.bind (runTransfer F .axfr h dz.begin.1.rollBack _ _ _) _ = _
    rw [hrun]
    rfl

variable {t : RRType}

theorem isSome_foldl_offer {m : ZoneMap} {n : Name} (rs : List (RRset Rdata))
    (hsome : (m n t).isSome = true) : (rs.foldl (ZoneMap.offer origin) m n t).isSome = true := by
  induction rs generalizing m with
  | nil => exact hsome
  | cons r rs ih => exact ih (ZoneMap.isSome_offer hsome)

theorem apex_of_records {m : ZoneMap} {soa : RRset Rdata} {rs : List (RRset Rdata)}
    (hzone : WholeZone origin soa rs) (hrecords : m.records = recordsOf (soa :: rs)) :
    (m origin .soa).isSome = true ∧ (m origin .ns).isSome = true := by
  have hmem {r : RRset Rdata} (hr : r ∈ soa :: rs) (hne : r.rdatas ≠ []) :
      (m r.name r.typ).isSome = true := by
    obtain ⟨x, hx⟩ := exists_mem_of_ne_nil _ hne
    have hrecord : (⟨r.name, r.typ, r.ttl, x⟩ : Record) ∈ m.records :=
      hrecords ▸ ⟨r, hr, rfl, rfl, rfl, hx⟩
    obtain ⟨e, he, -⟩ := hrecord
    exact Option.isSome_iff_exists.mpr ⟨e, he⟩
  obtain ⟨x, hx⟩ := hzone.soa_rdatas
  obtain ⟨r, hr, hname, htyp⟩ := hzone.ns
  have hsoa := hmem (r := soa) mem_cons_self (by simp [hx])
  have hns := hmem (mem_cons_of_mem _ hr) (hzone.rdatas_ne_nil r hr)
  rw [hzone.soa_name, hzone.soa_typ] at hsoa
  rw [hname, htyp] at hns
  exact ⟨hsoa, hns⟩

theorem intact_of_additions (origin : Name) {ps : List Ptr}
    (hps : ∀ p ∈ ps, (ZoneOp.add p).WellFormed h) :
    ∃ s : ZoneState T, ps.foldl zoneUpdator.add (.ok ⟨h, newMemoryZone origin, []⟩) = .ok s ∧
      Intact origin s ∧ (s.zone.content s.objects).Legal := by
  have hnew : Intact origin (⟨h, newMemoryZone origin, []⟩ : ZoneState T) := .newMemoryZone h origin
  obtain ⟨s, hs, hintact, -, hcontent⟩ := zoneUpdator_foldl_add hnew hps
  refine ⟨s, hs, hintact, ?_⟩
  rw [hcontent, content_newMemoryZone]
  exact ZoneMap.Legal.foldl_offer ⟨fun _ _ hsome => absurd hsome (by simp), fun _ _ => rfl⟩ _

/-- The zone is what the answer holds exactly if the answer covers what it was. -/
theorem full_transfer_replaces_iff (hF : F.Lawful) {h : Objects} (dz : DynamicZone T)
    (typ : XfrType) {n : UInt32} (currentSerial : UInt32) {first last : AnswerRRset}
    {body : List AnswerRRset} (hz : dz.memoryZone.WellFormed h) (hfilled : dz.memoryZone.Filled)
    (hlegal : (dz.memoryZone.content h).Legal)
    (hanswer : WholeAnswer h dz.memoryZone.origin n first body last) :
    (∃ h' dz', updateZoneUseXFR F typ h dz currentSerial n (first :: (body ++ [last])) =
        .ok (h', dz') ∧
      (dz'.memoryZone.content h').records = recordsOf ((first :: body).map AnswerRRset.value)) ↔
      Covered dz.memoryZone.origin (dz.memoryZone.content h) first.value
        (body.map AnswerRRset.value) := by
  have hzone := hanswer.wholeZone
  obtain ⟨s, dz', hintact, hext, hcontent, hserved, hupdate⟩ :=
    updateZoneUseXFR_whole hF typ currentSerial hz hfilled hanswer
  have hvalid := hintact.wellFormed.validate_eq_none_iff
  rw [MemoryZone.HasApex, hintact.origin_eq] at hvalid
  rw [← overlay_iff hlegal hzone]
  constructor
  · rintro ⟨h', dz'', hok, hrecords⟩
    rw [hupdate] at hok
    cases hok
    by_cases hcommit : s.zone.validate = none
    · rw [hserved, if_pos hcommit, hcontent] at hrecords
      exact hrecords
    · -- Offers keep the SOA and NS RRsets that the old zone would have to have.
      rw [hserved, if_neg hcommit, MemoryZone.content_of_extends hext hz.allocated] at hrecords
      obtain ⟨hsoa, hns⟩ := apex_of_records hzone hrecords
      refine absurd (hvalid.mpr ?_) hcommit
      rw [hcontent]
      exact ⟨isSome_foldl_offer _ hsoa, isSome_foldl_offer _ hns⟩
  · intro hrecords
    have hcommit : s.zone.validate = none := by
      rw [hvalid, hcontent]
      exact apex_of_records hzone hrecords
    refine ⟨s.objects, dz', hupdate, ?_⟩
    rw [hserved, if_pos hcommit, hcontent]
    exact hrecords

theorem mem_nodes_of_content {z : MemoryZone (ReferenceTree NameNode)} {n : Name} {e : Entry}
    (hentry : z.content h n t = some e) : ∃ node ∈ z.domains.nodes, ∃ nodeData ∈ node.2.data, ∃ p,
      (⟨t, some p⟩ : Sigma fun _ : RRType => Option Ptr) ∈ nodeData.entries ∧ node.1 = n ∧
        e = .ofRRset (h.value p) := by
  obtain ⟨p, hslot⟩ := MemoryZone.slots_of_content (h := h)
    (Option.isSome_iff_exists.mpr ⟨e, hentry⟩)
  rw [MemoryZone.content_of_slots hslot] at hentry
  obtain ⟨nodeData, hdata, hlookup⟩ := Option.bind_eq_some_iff.mp hslot
  obtain ⟨node, hnode, hnd⟩ := ReferenceTree.mem_nodes_of_dataAt hdata
  exact ⟨(n, node), hnode, nodeData, hnd, p, AList.mem_lookup_iff.mp hlookup, rfl,
    (Option.some.inj hentry).symm⟩

theorem exampleZone_content {n : Name} {e : Entry}
    (hentry : exampleZone.content exampleObjects n t = some e) :
    n = ["example"] ∧ (t = .soa ∧ e = .ofRRset (exampleObjects.value 0) ∨
      t = .ns ∧ e = .ofRRset (exampleObjects.value 1)) := by
  obtain ⟨node, hnode, nodeData, hdata, p, hslot, rfl, rfl⟩ := mem_nodes_of_content hentry
  have hall : ∀ node ∈ exampleZone.domains.nodes, ∀ nodeData ∈ node.2.data,
      ∀ slot ∈ nodeData.entries, node.1 = ["example"] ∧
        (slot.1 = .soa ∧ slot.2 = some 0 ∨ slot.1 = .ns ∧ slot.2 = some 1) := by
    decide
  obtain ⟨hname, ⟨htyp, hp⟩ | ⟨htyp, hp⟩⟩ := hall node hnode nodeData hdata _ hslot
  · cases hp
    exact ⟨hname, .inl ⟨htyp, rfl⟩⟩
  · cases hp
    exact ⟨hname, .inr ⟨htyp, rfl⟩⟩

def exampleAnswer (p : Ptr) : AnswerRRset := ⟨p, exampleObjects.value p⟩

/-- An old version with a SOA and an NS RRset only is replaced by a new one with an address. -/
theorem example_transfer_replaces :
    ∃ (h' : Objects) (dz' : DynamicZone (ReferenceTree NameNode)),
      updateZoneUseXFR Engine.reference .ixfr exampleObjects ⟨exampleZone, false⟩ 1 5
        [exampleAnswer 5, exampleAnswer 1, exampleAnswer 2, exampleAnswer 5] = .ok (h', dz') ∧
      (dz'.memoryZone.content h').records =
        recordsOf [exampleObjects.value 5, exampleObjects.value 1, exampleObjects.value 2] := by
  have hops : ∀ p ∈ [0, 1], (ZoneOp.add p).WellFormed exampleObjects := by decide
  obtain ⟨s, hs, hintact, hlegal⟩ :=
    intact_of_additions (T := ReferenceTree NameNode) ["example"] hops
  cases hs
  have hanswer : WholeAnswer exampleObjects ["example"] 5 (exampleAnswer 5)
      [exampleAnswer 1, exampleAnswer 2] (exampleAnswer 5) := by
    refine ⟨⟨rfl, rfl, ⟨_, rfl⟩, ?_, ?_, ?_, ?_, ?_, ?_⟩, ?_, ?_, ?_, ?_, ?_⟩ <;> decide
  refine (full_transfer_replaces_iff Engine.lawful_reference ⟨exampleZone, false⟩ .ixfr 1
    hintact.wellFormed hintact.filled hlegal hanswer).mpr ⟨by decide, fun n => ⟨?_, ?_, ?_⟩⟩
  · intro e hname hentry
    obtain ⟨-, ⟨-, rfl⟩ | ⟨hns, -⟩⟩ := exampleZone_content hentry
    · exact .inl (by decide)
    · exact absurd hns (by decide)
  · intro e hentry
    obtain ⟨-, ⟨hsoa, -⟩ | ⟨hns, -⟩⟩ := exampleZone_content hentry
    · exact absurd hsoa (by decide)
    · exact absurd hns (by decide)
  · intro t e hentry _ hkey
    obtain ⟨rfl, ⟨rfl, -⟩ | ⟨rfl, rfl⟩⟩ := exampleZone_content hentry
    · exact absurd ⟨rfl, rfl⟩ hkey
    · decide

def exampleOldZone : MemoryZone (ReferenceTree NameNode) :=
  match run ZoneState.step ⟨exampleObjects, exampleZone, []⟩ [.add 2] with
  | .ok s => s.zone
  | .error _ => exampleZone

/-- An address that the new version does not have survives a full transfer. -/
theorem example_transfer_keeps_old_record :
    ∃ (h' : Objects) (dz' : DynamicZone (ReferenceTree NameNode)),
      updateZoneUseXFR Engine.reference .axfr exampleObjects ⟨exampleOldZone, false⟩ 1 5
        [exampleAnswer 5, exampleAnswer 1, exampleAnswer 3, exampleAnswer 5] = .ok (h', dz') ∧
      ⟨["www", "example"], .a, 60, .a [2, 2, 2, 2]⟩ ∈ (dz'.memoryZone.content h').records ∧
      ⟨["www", "example"], .a, 60, .a [2, 2, 2, 2]⟩ ∉
        recordsOf [exampleObjects.value 5, exampleObjects.value 1, exampleObjects.value 3] := by
  have hmissing : ¬∃ r ∈ [exampleObjects.value 5, exampleObjects.value 1, exampleObjects.value 3],
      ["www", "example"] = r.name ∧ RRType.a = r.typ ∧ 60 = r.ttl ∧
        Rdata.a [2, 2, 2, 2] ∈ r.rdatas := by
    decide
  exact ⟨_, _, rfl, ⟨⟨60, [.a [1, 1, 1, 1], .a [2, 2, 2, 2]]⟩, by decide⟩, hmissing⟩

end Vanguard.Xfr
