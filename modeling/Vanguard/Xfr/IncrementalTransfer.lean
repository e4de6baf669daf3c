import Vanguard.Xfr.Completeness
import Vanguard.Xfr.Differences

namespace Vanguard.Xfr

open Library Zone List

variable {T : Type} [DomainTree T NameNode] [LawfulDomainTree T NameNode]

/-- Differences in sequence between two SOAs of serial `n`. -/
structure IncrementalAnswer (h : Objects) (s n : UInt32) (answers : List AnswerRRset)
    (ds : List Difference) : Prop where
  inputs_eq : ixfrInputs answers =
    .soa true (some n) :: (differenceInputs s ds ++ [.soa true (some n)])
  ne_nil : ds ≠ []
  serial_eq : serialAfter s ds = n
  plain : PlainRRsets h (ds.flatMap fun d => d.deletions ++ d.additions)

/-- The zone is what the changes make of it, if it does what each of them means. -/
theorem incremental_transfer_applies {F : Engine} (hF : F.Lawful) {h : Objects}
    (dz : DynamicZone T) {ttl n latestSerial : UInt32} {x : SOA} {answers : List AnswerRRset}
    {ds : List Difference} (hz : dz.memoryZone.WellFormed h) (hfilled : dz.memoryZone.Filled)
    (hsoa : dz.memoryZone.content h dz.memoryZone.origin .soa = some ⟨ttl, [.soa x]⟩)
    (hns : (dz.memoryZone.content h dz.memoryZone.origin .ns).isSome = true)
    (hplain : PlainMap dz.memoryZone.origin (dz.memoryZone.content h))
    (hanswer : IncrementalAnswer h x.serial n answers ds)
    (hfaithful : FaithfulAlong dz.memoryZone.origin (dz.memoryZone.content h)
      (ds.flatMap (·.changes h))) :
    ∃ h' dz', updateZoneUseXFR F .ixfr h dz x.serial latestSerial answers = .ok (h', dz') ∧
      dz'.memoryZone.content h' dz.memoryZone.origin .soa =
        some ⟨ttl, [.soa { x with serial := n }]⟩ ∧
      ∀ record : Record, ¬(record.name = dz.memoryZone.origin ∧ record.typ = .soa) →
        (record ∈ (dz'.memoryZone.content h').records ↔
          record ∈ (ds.flatMap (·.changes h)).foldl Change.edit
            (dz.memoryZone.content h).records) := by
  have hstart : Follows dz.memoryZone.origin h (ds.flatMap fun d => d.deletions ++ d.additions) ttl
      x x.serial (dz.memoryZone.content h) (⟨h, dz.begin.2, []⟩ : ZoneState T) := by
    refine ⟨intact_begin hz hfilled, ?_, by simp [hsoa], hns, hplain, hanswer.plain.allocated,
      fun _ _ => rfl⟩
    rw [content_begin, ← hsoa, ZoneMap.set_self]
  obtain ⟨s, m, hs, hfollows, hm⟩ := hstart.applyDifferences hanswer.plain (by
    intro d hd
    constructor <;> intro p hp <;> exact mem_flatMap.mpr ⟨d, hd, by simp [hp]⟩) hfaithful
  rw [hanswer.serial_eq] at hfollows
  have hrun : (newXFRStateMachine x.serial latestSerial
      (.ok (⟨h, dz.begin.2, []⟩ : ZoneState T))).run
      F zoneUpdator .ixfr answers = .ok ⟨.done, ⟨n, n, .ok s⟩⟩ := by
    have htransfer := run_transfer (u := zoneUpdator) hF
      ⟨latestSerial, x.serial, .ok (⟨h, dz.begin.2, []⟩ : ZoneState T)⟩ n hanswer.ne_nil
    rw [← hanswer.inputs_eq, hs, hanswer.serial_eq] at htransfer
    exact htransfer
  have hvalid : s.zone.validate = none :=
    hfollows.intact.wellFormed.validate_eq_none_iff.mpr hfollows.hasApex
  refine ⟨s.objects, (dz.begin.1.commit s.zone).1, ?_, ?_⟩
  · unfold updateZoneUseXFR runTransfer
    simp only [hrun]
    rfl
  · rw [memoryZone_commit, if_pos hvalid, hfollows.content_eq]
    refine ⟨by simp [ZoneMap.set], fun record hrecord => ?_⟩
    have hchanges : ∀ c ∈ ds.flatMap (·.changes h), c.rrset.typ ≠ .soa := by
      intro c hc
      obtain ⟨d, hd, hc⟩ := mem_flatMap.mp hc
      have hmem (p : Ptr) (hp : p ∈ d.deletions ++ d.additions) : (h.value p).typ ≠ .soa :=
        hanswer.plain.typ_ne_soa p (mem_flatMap.mpr ⟨d, hd, hp⟩)
      rcases mem_append.mp hc with hc | hc
      · obtain ⟨p, hp, rfl⟩ := mem_map.mp hc
        exact hmem p (mem_append_left _ hp)
      · obtain ⟨p, hp, rfl⟩ := mem_map.mp hc
        exact hmem p (mem_append_right _ hp)
    rw [mem_records_set, if_neg hrecord, hm, records_foldl_apply hchanges hfaithful]

/-- A difference that puts one of two addresses back under another ttl. -/
theorem example_difference_applied :
    ∃ (h' : Objects) (dz' : DynamicZone (ReferenceTree NameNode)),
      updateZoneUseXFR Engine.reference .ixfr exampleObjects ⟨exampleOldZone, false⟩ 1 2
        [exampleSoa 0 2, exampleSoa 0 1, exampleAnswer 2, exampleSoa 0 2, exampleAnswer 3,
          exampleSoa 0 2] = .ok (h', dz') ∧
      dz'.memoryZone.content h' ["example"] .soa = some ⟨300,
        [.soa ⟨["ns", "example"], ["root", "example"], 2, 7200, 3600, 86400, 300⟩]⟩ ∧
      ∀ record : Record, ¬(record.name = ["example"] ∧ record.typ = .soa) →
        (record ∈ (dz'.memoryZone.content h').records ↔
          record ∈ ((⟨[2], [3]⟩ : Difference).changes exampleObjects).foldl Change.edit
            (exampleOldZone.content exampleObjects).records) := by
  have hops : ∀ p ∈ [0, 1, 2], (ZoneOp.add p).WellFormed exampleObjects := by decide
  obtain ⟨s, hs, hintact, -⟩ := intact_of_additions (T := ReferenceTree NameNode) ["example"] hops
  cases hs
  have hplain : PlainMap ["example"] (exampleOldZone.content exampleObjects) := by
    intro n t e hentry hkey
    obtain ⟨node, hnode, nodeData, hdata, p, hslot, rfl, rfl⟩ := mem_nodes_of_content hentry
    have hall : ∀ node ∈ exampleOldZone.domains.nodes, ∀ nodeData ∈ node.2.data,
        ∀ slot ∈ nodeData.entries, ∀ p ∈ slot.2, ¬(node.1 = ["example"] ∧ slot.1 = .soa) →
          ∀ y ∈ (exampleObjects.value p).rdatas, y.isSoa = false := by
      decide
    exact hall node hnode nodeData hdata _ hslot p rfl hkey
  have hanswer : IncrementalAnswer exampleObjects 1 2 [exampleSoa 0 2, exampleSoa 0 1,
      exampleAnswer 2, exampleSoa 0 2, exampleAnswer 3, exampleSoa 0 2] [⟨[2], [3]⟩] :=
    ⟨rfl, by decide, rfl, ⟨by decide, by decide, by decide⟩⟩
  have hfaithful : FaithfulAlong ["example"] (exampleOldZone.content exampleObjects)
      (([⟨[2], [3]⟩] : List Difference).flatMap (·.changes exampleObjects)) := by
    refine ⟨⟨by decide, fun e hentry => ?_⟩, ⟨⟨by decide, by decide, fun _ => by decide, nofun⟩,
      fun e hentry => ?_⟩, trivial⟩
    · cases hentry
      decide
    · cases hentry
  exact incremental_transfer_applies Engine.lawful_reference ⟨exampleOldZone, false⟩
    hintact.wellFormed hintact.filled rfl (by decide) hplain hanswer hfaithful

/-- A difference that lists one of the two addresses of an RRset takes both. -/
theorem example_difference_takes_unlisted_record :
    ∃ (h' : Objects) (dz' : DynamicZone (ReferenceTree NameNode)),
      updateZoneUseXFR Engine.reference .ixfr exampleObjects ⟨exampleOldZone, false⟩ 1 2
        [exampleSoa 0 2, exampleSoa 0 1, exampleAnswer 3, exampleSoa 0 2, exampleSoa 0 2] =
          .ok (h', dz') ∧
      ⟨["www", "example"], .a, 300, .a [2, 2, 2, 2]⟩ ∈
        (exampleOldZone.content exampleObjects).records ∧
      (exampleObjects.value 3).rdatas = [.a [1, 1, 1, 1]] ∧
      dz'.memoryZone.content h' ["www", "example"] .a = none :=
  ⟨_, _, rfl, ⟨⟨300, [.a [1, 1, 1, 1], .a [2, 2, 2, 2]]⟩, by decide⟩, by decide, by decide⟩

end Vanguard.Xfr
