import Vanguard.Cache.Handlers
import Vanguard.Dns.Guard

namespace Vanguard.Cache

open Library Memory List

variable {G : Ptr → Prop} {mem : Memory}

theorem keeps_roundrobinAnswer (rt : Runtime) (hguard : mem.Guarded G) (m : Ptr) :
    Keeps G mem (MessageCache.roundrobinAnswer rt mem m) := by
  unfold MessageCache.roundrobinAnswer
  generalize (mem.messages.load m).answer.read mem.arrays = answers
  induction answers generalizing mem with
  | nil => exact Keeps.refl hguard
  | cons rrset answers ih =>
    rw [foldl_cons]
    split
    · have hrotate : Keeps G mem
          (mem.modifyRRset rrset (fun r => { r with rdatas := rt.rotate r.rdatas })) := by
        refine keeps_modifyRRset hguard rrset _ fun r => ?_
        simp only [RRset.records, Records.mk.injEq, true_and]
        exact Multiset.coe_eq_coe.mpr (rt.rotate_perm _)
      exact hrotate.trans (ih (hrotate.guarded hguard))
    · exact ih hguard

section

variable {P : Type} (rt : Runtime) (conf : ViewConf P)

theorem records_sortRRset {ip : List UInt8} {r sorted : RRset Rdata}
    (h : sortRRset rt conf ip r = .ok (some sorted)) : sorted.records = r.records := by
  unfold sortRRset at h
  split at h
  · cases h
  · split at h
    · cases h
    · split at h
      · cases h
        simp only [RRset.records, Records.mk.injEq, true_and]
        exact Multiset.coe_eq_coe.mpr (rt.sort_perm _ _)
      · cases h

theorem keeps_sortAnswers (ip : List UInt8) (answers : Slice) (is : List ℕ)
    (hguard : mem.Guarded G) : Keeps G mem (sortAnswers rt conf ip answers is mem).1 := by
  induction is generalizing mem with
  | nil => exact Keeps.refl hguard
  | cons i is ih =>
    unfold sortAnswers
    split
    · exact Keeps.refl hguard
    · exact ih hguard
    · rename_i sorted hsorted
      have hrecords := records_sortRRset rt conf hsorted
      have halloc := (extends_allocRRset mem sorted).keeps hguard
      have hguard' := halloc.guarded hguard
      have hset : Keeps G (mem.allocRRset sorted).1
          ((mem.allocRRset sorted).1.setElem answers i (mem.allocRRset sorted).2) := by
        refine keeps_setElem hguard' answers i (by simp [allocRRset]) ?_
        by_cases hp : mem.arrays.load answers.array i = mem.rrsets.next
        · simp [allocRRset, hp]
        · simp only [allocRRset, Heap.load_alloc, Heap.load_alloc_of_ne hp, hrecords]
      exact halloc.trans (hset.trans (ih (hset.guarded hguard')))

theorem keeps_mergeAnswers (answers : Slice) (is : List ℕ) {finalAnswers : Slice}
    (hguard : mem.Guarded G) (hspares : mem.SparesAll G finalAnswers) :
    Keeps G mem (mergeAnswers rt conf answers is mem finalAnswers).1 ∧
      ∀ merged, (mergeAnswers rt conf answers is mem finalAnswers).2 = .ok merged →
        (mergeAnswers rt conf answers is mem finalAnswers).1.SparesAll G merged := by
  induction is generalizing mem finalAnswers with
  | nil =>
    refine ⟨Keeps.refl hguard, ?_⟩
    rintro merged ⟨⟩
    exact hspares
  | cons i is ih =>
    unfold mergeAnswers
    simp only []
    split
    · have happend := keeps_append hguard rt.grow hspares (mem.arrays.load answers.array i)
      obtain ⟨hkeeps, hmerged⟩ := ih (happend.guarded hguard)
        (happend.sparesAll (sparesAll_append hguard rt.grow hspares _))
      exact ⟨happend.trans hkeeps, hmerged⟩
    · split
      · exact ⟨Keeps.refl hguard, nofun⟩
      · rename_i aaaa _
        have halloc := (extends_allocRRset mem aaaa).keeps hguard
        have hguard' := halloc.guarded hguard
        have hspares' := halloc.sparesAll hspares
        have happend := keeps_append hguard' rt.grow hspares' (mem.allocRRset aaaa).2
        refine ⟨halloc.trans happend, ?_⟩
        rintro merged ⟨⟩
        exact happend.sparesAll (sparesAll_append hguard' rt.grow hspares' _)

variable {m : Ptr}

theorem keeps_addLocalRRset (hguard : mem.Guarded G) (r : RRset Rdata) (hm : ¬G m)
    (hspares : mem.SparesAll G (mem.messages.load m).answer) :
    Keeps G mem (addLocalRRset rt r m mem) := by
  have halloc := (extends_allocRRset mem r).keeps hguard
  have happend := keeps_append (halloc.guarded hguard) rt.grow (halloc.sparesAll hspares)
    (mem.allocRRset r).2
  simp only [addLocalRRset]
  exact halloc.trans (happend.trans
    (keeps_modifyMessage (happend.guarded (halloc.guarded hguard)) hm _))

theorem keeps_collect (ps : List Ptr) (acc : Memory × Slice) (hguard : acc.1.Guarded G)
    (hspares : acc.1.SparesAll G acc.2) :
    Keeps G acc.1 (ps.foldl (fun acc p =>
      if (acc.1.rrsets.load p).typ ≠ .aaaa then acc.1.append rt.grow acc.2 p else acc) acc).1 := by
  induction ps generalizing acc with
  | nil => exact Keeps.refl hguard
  | cons p ps ih =>
    simp only [foldl_cons]
    split
    · have happend := keeps_append hguard rt.grow hspares p
      exact happend.trans (ih _ (happend.guarded hguard)
        (happend.sparesAll (sparesAll_append hguard rt.grow hspares p)))
    · exact ih acc hguard hspares

theorem keeps_removeAaaaInSection (hguard : mem.Guarded G) (s : Slice) :
    Keeps G mem (removeAaaaInSection rt mem s).1 :=
  keeps_collect rt _ (mem, .nil) hguard (fun t _ => Slice.spares_nil t)

theorem keeps_removeAaaaRecords (hguard : mem.Guarded G) (hm : ¬G m) :
    Keeps G mem (removeAaaaRecords rt mem m) := by
  have hstep : ∀ (mem : Memory) (s : Slice) (f : Message Slice → Message Slice), mem.Guarded G →
      Keeps G mem ((removeAaaaInSection rt mem s).1.modifyMessage m f) := by
    intro mem s f hguard
    have hsection := keeps_removeAaaaInSection rt hguard s
    exact hsection.trans (keeps_modifyMessage (hsection.guarded hguard) hm f)
  simp only [removeAaaaRecords]
  have hanswer := hstep mem (mem.messages.load m).answer
    (fun msg => { msg with answer := (removeAaaaInSection rt mem (mem.messages.load m).answer).2 })
    hguard
  exact hanswer.trans (hstep _ _ _ (hanswer.guarded hguard))

theorem collect_spec (mem₀ : Memory) (ps : List Ptr) (acc : Memory × Slice)
    (halloc : acc.2.Allocated acc.1.arrays) (hfresh : mem₀.Fresh acc.2)
    (hnext : mem₀.arrays.next ≤ acc.1.arrays.next) :
    let out := ps.foldl (fun acc p =>
      if (acc.1.rrsets.load p).typ ≠ .aaaa then acc.1.append rt.grow acc.2 p else acc) acc
    out.1.rrsets = acc.1.rrsets ∧ out.1.messages = acc.1.messages ∧
      out.2.read out.1.arrays = acc.2.read acc.1.arrays ++
        ps.filter (fun p => (acc.1.rrsets.load p).typ ≠ .aaaa) ∧
      out.2.Allocated out.1.arrays ∧ mem₀.Fresh out.2 := by
  induction ps generalizing acc with
  | nil => exact ⟨rfl, rfl, by simp, halloc, hfresh⟩
  | cons p ps ih =>
    simp only [foldl_cons]
    by_cases htyp : (acc.1.rrsets.load p).typ ≠ .aaaa
    · have hfresh' : mem₀.Fresh (acc.1.append rt.grow acc.2 p).2 := by
        by_cases hroom : acc.2.len < acc.2.cap
        · have harray : mem₀.arrays.next ≤ acc.2.array :=
            hfresh.resolve_right fun hempty => by omega
          exact .inl (by simpa [append, Slice.append, hroom] using harray)
        · exact .inl (by simpa [append, Slice.append, hroom] using hnext)
      have hread : (acc.1.append rt.grow acc.2 p).2.read (acc.1.append rt.grow acc.2 p).1.arrays =
          acc.2.read acc.1.arrays ++ [p] := Slice.read_append_self _ _ _ _
      obtain ⟨hrrsets, hmessages, hout, halloc', hfresh''⟩ := ih (acc.1.append rt.grow acc.2 p)
        (Slice.allocated_append_self halloc _ _) hfresh'
        (hnext.trans (Slice.next_le_append _ _ _ _))
      have hsame : (acc.1.append rt.grow acc.2 p).1.rrsets = acc.1.rrsets := rfl
      rw [if_pos htyp]
      refine ⟨hrrsets, hmessages, ?_, halloc', hfresh''⟩
      rw [hout, hread, hsame, filter_cons_of_pos (by simpa using htyp), append_assoc]
      rfl
    · rw [if_neg htyp, filter_cons_of_neg (by simpa using htyp)]
      exact ih acc halloc hfresh hnext

theorem removeAaaaInSection_spec {s : Slice} (hs : mem.Sound s)
    (hno : ∀ r ∈ mem.recordsOf s, r.typ ≠ .aaaa) :
    (removeAaaaInSection rt mem s).1.Sound (removeAaaaInSection rt mem s).2 ∧
      mem.Fresh (removeAaaaInSection rt mem s).2 ∧
      (removeAaaaInSection rt mem s).1.recordsOf (removeAaaaInSection rt mem s).2 =
        mem.recordsOf s := by
  obtain ⟨hrrsets, -, hread, halloc, hfresh⟩ := collect_spec rt mem (s.read mem.arrays)
    (mem, .nil) (Slice.allocated_nil _) (.inr ⟨rfl, rfl⟩) le_rfl
  have hall : (s.read mem.arrays).filter (fun p => (mem.rrsets.load p).typ ≠ .aaaa) =
      s.read mem.arrays := by
    refine filter_eq_self.mpr fun p hp => ?_
    have hr := hno (mem.rrsets.load p).records (mem_map.mpr ⟨_, mem_map.mpr ⟨p, hp, rfl⟩, rfl⟩)
    simpa [RRset.records] using hr
  simp only [Slice.read_nil, nil_append, hall] at hread
  refine ⟨⟨halloc, fun i hi => ?_⟩, hfresh, ?_⟩
  · have hmem : (removeAaaaInSection rt mem s).1.arrays.load
        (removeAaaaInSection rt mem s).2.array i ∈ s.read mem.arrays := by
      rw [← hread]
      exact mem_map.mpr ⟨i, mem_range.mpr hi, rfl⟩
    obtain ⟨j, hj, hcell⟩ := mem_map.mp hmem
    rw [← hcell]
    exact lt_of_lt_of_eq (hs.lt j (mem_range.mp hj)) (congrArg Heap.next hrrsets).symm
  · simp only [recordsOf, rrsetsOf]
    exact congrArg _ (by rw [removeAaaaInSection, hread, hrrsets])

theorem seen_removeAaaaInSection (hguard : mem.Guarded G) (hm : G m) {s : Slice}
    (hslot : mem.Slot G s) (hno : ∀ r ∈ mem.recordsOf s, r.typ ≠ .aaaa)
    (f : Message Slice → Message Slice) (hquestion : ∀ msg, (f msg).question = msg.question)
    (hrcode : ∀ msg, (f msg).header.rcode = msg.header.rcode)
    (hanswer : (f (mem.messages.load m)).answer = (mem.messages.load m).answer ∨
      ((f (mem.messages.load m)).answer = (removeAaaaInSection rt mem s).2 ∧
        s = (mem.messages.load m).answer))
    (hadditional : (f (mem.messages.load m)).additional = (mem.messages.load m).additional ∨
      ((f (mem.messages.load m)).additional = (removeAaaaInSection rt mem s).2 ∧
        s = (mem.messages.load m).additional)) :
    ((removeAaaaInSection rt mem s).1.modifyMessage m f).Guarded G ∧
      ∀ g, G g → ((removeAaaaInSection rt mem s).1.modifyMessage m f).seen g = mem.seen g := by
  have hkeeps := keeps_removeAaaaInSection rt hguard s
  obtain ⟨hsound, hfresh, hrecords⟩ := removeAaaaInSection_spec rt (hguard.sound s hslot) hno
  refine ⟨guarded_replace hguard hkeeps hm f _ hsound hfresh (hanswer.imp id And.left)
    (hadditional.imp id And.left), fun g hg => ?_⟩
  by_cases hgm : g = m
  · subst hgm
    have hload : ((removeAaaaInSection rt mem s).1.modifyMessage g f).messages.load g =
        f (mem.messages.load g) := by
      rw [← hkeeps.message g hg]
      exact Heap.load_write_self _ _ _
    have hsame : ∀ new old, mem.Slot G old →
        (new = old ∨ (new = (removeAaaaInSection rt mem s).2 ∧ s = old)) →
        ((removeAaaaInSection rt mem s).1.modifyMessage g f).recordsOf new = mem.recordsOf old := by
      rintro new old hold (rfl | ⟨rfl, rfl⟩)
      · exact hkeeps.records _ hold
      · exact hrecords
    simp only [seen, hload, hquestion, hrcode, hsame _ _ ⟨g, hg, .inl rfl⟩ hanswer,
      hsame _ _ ⟨g, hg, .inr rfl⟩ hadditional]
  · exact seen_modifyMessage_of_ne hkeeps hg hgm f

theorem seen_removeAaaaRecords (hguard : mem.Guarded G) (hm : G m)
    (hanswer : ∀ r ∈ (mem.seen m).answer, r.typ ≠ .aaaa)
    (hadditional : ∀ r ∈ (mem.seen m).additional, r.typ ≠ .aaaa) :
    (removeAaaaRecords rt mem m).Guarded G ∧
      ∀ g, G g → (removeAaaaRecords rt mem m).seen g = mem.seen g := by
  simp only [removeAaaaRecords]
  obtain ⟨hguard₁, hseen₁⟩ := seen_removeAaaaInSection rt hguard hm ⟨m, hm, .inl rfl⟩ hanswer
    (fun msg => { msg with answer := (removeAaaaInSection rt mem (mem.messages.load m).answer).2 })
    (fun _ => rfl) (fun _ => rfl) (.inr ⟨rfl, rfl⟩) (.inl rfl)
  rw [← hseen₁ m hm] at hadditional
  generalize (removeAaaaInSection rt mem (mem.messages.load m).answer).1.modifyMessage m _ = mem₁
    at hguard₁ hseen₁ hadditional ⊢
  obtain ⟨hguard₂, hseen₂⟩ := seen_removeAaaaInSection rt hguard₁ hm ⟨m, hm, .inr rfl⟩
    hadditional
    (fun msg => { msg with
      additional := (removeAaaaInSection rt mem₁ (mem₁.messages.load m).additional).2 })
    (fun _ => rfl) (fun _ => rfl) (.inl rfl) (.inr ⟨rfl, rfl⟩)
  exact ⟨hguard₂, fun g hg => (hseen₂ g hg).trans (hseen₁ g hg)⟩

end

end Vanguard.Cache
