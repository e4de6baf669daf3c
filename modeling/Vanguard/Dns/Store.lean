import Vanguard.Dns.Guard

namespace Vanguard.Memory

open Library List

variable {G : Ptr → Prop} {mem mem' : Memory}

theorem allocRRsets_spec (mem : Memory) (rs : Section) :
    mem.Extends (mem.allocRRsets rs).1 ∧ (mem.allocRRsets rs).1.arrays = mem.arrays ∧
      (mem.allocRRsets rs).1.messages = mem.messages ∧
      (mem.allocRRsets rs).2.map (mem.allocRRsets rs).1.rrsets.load = rs ∧
      ∀ p ∈ (mem.allocRRsets rs).2, p < (mem.allocRRsets rs).1.rrsets.next := by
  induction rs generalizing mem with
  | nil => exact ⟨Extends.refl mem, rfl, rfl, rfl, nofun⟩
  | cons r rs ih =>
    obtain ⟨hext, harrays, hmessages, hload, hlt⟩ := ih (mem.allocRRset r).1
    have hfirst : (mem.allocRRset r).2 < (mem.allocRRset r).1.rrsets.next := by simp [allocRRset]
    refine ⟨(extends_allocRRset mem r).trans hext, harrays, hmessages, ?_, ?_⟩
    · simp only [allocRRsets, map_cons, hload, List.cons.injEq, and_true]
      rw [hext.rrsets.load_eq _ hfirst]
      exact Heap.load_alloc _ _
    · intro p hp
      rcases mem_cons.mp hp with rfl | hp
      · exact lt_of_lt_of_le hfirst hext.rrsets.next_le
      · exact hlt p hp

structure StoredSection (mem mem' : Memory) (rs : Section) (s : Slice) : Prop where
  ext : mem.Extends mem'
  messages : mem'.messages = mem.messages
  rrsets : mem'.rrsetsOf s = rs
  sound : mem'.Sound s
  array : s.array = mem.arrays.next
  next : mem'.arrays.next = mem.arrays.next + 1

theorem storeSection_spec (mem : Memory) (rs : Section) (spare : ℕ) :
    StoredSection mem (mem.storeSection rs spare).1 rs (mem.storeSection rs spare).2 := by
  obtain ⟨hext, harrays, hmessages, hload, hlt⟩ := allocRRsets_spec mem rs
  have hread : (mem.storeSection rs spare).2.read (mem.storeSection rs spare).1.arrays =
      (mem.allocRRsets rs).2 := Slice.read_ofList _ _ _
  have harray : (mem.storeSection rs spare).2.array = mem.arrays.next := by
    simp [storeSection, Slice.ofList, harrays]
  have hnext : (mem.storeSection rs spare).1.arrays.next = mem.arrays.next + 1 := by
    simp [storeSection, Slice.ofList, harrays]
  refine ⟨⟨hext.rrsets, ?_, hext.messages⟩, hmessages, ?_, ⟨?_, ?_⟩, harray, hnext⟩
  · refine ⟨hnext ▸ Nat.le_succ _, fun a ha => ?_⟩
    have hold := (Heap.extends_alloc (mem.allocRRsets rs).1.arrays
      (fun i => (mem.allocRRsets rs).2.getD i default)).load_eq a (by rwa [harrays])
    exact hold.trans (by rw [harrays])
  · rw [rrsetsOf, hread]
    exact hload
  · exact .inl (by rw [harray, hnext]; exact Nat.lt_succ_self _)
  · intro i hi
    refine hlt _ ?_
    rw [← hread]
    exact mem_map.mpr ⟨i, mem_range.mpr hi, rfl⟩

structure StoredMessage (mem mem' : Memory) (v : Message Section) (m : Ptr) : Prop where
  ext : mem.Extends mem'
  new : m = mem.messages.next
  lt : m < mem'.messages.next
  view : mem'.view m = v
  answer : mem'.Sound (mem'.messages.load m).answer
  additional : mem'.Sound (mem'.messages.load m).additional
  answer_fresh : mem.Fresh (mem'.messages.load m).answer
  additional_fresh : mem.Fresh (mem'.messages.load m).additional
  apart : (mem'.messages.load m).answer.array ≠ (mem'.messages.load m).additional.array

theorem storeMessage_spec (mem : Memory) (v : Message Section) (spare : ℕ) :
    StoredMessage mem (mem.storeMessage v spare).1 v (mem.storeMessage v spare).2 := by
  have hanswer := storeSection_spec mem v.answer spare
  have hauth := storeSection_spec (mem.storeSection v.answer spare).1 v.auth spare
  have hadditional := storeSection_spec
    ((mem.storeSection v.answer spare).1.storeSection v.auth spare).1 v.additional spare
  have hlater := hauth.ext.trans hadditional.ext
  have hload : (mem.storeMessage v spare).1.messages.load (mem.storeMessage v spare).2 =
      ⟨v.header, v.question, (mem.storeSection v.answer spare).2,
        ((mem.storeSection v.answer spare).1.storeSection v.auth spare).2,
        (((mem.storeSection v.answer spare).1.storeSection v.auth spare).1.storeSection
          v.additional spare).2⟩ := Heap.load_alloc _ _
  have hmessages : (((mem.storeSection v.answer spare).1.storeSection v.auth spare).1.storeSection
      v.additional spare).1.messages = mem.messages := by
    rw [hadditional.messages, hauth.messages, hanswer.messages]
  refine ⟨(hanswer.ext.trans hlater).trans (extends_allocMessage _ _),
    ?_, ?_, ?_, ?_, ?_, ?_, ?_, ?_⟩
  · exact congrArg Heap.next hmessages
  · exact Nat.lt_succ_self _
  · have hrrsets : (mem.storeMessage v spare).1.rrsetsOf = (((mem.storeSection v.answer
        spare).1.storeSection v.auth spare).1.storeSection v.additional spare).1.rrsetsOf := rfl
    simp only [view, hload, hrrsets, Message.map, hlater.rrsetsOf_eq hanswer.sound,
      hadditional.ext.rrsetsOf_eq hauth.sound, hanswer.rrsets, hauth.rrsets, hadditional.rrsets]
  · rw [hload]
    exact (hlater.trans (extends_allocMessage _ _)).sound hanswer.sound
  · rw [hload]
    exact (extends_allocMessage _ _).sound hadditional.sound
  · rw [hload]
    exact .inl hanswer.array.ge
  · rw [hload]
    exact .inl (hadditional.array ▸ (hanswer.ext.trans hauth.ext).arrays.next_le)
  · rw [hload]
    simp only [hanswer.array, hadditional.array, hauth.next, hanswer.next]
    exact (Nat.lt_succ_of_lt (Nat.lt_succ_self _)).ne

variable {v : Message Section} {m : Ptr} (h : StoredMessage mem mem' v m)

include h

theorem StoredMessage.guarded (hguard : mem.Guarded G) : mem'.Guarded (fun g => G g ∨ g = m) := by
  have hkeeps := h.ext.keeps hguard
  have hslot : ∀ t, mem'.Slot (fun g => G g ∨ g = m) t → mem.Slot G t ∨
      t = (mem'.messages.load m).answer ∨ t = (mem'.messages.load m).additional := by
    rintro t ⟨g, hg | rfl, ht⟩
    · exact .inl ((hkeeps.slot_iff t).mp ⟨g, hg, ht⟩)
    · exact .inr ht
  have hanswer : ∀ t, mem.Slot G t → _ := fun t ht =>
    h.answer_fresh.spares (hguard.sound t ht).allocated
  refine ⟨?_, fun t ht => ?_, ?_⟩
  · rintro g (hg | rfl)
    · exact lt_of_lt_of_le (hguard.lt g hg) hkeeps.next_le
    · exact h.lt
  · rcases hslot t ht with ht | rfl | rfl
    · exact hkeeps.sound t ht
    · exact h.answer
    · exact h.additional
  · rintro g (hg | rfl) t ht
    · have hslot' : mem.Slot G (mem'.messages.load g).answer := by
        rw [hkeeps.message g hg]
        exact ⟨g, hg, .inl rfl⟩
      rcases hslot t ht with ht | rfl | rfl
      · rw [hkeeps.message g hg]
        exact hguard.spares g hg t ht
      · exact (hanswer _ hslot').2
      · exact (h.additional_fresh.spares (hguard.sound _ hslot').allocated).2
    · rcases hslot t ht with ht | rfl | rfl
      · exact (hanswer t ht).1
      · exact Slice.Spares.refl _
      · exact Slice.spares_of_ne h.apart

theorem StoredMessage.seen_eq :
    mem'.seen m = ⟨v.question, v.header.rcode, v.answer.map RRset.records,
      v.additional.map RRset.records⟩ := by
  rw [← h.view]
  rfl

end Vanguard.Memory
