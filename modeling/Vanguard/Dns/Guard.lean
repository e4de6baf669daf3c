import Vanguard.Dns.Memory

namespace Vanguard

open Library List Heap

/-- An RRset without its ttl and without the order of its rdatas. -/
structure Records where
  name : Name
  typ : RRType
  cls : RRClass
  rdatas : Multiset Rdata
  deriving DecidableEq

def RRset.records (r : RRset Rdata) : Records := ⟨r.name, r.typ, r.cls, r.rdatas⟩

namespace Memory

section

variable (mem : Memory)

def recordsOf (s : Slice) : List Records := (mem.rrsetsOf s).map RRset.records

structure Sound (s : Slice) : Prop where
  allocated : s.Allocated mem.arrays
  lt : ∀ i < s.len, mem.arrays.load s.array i < mem.rrsets.next

def Slot (G : Ptr → Prop) (s : Slice) : Prop :=
  ∃ m, G m ∧ (s = (mem.messages.load m).answer ∨ s = (mem.messages.load m).additional)

def SparesAll (G : Ptr → Prop) (s : Slice) : Prop := ∀ t, mem.Slot G t → s.Spares t

/-- The messages exist with all they lead to, and an appended answer touches no other. -/
structure Guarded (G : Ptr → Prop) : Prop where
  lt : ∀ m, G m → m < mem.messages.next
  sound : ∀ s, mem.Slot G s → mem.Sound s
  spares : ∀ m, G m → mem.SparesAll G (mem.messages.load m).answer

end

structure Keeps (G : Ptr → Prop) (mem mem' : Memory) : Prop where
  next_le : mem.messages.next ≤ mem'.messages.next
  message : ∀ m, G m → mem'.messages.load m = mem.messages.load m
  sound : ∀ s, mem.Slot G s → mem'.Sound s
  records : ∀ s, mem.Slot G s → mem'.recordsOf s = mem.recordsOf s

variable {G : Ptr → Prop} {mem mem' mem'' : Memory}

theorem Keeps.slot_iff (h : Keeps G mem mem') (s : Slice) : mem'.Slot G s ↔ mem.Slot G s := by
  constructor
  · rintro ⟨m, hm, hs⟩
    rw [h.message m hm] at hs
    exact ⟨m, hm, hs⟩
  · rintro ⟨m, hm, hs⟩
    rw [← h.message m hm] at hs
    exact ⟨m, hm, hs⟩

variable {s : Slice}

theorem Keeps.sparesAll (h : Keeps G mem mem') (hs : mem.SparesAll G s) :
    mem'.SparesAll G s := fun t ht => hs t ((h.slot_iff t).mp ht)

theorem Keeps.guarded (h : Keeps G mem mem') (hguard : mem.Guarded G) : mem'.Guarded G where
  lt m hm := lt_of_lt_of_le (hguard.lt m hm) h.next_le
  sound s hs := h.sound s ((h.slot_iff s).mp hs)
  spares m hm := by
    rw [h.message m hm]
    exact h.sparesAll (hguard.spares m hm)

theorem Keeps.refl (hguard : mem.Guarded G) : Keeps G mem mem :=
  ⟨le_rfl, fun _ _ => rfl, hguard.sound, fun _ _ => rfl⟩

theorem Keeps.trans (h : Keeps G mem mem') (h' : Keeps G mem' mem'') : Keeps G mem mem'' where
  next_le := h.next_le.trans h'.next_le
  message m hm := (h'.message m hm).trans (h.message m hm)
  sound s hs := h'.sound s ((h.slot_iff s).mpr hs)
  records s hs := (h'.records s ((h.slot_iff s).mpr hs)).trans (h.records s hs)

theorem recordsOf_congr (h : ∀ i < s.len, (mem'.rrsets.load (mem'.arrays.load s.array i)).records =
      (mem.rrsets.load (mem.arrays.load s.array i)).records) :
    mem'.recordsOf s = mem.recordsOf s := by
  simp only [recordsOf, rrsetsOf, Slice.read, map_map]
  exact map_congr_left fun i hi => h i (mem_range.mp hi)

structure Extends (mem mem' : Memory) : Prop where
  rrsets : mem.rrsets.Extends mem'.rrsets
  arrays : mem.arrays.Extends mem'.arrays
  messages : mem.messages.Extends mem'.messages

theorem Extends.refl (mem : Memory) : mem.Extends mem := ⟨.refl _, .refl _, .refl _⟩

section

variable (h : mem.Extends mem')

include h

theorem Extends.trans (h' : mem'.Extends mem'') : mem.Extends mem'' :=
  ⟨h.rrsets.trans h'.rrsets, h.arrays.trans h'.arrays, h.messages.trans h'.messages⟩

theorem Extends.load_eq (hs : mem.Sound s) {i : ℕ} (hi : i < s.len) :
    mem'.arrays.load s.array i = mem.arrays.load s.array i := by
  rcases hs.allocated with harray | ⟨hlen, -⟩
  · rw [h.arrays.load_eq _ harray]
  · omega

theorem Extends.sound (hs : mem.Sound s) : mem'.Sound s where
  allocated := hs.allocated.of_extends h.arrays
  lt i hi := by
    rw [h.load_eq hs hi]
    exact lt_of_lt_of_le (hs.lt i hi) h.rrsets.next_le

theorem Extends.rrsetsOf_eq (hs : mem.Sound s) : mem'.rrsetsOf s = mem.rrsetsOf s := by
  simp only [rrsetsOf, Slice.read, map_map]
  refine map_congr_left fun i hi => ?_
  have hlt := mem_range.mp hi
  simp only [Function.comp_apply, h.load_eq hs hlt, h.rrsets.load_eq _ (hs.lt i hlt)]

theorem Extends.keeps (hguard : mem.Guarded G) : Keeps G mem mem' where
  next_le := h.messages.next_le
  message m hm := h.messages.load_eq m (hguard.lt m hm)
  sound s hs := h.sound (hguard.sound s hs)
  records s hs := by rw [recordsOf, h.rrsetsOf_eq (hguard.sound s hs), recordsOf]

end

theorem extends_allocMessage (mem : Memory) (msg : Message Slice) :
    mem.Extends (mem.allocMessage msg).1 := ⟨.refl _, .refl _, extends_alloc _ _⟩

theorem extends_allocRRset (mem : Memory) (r : RRset Rdata) :
    mem.Extends (mem.allocRRset r).1 := ⟨extends_alloc _ _, .refl _, .refl _⟩

section

variable (hguard : mem.Guarded G)

include hguard

theorem keeps_modifyMessage {r : Ptr} (hr : ¬G r) (f : Message Slice → Message Slice) :
    Keeps G mem (mem.modifyMessage r f) where
  next_le := le_rfl
  message m hm := by
    have hne : m ≠ r := by
      rintro rfl
      exact hr hm
    exact load_write_of_ne hne _
  sound s hs := ⟨(hguard.sound s hs).allocated, (hguard.sound s hs).lt⟩
  records _ _ := rfl

theorem keeps_modifyRRset (p : Ptr) (f : RRset Rdata → RRset Rdata)
    (hf : ∀ r, (f r).records = r.records) : Keeps G mem (mem.modifyRRset p f) where
  next_le := le_rfl
  message _ _ := rfl
  sound s hs := ⟨(hguard.sound s hs).allocated, (hguard.sound s hs).lt⟩
  records s _ := by
    refine recordsOf_congr fun i _ => ?_
    simp only [modifyRRset]
    by_cases hp : mem.arrays.load s.array i = p
    · rw [hp, load_write_self, hf]
    · rw [load_write_of_ne hp]

theorem keeps_setElem (s : Slice) (i : ℕ) {p : Ptr} (hp : p < mem.rrsets.next)
    (hrecords : (mem.rrsets.load p).records =
      (mem.rrsets.load (mem.arrays.load s.array i)).records) :
    Keeps G mem (mem.setElem s i p) where
  next_le := le_rfl
  message _ _ := rfl
  sound t ht := by
    refine ⟨(hguard.sound t ht).allocated, fun j hj => ?_⟩
    simp only [setElem, Slice.load_set]
    by_cases hcell : t.array = s.array ∧ j = i
    · rwa [if_pos hcell]
    · rw [if_neg hcell]
      exact (hguard.sound t ht).lt j hj
  records t _ := by
    refine recordsOf_congr fun j _ => ?_
    simp only [setElem, Slice.load_set]
    by_cases hcell : t.array = s.array ∧ j = i
    · rw [if_pos hcell, hrecords, hcell.1, hcell.2]
    · rw [if_neg hcell]

variable (grow : ℕ → ℕ) (hs : mem.SparesAll G s) (p : Ptr)

include hs

theorem keeps_append : Keeps G mem (mem.append grow s p).1 where
  next_le := le_rfl
  message _ _ := rfl
  sound t ht := by
    have hsound := hguard.sound t ht
    refine ⟨hsound.allocated.append grow s p, fun i hi => ?_⟩
    have hread := Slice.read_append grow (hs t ht) hsound.allocated p
    have hcell := map_inj_left.mp hread i (mem_range.mpr hi)
    simp only [append]
    rw [hcell]
    exact hsound.lt i hi
  records t ht := by
    simp only [recordsOf, rrsetsOf, append]
    rw [Slice.read_append grow (hs t ht) (hguard.sound t ht).allocated p]

theorem sparesAll_append : mem.SparesAll G (mem.append grow s p).2 :=
  fun t ht => (hs t ht).append (hguard.sound t ht).allocated grow p

end

/-- What a reader of the message sees, apart from ttls and the order of rdatas. -/
structure Seen where
  question : Question
  rcode : Rcode
  answer : List Records
  additional : List Records
  deriving DecidableEq

def seen (mem : Memory) (m : Ptr) : Seen :=
  ⟨(mem.messages.load m).question, (mem.messages.load m).header.rcode,
    mem.recordsOf (mem.messages.load m).answer, mem.recordsOf (mem.messages.load m).additional⟩

theorem Keeps.seen_eq (h : Keeps G mem mem') {m : Ptr} (hm : G m) : mem'.seen m = mem.seen m := by
  simp only [seen, h.message m hm, h.records _ ⟨m, hm, .inl rfl⟩, h.records _ ⟨m, hm, .inr rfl⟩]

def Fresh (mem : Memory) (s : Slice) : Prop := mem.arrays.next ≤ s.array ∨ (s.len = 0 ∧ s.cap = 0)

theorem Fresh.spares {s t : Slice} (hs : mem.Fresh s) (ht : t.Allocated mem.arrays) :
    s.Spares t ∧ t.Spares s := by
  constructor
  · intro harray hroom
    rcases hs with hnext | ⟨-, hcap⟩
    · rcases ht with hold | ⟨hlen, -⟩
      · exact absurd hold (by rw [← harray]; exact not_lt.mpr hnext)
      · omega
    · omega
  · intro harray hroom
    rcases ht with hold | ⟨-, hcap⟩
    · rcases hs with hnext | ⟨hlen, -⟩
      · exact absurd hold (by rw [harray]; exact not_lt.mpr hnext)
      · omega
    · omega

theorem guarded_replace (hguard : mem.Guarded G) (hkeeps : Keeps G mem mem') {m : Ptr} (hm : G m)
    (f : Message Slice → Message Slice) (new : Slice) (hsound : mem'.Sound new)
    (hfresh : mem.Fresh new)
    (hanswer : (f (mem.messages.load m)).answer = (mem.messages.load m).answer ∨
      (f (mem.messages.load m)).answer = new)
    (hadditional : (f (mem.messages.load m)).additional = (mem.messages.load m).additional ∨
      (f (mem.messages.load m)).additional = new) :
    (mem'.modifyMessage m f).Guarded G := by
  have hload : ∀ g, G g → (mem'.modifyMessage m f).messages.load g =
      if g = m then f (mem.messages.load m) else mem.messages.load g := by
    intro g hg
    by_cases hgm : g = m
    · subst hgm
      simp [modifyMessage, hkeeps.message g hg]
    · simp only [modifyMessage, load_write_of_ne hgm, hkeeps.message g hg, hgm, if_false]
  have hslot : ∀ t, (mem'.modifyMessage m f).Slot G t → mem.Slot G t ∨ t = new := by
    rintro t ⟨g, hg, ht⟩
    rw [hload g hg] at ht
    by_cases hgm : g = m
    · rw [if_pos hgm] at ht
      rcases ht with rfl | rfl
      · exact hanswer.imp (fun h => ⟨m, hm, .inl h⟩) id
      · exact hadditional.imp (fun h => ⟨m, hm, .inr h⟩) id
    · rw [if_neg hgm] at ht
      exact .inl ⟨g, hg, ht⟩
  have hold : ∀ t, mem.Slot G t → new.Spares t ∧ t.Spares new := fun t ht =>
    hfresh.spares (hguard.sound t ht).allocated
  have hspares : ∀ g, G g → ∀ s, (s = (mem.messages.load g).answer ∨ s = new) →
      (mem'.modifyMessage m f).SparesAll G s := by
    rintro g hg s hs t ht
    rcases hs with rfl | rfl
    · rcases hslot t ht with ht | rfl
      · exact hguard.spares g hg t ht
      · exact (hold _ ⟨g, hg, .inl rfl⟩).2
    · rcases hslot t ht with ht | rfl
      · exact (hold t ht).1
      · exact Slice.Spares.refl _
  refine ⟨fun g hg => lt_of_lt_of_le (hguard.lt g hg) hkeeps.next_le, fun t ht => ?_,
    fun g hg => ?_⟩
  · rcases hslot t ht with ht | rfl
    · exact ⟨(hkeeps.sound t ht).allocated, (hkeeps.sound t ht).lt⟩
    · exact ⟨hsound.allocated, hsound.lt⟩
  · rw [hload g hg]
    by_cases hgm : g = m
    · rw [if_pos hgm]
      exact hspares m hm _ hanswer
    · rw [if_neg hgm]
      exact hspares g hg _ (.inl rfl)

theorem seen_modifyMessage_of_ne (hkeeps : Keeps G mem mem') {m g : Ptr} (hg : G g) (hne : g ≠ m)
    (f : Message Slice → Message Slice) : (mem'.modifyMessage m f).seen g = mem.seen g := by
  have hload : (mem'.modifyMessage m f).messages.load g = mem'.messages.load g :=
    load_write_of_ne hne _
  rw [← hkeeps.seen_eq hg, seen, seen, hload]
  rfl

end Memory

end Vanguard
