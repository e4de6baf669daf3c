import Vanguard.Cache.MessageCache
import Vanguard.Cache.Pass
import Vanguard.Library.Lru
import Vanguard.Library.Runs

namespace Vanguard.Cache

open Library

namespace MessageCache

def remove (rt : Runtime) (c : MessageCache) (mem : Memory) (name : Name) (typ : RRType) :
    MessageCache :=
  match c.cache (keyForMessage rt name typ) with
  | some ele => removeElement rt c mem ele
  | none => c

def clear (c : MessageCache) : MessageCache :=
  { c with ll := { c.ll with elems := [] }, cache := fun _ => none }

end MessageCache

/-- What is put into the cache: a message with its question at that time and its expiry. -/
structure Deposit where
  question : Question
  message : Ptr
  expireTime : Time
  deriving DecidableEq, Repr

inductive CacheCall where
  | add (now : Time) (message : Ptr)
  | get (now : Time) (name : Name) (typ : RRType)
  | remove (name : Name) (typ : RRType)
  | clear
  | elsewhere (mem : Memory)

inductive Mutated where
  | mutated
  deriving DecidableEq, Repr

/-- The cache with the objects and the journal, the last effect first. -/
structure LruState where
  cache : MessageCache
  mem : Memory
  log : List (Effect Key Deposit)

def questionOf (mem : Memory) (m : Ptr) : Question := (mem.messages.load m).question

def keyOf (rt : Runtime) (mem : Memory) (entry : MessageCacheEntry) : Key :=
  keyForMessage rt (questionOf mem entry.message).name (questionOf mem entry.message).typ

def emptyCache (positiveTtl negativeTtl : UInt32) (maxSize : ℕ) (shortAnswer : Bool) :
    MessageCache :=
  ⟨positiveTtl, negativeTtl, maxSize, shortAnswer, .new, fun _ => none⟩

namespace LruState

variable (rt : Runtime)

variable (s : LruState)

/-- The keys that an `Add` dropped: they led to an element before and lead to none now. -/
def evictions (after : MessageCache) : List Key :=
  (s.cache.ll.elems.map fun e => keyOf rt s.mem e.value).filter fun k => (after.cache k).isNone

def deposited : List Ptr :=
  s.log.filterMap fun
    | .added _ d => some d.message
    | _ => none

def add (now : Time) (message : Ptr) : LruState :=
  let entry := (s.cache.messageToCache now s.mem message).2
  let (cache, mem) := MessageCache.addMessage rt s.cache now s.mem message
  let question := questionOf mem message
  { cache, mem,
    log := (s.evictions rt cache).map .evicted ++
      .added (keyForMessage rt question.name question.typ) ⟨question, message, entry.expireTime⟩ ::
        s.log }

def step : CacheCall → Except Mutated LruState
  | .add now message => .ok (s.add rt now message)
  | .get now name typ =>
    match MessageCache.get rt s.cache now s.mem name typ with
    | some (_, cache, mem) => .ok ⟨cache, mem, .hit (keyForMessage rt name typ) :: s.log⟩
    | none => .ok s
  | .remove name typ =>
    .ok { s with cache := MessageCache.remove rt s.cache s.mem name typ,
                 log := .removed (keyForMessage rt name typ) :: s.log }
  | .clear => .ok { s with cache := s.cache.clear, log := .cleared :: s.log }
  | .elsewhere mem =>
    if ∀ m ∈ s.deposited, questionOf mem m = questionOf s.mem m then .ok { s with mem }
    else .error .mutated

/-- A key leads to the element whose message has it, and no element is twice in the list. -/
structure InBijection : Prop where
  nodup : (s.cache.ll.elems.map Element.id).Nodup
  find : ∀ k e, s.cache.cache k = some e ↔ e ∈ s.cache.ll.elems ∧ keyOf rt s.mem e.value = k

/-- Only one key is dropped, if the cache is full, and the others were used later. -/
def DropsOldest : CacheCall → Prop
  | .add now message =>
    ∀ k, (s.cache.cache k).isSome → ((s.add rt now message).cache.cache k) = none →
    (s.cache.maxSize ≠ 0 ∧ s.cache.maxSize ≤ s.cache.ll.len) ∧
    (∀ k', (s.cache.cache k').isSome → ((s.add rt now message).cache.cache k') = none → k' = k) ∧
    ∀ k', ((s.add rt now message).cache.cache k').isSome →
      MoreRecent (s.add rt now message).log k' k
  | _ => True

/-- The message was added for the name and the type, and has not expired or been replaced. -/
def FindsLast : CacheCall → Prop
  | .get now name typ => ∀ m cache mem, MessageCache.get rt s.cache now s.mem name typ =
      some (m, cache, mem) → ∃ newer older d,
        s.log = newer ++ .added (keyForMessage rt name typ) d :: older ∧ d.message = m ∧
        d.question.name = name ∧ d.question.typ = typ ∧ now ≤ d.expireTime ∧
        ∀ e ∈ newer, e.concerns (keyForMessage rt name typ) = false
  | _ => True

end LruState

open List

variable {rt : Runtime}

theorem questionOf_modifyMessage {f : Message Slice → Message Slice}
    (hf : ∀ msg, (f msg).question = msg.question) (mem : Memory) (m p : Ptr) :
    questionOf (mem.modifyMessage m f) p = questionOf mem p := by
  by_cases hp : p = m
  · simp [questionOf, Memory.modifyMessage, hp, hf]
  · simp [questionOf, Memory.modifyMessage, Heap.load_write_of_ne hp]

theorem sections_clampTtl (positiveTtl : UInt32) (answers : List Ptr) (acc : Memory × UInt32) :
    (answers.foldl (clampTtl positiveTtl) acc).1.messages = acc.1.messages ∧
      (answers.foldl (clampTtl positiveTtl) acc).1.arrays = acc.1.arrays := by
  induction answers generalizing acc with
  | nil => exact ⟨rfl, rfl⟩
  | cons answer answers ih =>
    have hround : (clampTtl positiveTtl acc answer).1.messages = acc.1.messages ∧
        (clampTtl positiveTtl acc answer).1.arrays = acc.1.arrays := by
      unfold clampTtl
      simp only []
      split
      · exact ⟨rfl, rfl⟩
      · split
        · exact ⟨rfl, rfl⟩
        · exact ⟨rfl, rfl⟩
    rw [foldl_cons]
    exact ⟨(ih _).1.trans hround.1, (ih _).2.trans hround.2⟩

theorem sections_clampSoa (negativeTtl : UInt32) (mem : Memory) (auths : List Ptr) :
    (clampSoa negativeTtl mem auths).1.messages = mem.messages ∧
      (clampSoa negativeTtl mem auths).1.arrays = mem.arrays := by
  unfold clampSoa
  split
  · split
    · split
      · simp only [apply_ite Prod.fst, apply_ite Memory.messages, apply_ite Memory.arrays]
        exact ⟨ite_self _, ite_self _⟩
      · exact ⟨rfl, rfl⟩
    · exact ⟨rfl, rfl⟩
  · exact ⟨rfl, rfl⟩

theorem questionOf_messageToCache (c : MessageCache) (now : Time) (mem : Memory) (m p : Ptr) :
    questionOf (c.messageToCache now mem m).1 p = questionOf mem p := by
  have hra : ∀ p, questionOf (mem.modifyMessage m
      (fun msg => { msg with header := { msg.header with ra := true } })) p = questionOf mem p :=
    questionOf_modifyMessage (by intro _; rfl) mem m
  unfold MessageCache.messageToCache
  simp only []
  split
  · unfold MessageCache.positiveMessageToCache
    simp only [questionOf, (sections_clampTtl ..).1]
    split
    · exact (questionOf_modifyMessage (by intro _; rfl) _ m p).trans (hra p)
    · exact hra p
  · unfold MessageCache.negativeMessageToCache
    simp only []
    split
    · refine (questionOf_modifyMessage (by intro _; rfl) _ m p).trans ?_
      rw [questionOf, (sections_clampSoa ..).1]
      exact hra p
    · rw [questionOf, (sections_clampSoa ..).1]
      exact hra p

theorem questionOf_roundrobinAnswer (mem : Memory) (m p : Ptr) :
    questionOf (MessageCache.roundrobinAnswer rt mem m) p = questionOf mem p := by
  rw [questionOf, messages_roundrobinAnswer, questionOf]

theorem keyOf_congr {mem mem' : Memory} {entry : MessageCacheEntry}
    (h : questionOf mem' entry.message = questionOf mem entry.message) :
    keyOf rt mem' entry = keyOf rt mem entry := by
  rw [keyOf, keyOf, h]

def depositOf (mem : Memory) (entry : MessageCacheEntry) : Deposit :=
  ⟨questionOf mem entry.message, entry.message, entry.expireTime⟩

/-- List and map are in step, in the order of use, and the elements stand in the journal. -/
structure LruInv (rt : Runtime) (s : LruState) : Prop where
  wf : s.cache.ll.Wf
  indexes : Indexes s.cache.cache s.cache.ll (keyOf rt s.mem)
  recent : s.cache.ll.elems.Pairwise fun e e' =>
    MoreRecent s.log (keyOf rt s.mem e.value) (keyOf rt s.mem e'.value)
  standing : ∀ e ∈ s.cache.ll.elems,
    Standing s.log (keyOf rt s.mem e.value) (depositOf s.mem e.value)

theorem LruInv.lru {s : LruState} (h : LruInv rt s) :
    Lru s.cache.cache s.cache.ll (keyOf rt s.mem) s.log :=
  ⟨h.wf, h.indexes, h.recent⟩

variable {log : List (Effect Key Deposit)} {c : MessageCache} {mem : Memory}

theorem LruInv.evict (h : LruInv rt ⟨c, mem, log⟩) {ks : List Key}
    (hks : ∀ k ∈ ks, c.cache k = none) : LruInv rt ⟨c, mem, ks.map .evicted ++ log⟩ := by
  refine ⟨h.wf, h.indexes, ?_, fun e he => (h.standing e he).evicted fun hmem => ?_⟩
  · simpa only [MoreRecent, touched_evicted] using h.recent
  · exact h.indexes.ne_none he (hks _ hmem)

theorem LruInv.removeElement (h : LruInv rt ⟨c, mem, log⟩) {e : Element MessageCacheEntry}
    (he : e ∈ c.ll.elems) : LruInv rt ⟨MessageCache.removeElement rt c mem e, mem, log⟩ :=
  ⟨h.wf.remove e, h.indexes.remove h.wf he, h.recent.sublist filter_sublist,
    fun x hx => h.standing x ((h.wf.mem_remove he).mp hx).1⟩

theorem place_eq (c : MessageCache) (key : Key) (entry : MessageCacheEntry) :
    c.place key entry = { c with
      cache := (place c.cache c.ll key entry).1
      ll := (place c.cache c.ll key entry).2 } := by
  unfold MessageCache.place place
  cases c.cache key with
  | none => rfl
  | some old => rfl

theorem LruInv.congr {mem mem' : Memory} (h : LruInv rt ⟨c, mem, log⟩)
    (hsame : ∀ e ∈ c.ll.elems, questionOf mem' e.value.message = questionOf mem e.value.message) :
    LruInv rt ⟨c, mem', log⟩ := by
  have hkey : ∀ e ∈ c.ll.elems, keyOf rt mem' e.value = keyOf rt mem e.value :=
    fun e he => keyOf_congr (hsame e he)
  refine ⟨h.wf, h.indexes.congr hkey, ?_, fun e he => ?_⟩
  · refine h.recent.imp_of_mem fun he he' hrecent => ?_
    simpa only [hkey _ he, hkey _ he'] using hrecent
  · have hdeposit : depositOf mem' e.value = depositOf mem e.value := by
      rw [depositOf, depositOf, hsame e he]
    rw [hkey e he, hdeposit]
    exact h.standing e he

theorem LruInv.place (h : LruInv rt ⟨c, mem, log⟩) (entry : MessageCacheEntry) :
    LruInv rt ⟨c.place (keyOf rt mem entry) entry, mem,
      .added (keyOf rt mem entry) (depositOf mem entry) :: log⟩ := by
  obtain ⟨new, hvalue, helems, -⟩ := place_spec h.wf h.indexes entry
  have hlru := h.lru.place (v := entry)
    (rfl : (Effect.added (keyOf rt mem entry) (depositOf mem entry)).touches = _)
  rw [place_eq]
  refine ⟨hlru.wf, hlru.indexes, hlru.recent, fun e he => ?_⟩
  simp only [helems, mem_cons] at he
  rcases he with rfl | he
  · rw [hvalue]
    simp [Standing, Effect.concerns]
  · obtain ⟨hmem, hne⟩ := mem_filter.mp he
    refine (h.standing e hmem).cons ?_
    simpa [Effect.concerns] using (of_decide_eq_true hne).symm

theorem add_eq (rt : Runtime) (c : MessageCache) (mem : Memory) (key : Key)
    (entry : MessageCacheEntry) :
    MessageCache.add rt c mem key entry = c.place key entry ∨
      ∃ last, (c.place key entry).ll.elems.getLast? = some last ∧
        (c.maxSize ≠ 0 ∧ c.maxSize < (c.place key entry).ll.elems.length) ∧
        MessageCache.add rt c mem key entry =
          MessageCache.removeElement rt (c.place key entry) mem last := by
  have hmax : (c.place key entry).maxSize = c.maxSize := by
    unfold MessageCache.place
    split <;> rfl
  unfold MessageCache.add
  simp only []
  split
  · next hfull =>
    unfold MessageCache.removeOldest
    split
    · next last hlast => exact .inr ⟨last, hlast, hmax ▸ hfull, rfl⟩
    · exact .inl rfl
  · exact .inl rfl

theorem LruState.add_eq (rt : Runtime) (s : LruState) (now : Time) (message : Ptr) :
    ∃ mem entry, (∀ p, questionOf mem p = questionOf s.mem p) ∧
      s.add rt now message =
        ⟨MessageCache.add rt s.cache mem (keyOf rt mem entry) entry, mem,
          (s.evictions rt
            (MessageCache.add rt s.cache mem (keyOf rt mem entry) entry)).map .evicted ++
            .added (keyOf rt mem entry) (depositOf mem entry) :: s.log⟩ := by
  refine ⟨(s.cache.messageToCache now s.mem message).1,
    (s.cache.messageToCache now s.mem message).2,
    questionOf_messageToCache s.cache now s.mem message, ?_⟩
  have hmessage := message_messageToCache s.cache now s.mem message
  simp only [LruState.add, MessageCache.addMessage, keyOf, depositOf, hmessage, questionOf]

end Vanguard.Cache
