import Vanguard.Cache.Handlers
import Vanguard.Cache.Rewrites
import Vanguard.Cache.Stored

namespace Vanguard.Cache

open Library

section

/-- The cache finds only what was added, under the key of what the resolver returned. -/
structure Indexed (rt : Runtime) (c : MessageCache) (trace : List Event) : Prop where
  added : ∀ k elem, c.cache k = some elem → ∃ v, Event.added elem.value.message v ∈ trace ∧
    keyForMessage rt v.question.name v.question.typ = k
  lt : ∀ k elem, c.cache k = some elem → elem.id < c.ll.next
  inj : ∀ k k' elem elem', c.cache k = some elem → c.cache k' = some elem' →
    elem.id = elem'.id → k = k'

variable {rt : Runtime}

theorem typ_eq_of_key {name name' : Name} {typ typ' : RRType}
    (h : keyForMessage rt name typ = keyForMessage rt name' typ') : typ = typ' := by
  have hcode : ∀ (hash : UInt32) (code : UInt16),
      (hash.toUInt64 <<< 32 ||| code.toUInt64).toUInt16 = code := by
    intro hash code
    apply UInt16.toBitVec_inj.mp
    simp
  have hcodes := congrArg UInt64.toUInt16 h
  simp only [keyForMessage, hcode] at hcodes
  cases typ
  cases typ'
  simpa using hcodes

variable {c : MessageCache} {trace trace' : List Event} {entry : MessageCacheEntry}

/-- The entry has an element of its own, and the key leads to it. -/
theorem Indexed.cache_place (h : Indexed rt c trace) (key : Key) (entry : MessageCacheEntry) :
    ∃ id, (c.place key entry).cache = Function.update c.cache key (some ⟨id, entry⟩) ∧
      id < (c.place key entry).ll.next ∧ c.ll.next ≤ (c.place key entry).ll.next ∧
      ∀ k e, c.cache k = some e → e.id = id → k = key := by
  unfold MessageCache.place
  cases hold : c.cache key with
  | some old =>
    have hsame (k : Key) (e : Element MessageCacheEntry) (he : c.cache k = some e)
        (hid : e.id = old.id) : k = key := h.inj k key e old he hold hid
    refine ⟨old.id, funext fun k => ?_, h.lt key old hold, le_rfl, hsame⟩
    by_cases hk : k = key
    · simp [hk, hold]
    · cases he : c.cache k with
      | none => simp [hk, he]
      | some e =>
        have hid : e.id ≠ old.id := fun hid => hk (hsame k e he hid)
        simp [hk, he, hid]
  | none => exact ⟨c.ll.next, rfl, Nat.lt_succ_self _, Nat.le_succ _,
      fun k e he hid => absurd hid (h.lt k e he).ne⟩

theorem Indexed.place (h : Indexed rt c trace) (hsub : trace ⊆ trace') {m : Ptr}
    {v : Message Section} (hadded : Event.added m v ∈ trace') (hentry : entry.message = m) :
    Indexed rt (c.place (keyForMessage rt v.question.name v.question.typ) entry) trace' := by
  obtain ⟨id, hcache, hlt, hle, hown⟩ := h.cache_place
    (keyForMessage rt v.question.name v.question.typ) entry
  have hcases {k : Key} {elem : Element MessageCacheEntry}
      (helem : (c.place (keyForMessage rt v.question.name v.question.typ) entry).cache k =
        some elem) :
      (k = keyForMessage rt v.question.name v.question.typ ∧ elem = ⟨id, entry⟩) ∨
        c.cache k = some elem := by
    rw [hcache, Function.update_apply] at helem
    split at helem
    · next hk => exact .inl ⟨hk, (Option.some.inj helem).symm⟩
    · exact .inr helem
  refine ⟨fun k elem helem => ?_, fun k elem helem => ?_,
    fun k k' elem elem' helem helem' hid => ?_⟩
  · rcases hcases helem with ⟨rfl, rfl⟩ | hk
    · exact ⟨v, by rwa [hentry], rfl⟩
    · obtain ⟨w, hw, hwkey⟩ := h.added k elem hk
      exact ⟨w, hsub hw, hwkey⟩
  · rcases hcases helem with ⟨rfl, rfl⟩ | hk
    · exact hlt
    · exact (h.lt k elem hk).trans_le hle
  · rcases hcases helem with ⟨rfl, rfl⟩ | hk <;> rcases hcases helem' with ⟨rfl, rfl⟩ | hk'
    · rfl
    · exact (hown k' elem' hk' hid.symm).symm
    · exact hown k elem hk hid
    · exact h.inj k k' elem elem' hk hk' hid

theorem Indexed.removeElement (h : Indexed rt c trace) (mem : Memory)
    (e : Element MessageCacheEntry) : Indexed rt (MessageCache.removeElement rt c mem e) trace := by
  have hold : ∀ key k elem, Function.update c.cache key none k = some elem →
      c.cache k = some elem := by
    intro key k elem helem
    by_cases hk : k = key
    · subst hk
      simp at helem
    · simpa [hk] using helem
  refine ⟨fun k elem helem => h.added k elem (hold _ k elem helem),
    fun k elem helem => h.lt k elem (hold _ k elem helem), ?_⟩
  exact fun k k' elem elem' helem helem' =>
    h.inj k k' elem elem' (hold _ k elem helem) (hold _ k' elem' helem')

theorem Indexed.add (h : Indexed rt c trace) (hsub : trace ⊆ trace') {m : Ptr} {v : Message Section}
    (hadded : Event.added m v ∈ trace') (hentry : entry.message = m) (mem : Memory) :
    Indexed rt (MessageCache.add rt c mem (keyForMessage rt v.question.name v.question.typ) entry)
      trace' := by
  have hplace := h.place hsub hadded hentry
  unfold MessageCache.add
  simp only []
  split
  · unfold MessageCache.removeOldest
    split
    · exact hplace.removeElement mem _
    · exact hplace
  · exact hplace

theorem shortAnswer_add (rt : Runtime) (c : MessageCache) (mem : Memory) (key : Key)
    (entry : MessageCacheEntry) :
    (MessageCache.add rt c mem key entry).shortAnswer = c.shortAnswer := by
  have hplace : (c.place key entry).shortAnswer = c.shortAnswer := by
    unfold MessageCache.place
    split <;> rfl
  unfold MessageCache.add MessageCache.removeOldest
  simp only []
  split
  · split
    · exact hplace
    · exact hplace
  · exact hplace

end

open Memory List

def Added (trace : List Event) (m : Ptr) : Prop := ∃ v, Event.added m v ∈ trace

def cutOff (short : Bool) (v : Message Section) : Seen :=
  Seen.cut short ⟨v.question, v.header.rcode, v.answer.map RRset.records,
    v.additional.map RRset.records⟩

/-- The response has the records of the message up to ttls, order and cleared sections. -/
structure Served (short : Bool) (v : Message Section) (q : Question) (r : Message Section) :
    Prop where
  name : v.question.name = q.name
  typ : v.question.typ = q.typ
  question : r.question = q
  rcode : r.header.rcode = v.header.rcode
  answer : r.answer.map RRset.records = v.answer.map RRset.records
  additional : r.additional.map RRset.records =
    if short then [] else v.additional.map RRset.records

def Isolated (short : Bool) : List Event → Prop
  | [] => True
  | .added _ _ :: earlier => Isolated short earlier
  | .handed m q r :: earlier =>
    (∃ v, Event.added m v ∈ earlier ∧ Served short v q r) ∧ Isolated short earlier

structure Inv (rt : Runtime) (s : Server) : Prop where
  guarded : s.mem.Guarded (Added s.trace)
  faithful : ∀ m v, Event.added m v ∈ s.trace → s.mem.seen m = cutOff s.cache.shortAnswer v
  indexed : Indexed rt s.cache s.trace
  isolated : Isolated s.cache.shortAnswer s.trace

variable {rt : Runtime}

variable {s : Server} {mem : Memory}

theorem Inv.of_keeps (h : Inv rt s) (hkeeps : Keeps (Added s.trace) s.mem mem) :
    Inv rt { s with mem } where
  guarded := hkeeps.guarded h.guarded
  faithful m v hadded := (hkeeps.seen_eq ⟨v, hadded⟩).trans (h.faithful m v hadded)
  indexed := h.indexed
  isolated := h.isolated

theorem messages_roundrobinAnswer (mem : Memory) (m : Ptr) :
    (MessageCache.roundrobinAnswer rt mem m).messages = mem.messages := by
  unfold MessageCache.roundrobinAnswer
  generalize (mem.messages.load m).answer.read mem.arrays = answers
  induction answers generalizing mem with
  | nil => rfl
  | cons rrset answers ih =>
    rw [foldl_cons]
    split
    · exact ih _
    · exact ih _

structure Detached (rt : Runtime) (s s' : Server) (r : Ptr) : Prop where
  inv : Inv rt s'
  short : s'.cache.shortAnswer = s.cache.shortAnswer
  keeps : Keeps (Added s.trace) s.mem s'.mem
  messages : s.mem.messages.Extends s'.mem.messages
  added : Added s'.trace = Added s.trace
  fresh : ¬Added s'.trace r
  lt : r < s'.mem.messages.next
  spares : s'.mem.SparesAll (Added s'.trace) (s'.mem.messages.load r).answer

structure StoredReply (rt : Runtime) (s s' : Server) (v : Message Section) (r : Ptr) : Prop where
  inv : Inv rt s'
  short : s'.cache.shortAnswer = s.cache.shortAnswer
  added : Event.added r v ∈ s'.trace
  lt : r < s'.mem.messages.next
  answer : (s'.mem.view r).answer.map bare = v.answer.map bare

theorem added_added (trace : List Event) (m : Ptr) (v : Message Section) :
    Added (.added m v :: trace) = fun g => Added trace g ∨ g = m := by
  funext g
  simp only [Added, mem_cons, Event.added.injEq, exists_or, eq_iff_iff]
  constructor
  · rintro (⟨w, rfl, -⟩ | hold)
    · exact .inr rfl
    · exact .inl hold
  · rintro (hold | rfl)
    · exact .inr hold
    · exact .inl ⟨v, rfl, rfl⟩

variable {elem : Element MessageCacheEntry}

theorem Inv.found (h : Inv rt s) {now : Time} {name : Name} {typ : RRType}
    (hlookup : MessageCache.lookup rt s.cache now s.mem name typ = some elem) :
    ∃ v, Event.added elem.value.message v ∈ s.trace ∧ v.question.name = name ∧
      v.question.typ = typ := by
  obtain ⟨hcache, hfound⟩ := Option.filter_eq_some_iff.mp hlookup
  obtain ⟨v, hadded, hkey⟩ := h.indexed.added _ elem hcache
  have hquestion : (s.mem.messages.load elem.value.message).question = v.question :=
    congrArg Seen.question (h.faithful _ v hadded)
  simp only [Bool.and_eq_true, decide_eq_true_eq, hquestion] at hfound
  exact ⟨v, hadded, hfound.2, typ_eq_of_key hkey⟩

variable {v : Message Section}

theorem served_copy {m : Ptr} {short : Bool} {q : Question} (hseen : mem.seen m = cutOff short v)
    (hname : v.question.name = q.name) (htyp : v.question.typ = q.typ) {header : Header}
    (hrcode : header.rcode = (mem.messages.load m).header.rcode) {out : Memory × Ptr}
    (hout : mem.allocMessage { mem.messages.load m with header, question := q } = out) :
    Served short v q (out.1.view out.2) := by
  have hload : out.1.messages.load out.2 = { mem.messages.load m with header, question := q } := by
    rw [← hout]
    exact Heap.load_alloc _ _
  have hrecords : out.1.recordsOf = mem.recordsOf := by
    rw [← hout]
    rfl
  have hanswer : mem.recordsOf (mem.messages.load m).answer = v.answer.map RRset.records :=
    congrArg Seen.answer hseen
  have hadditional : mem.recordsOf (mem.messages.load m).additional =
      if short then [] else v.additional.map RRset.records := congrArg Seen.additional hseen
  have hcode : (mem.messages.load m).header.rcode = v.header.rcode := congrArg Seen.rcode hseen
  refine ⟨hname, htyp, ?_, ?_, ?_, ?_⟩
  · simp [view, Message.map, hload]
  · simp [view, Message.map, hload, hrcode, hcode]
  · rw [← hanswer, ← hrecords]
    simp [view, Message.map, hload, recordsOf]
  · rw [← hadditional, ← hrecords]
    simp [view, Message.map, hload, recordsOf]

theorem Inv.hit (h : Inv rt s) {now : Time} {q : Question}
    (hlookup : MessageCache.lookup rt s.cache now s.mem q.name q.typ = some elem)
    (hmem : mem = MessageCache.roundrobinAnswer rt s.mem elem.value.message) (header : Header)
    (hrcode : header.rcode = (mem.messages.load elem.value.message).header.rcode)
    {out : Memory × Ptr}
    (hout : mem.allocMessage { mem.messages.load elem.value.message with header, question := q } =
      out) : Detached rt s
      ⟨out.1, { s.cache with ll := s.cache.ll.moveToFront elem },
        .handed elem.value.message q (out.1.view out.2) :: s.trace⟩ out.2 := by
  obtain ⟨v, hadded, hname, htyp⟩ := h.found hlookup
  have hturn : Keeps (Added s.trace) s.mem mem := hmem ▸ keeps_roundrobinAnswer rt h.guarded _
  have hguard := hturn.guarded h.guarded
  have halloc : Keeps (Added s.trace) mem out.1 := hout ▸ (extends_allocMessage mem _).keeps hguard
  have hkeeps := hturn.trans halloc
  have hmessages : s.mem.messages = mem.messages := hmem ▸ (messages_roundrobinAnswer _ _).symm
  have hseen : mem.seen elem.value.message = cutOff s.cache.shortAnswer v :=
    (hturn.seen_eq ⟨v, hadded⟩).trans (h.faithful _ v hadded)
  have hserved := served_copy hseen hname htyp hrcode hout
  have hadd :
      Added (.handed elem.value.message q (out.1.view out.2) :: s.trace) = Added s.trace := by
    funext g
    simp [Added]
  have hindexed : Indexed rt { s.cache with ll := s.cache.ll.moveToFront elem }
      (.handed elem.value.message q (out.1.view out.2) :: s.trace) := by
    refine ⟨fun k e he => ?_, h.indexed.lt, h.indexed.inj⟩
    obtain ⟨w, hw, hkey⟩ := h.indexed.added k e he
    exact ⟨w, mem_cons_of_mem _ hw, hkey⟩
  have hnext : out.2 = s.mem.messages.next := by
    rw [hmessages, ← hout]
    rfl
  refine ⟨⟨hadd ▸ hkeeps.guarded h.guarded, fun m w hw => ?_, hindexed,
    ⟨v, hadded, hserved⟩, h.isolated⟩, rfl, hkeeps, ?_, hadd, ?_, ?_, ?_⟩
  · have hw' : Event.added m w ∈ s.trace := by simpa using hw
    exact (hkeeps.seen_eq ⟨w, hw'⟩).trans (h.faithful m w hw')
  · rw [hmessages, ← hout]
    exact Heap.extends_alloc _ _
  · rw [hadd, hnext]
    exact fun hold => lt_irrefl _ (h.guarded.lt _ hold)
  · rw [← hout]
    exact Nat.lt_succ_self _
  · have hload : out.1.messages.load out.2 =
        { mem.messages.load elem.value.message with header, question := q } := by
      rw [← hout]
      exact Heap.load_alloc _ _
    rw [hadd, hload]
    exact halloc.sparesAll (hguard.spares _ ⟨v, hadded⟩)

section

variable (h : Inv rt s) (now : Time) {reply : Reply} (hmessage : reply.message = some v)

include h hmessage

theorem Inv.fetch_uncached (hcache : reply.cacheAnswer = false) :
    ∃ r, (fetch rt now reply s).2 = some r ∧ Detached rt s (fetch rt now reply s).1 r := by
  have hstored := storeMessage_spec s.mem v reply.spare
  have hfetch : fetch rt now reply s =
      ({ s with mem := (s.mem.storeMessage v reply.spare).1 },
        some (s.mem.storeMessage v reply.spare).2) := by
    simp [fetch, hmessage, hcache]
  have hkeeps := hstored.ext.keeps h.guarded
  refine ⟨_, congrArg Prod.snd hfetch, ?_⟩
  rw [hfetch]
  refine ⟨h.of_keeps hkeeps, rfl, hkeeps, hstored.ext.messages, rfl, ?_, hstored.lt, ?_⟩
  · rw [hstored.new]
    exact fun hold => lt_irrefl _ (h.guarded.lt _ hold)
  · intro t ht
    have ht' := (hkeeps.slot_iff t).mp ht
    exact (hstored.answer_fresh.spares (h.guarded.sound t ht').allocated).1

theorem Inv.fetch_cached (hcache : reply.cacheAnswer = true) :
    ∃ r, (fetch rt now reply s).2 = some r ∧ StoredReply rt s (fetch rt now reply s).1 v r := by
  have hstored := storeMessage_spec s.mem v reply.spare
  generalize hstore : s.mem.storeMessage v reply.spare = stored at hstored
  obtain ⟨mem, r⟩ := stored
  have hguard := hstored.guarded h.guarded
  have htrim := trimmed_messageToCache s.cache now hguard (.inr rfl : Added s.trace r ∨ r = r)
  have hentry := message_messageToCache s.cache now mem r
  have hself : (s.cache.messageToCache now mem r).1.seen r = cutOff s.cache.shortAnswer v := by
    rw [htrim.self, hstored.seen_eq]
    rfl
  have hfetch : fetch rt now reply s =
      (⟨(s.cache.messageToCache now mem r).1,
        MessageCache.add rt s.cache (s.cache.messageToCache now mem r).1
          (keyForMessage rt v.question.name v.question.typ) (s.cache.messageToCache now mem r).2,
        .added r v :: s.trace⟩, some r) := by
    have hquestion : ((s.cache.messageToCache now mem r).1.messages.load r).question = v.question :=
      congrArg Seen.question hself
    simp [fetch, hmessage, hcache, hstore, MessageCache.addMessage, hquestion]
  generalize s.cache.messageToCache now mem r = trimmed at htrim hentry hself hfetch
  refine ⟨r, congrArg Prod.snd hfetch, ?_⟩
  rw [hfetch]
  have hshort := shortAnswer_add rt s.cache trimmed.1
    (keyForMessage rt v.question.name v.question.typ) trimmed.2
  refine ⟨⟨?_, fun m w hw => ?_, ?_, ?_⟩, hshort, mem_cons_self, ?_, ?_⟩
  · rw [added_added]
    exact htrim.guarded
  · rw [hshort]
    rcases mem_cons.mp hw with hnew | hold
    · cases hnew
      exact hself
    · have hlt : m < r := lt_of_lt_of_eq (h.guarded.lt m ⟨w, hold⟩) (Eq.symm hstored.new)
      rw [htrim.others m (.inl ⟨w, hold⟩) hlt.ne, (hstored.ext.keeps h.guarded).seen_eq ⟨w, hold⟩]
      exact h.faithful m w hold
  · exact h.indexed.add (fun _ => mem_cons_of_mem _) mem_cons_self hentry trimmed.1
  · rw [hshort]
    exact h.isolated
  · rw [htrim.next]
    exact hstored.lt
  · rw [htrim.bare_answer, hstored.view]

end

/-- What a pass through the cache leaves in the response of the client. -/
inductive Passed (rt : Runtime) (query : Query) (ctx ctx' : Ctx) : Prop where
  | detached (r : Ptr) (hresponse : ctx'.client.response = some r)
      (h : Detached rt ctx.server ctx'.server r)
  | unanswered (hresponse : ctx'.client.response = ctx.client.response)
      (h : ctx'.server = ctx.server)
  | stored (v : Message Section) (r : Ptr) (hresponse : ctx'.client.response = some r)
      (hmiss : MessageCache.lookup rt ctx.server.cache query.now ctx.server.mem
        ctx.client.question.name ctx.client.question.typ = none)
      (hmessage : (query.resolve ctx.client.question).message = some v)
      (hcache : (query.resolve ctx.client.question).cacheAnswer = true)
      (h : StoredReply rt ctx.server ctx'.server v r)

theorem Inv.pass {ctx : Ctx} (h : Inv rt ctx.server) (query : Query) :
    Passed rt query ctx (cacheHandleQuery rt query ctx) := by
  cases hlookup : MessageCache.lookup rt ctx.server.cache query.now ctx.server.mem
      ctx.client.question.name ctx.client.question.typ with
  | some elem =>
    have hhit := h.hit hlookup rfl
      { ((MessageCache.roundrobinAnswer rt ctx.server.mem elem.value.message).messages.load
          elem.value.message).header with id := ctx.client.id, aa := false } rfl rfl
    simp only [cacheHandleQuery, MessageCache.get, hlookup, Option.map_some]
    exact .detached _ rfl hhit
  | none =>
    have hmiss : cacheHandleQuery rt query ctx =
        { ctx with
          server := (fetch rt query.now (query.resolve ctx.client.question) ctx.server).1
          client := { ctx.client with
            cacheHit := false
            cacheAnswer := (query.resolve ctx.client.question).cacheAnswer
            response := (fetch rt query.now (query.resolve ctx.client.question) ctx.server).2.or
              ctx.client.response } } := by
      simp [cacheHandleQuery, MessageCache.get, hlookup]
    rw [hmiss]
    cases hmessage : (query.resolve ctx.client.question).message with
    | none =>
      have hfetch : fetch rt query.now (query.resolve ctx.client.question) ctx.server =
          (ctx.server, none) := by simp [fetch, hmessage]
      rw [hfetch]
      exact .unanswered rfl rfl
    | some v =>
      cases hcache : (query.resolve ctx.client.question).cacheAnswer with
      | false =>
        obtain ⟨r, hr, hdetached⟩ := h.fetch_uncached query.now hmessage hcache
        exact .detached r (by simp [hr]) hdetached
      | true =>
        obtain ⟨r, hr, hstored⟩ := h.fetch_cached query.now hmessage hcache
        exact .stored v r (by simp [hr]) hlookup hmessage hcache hstored

end Vanguard.Cache
