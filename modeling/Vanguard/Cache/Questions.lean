import Vanguard.Cache.Isolation
import Vanguard.Cache.Placement
import Vanguard.Resolver.QueryLimit

/-!
# The questions of shared answers

The cache finds a response by the hash of the name and the type, `QueryLimit` by that of the name,
the view and the type, and both then compare the name with the one in the response. The class is
never compared, and the response may say another name than it was produced for.
-/

namespace Vanguard.Cache

open Library

structure Origin where
  asked : Question
  reply : Message Section
  deriving DecidableEq, Repr

inductive Use where
  | add (now : Time) (asked : Question) (message : Ptr)
  | get (now : Time) (asked : Question)
  | remove (name : Name) (typ : RRType)
  | clear
  | elsewhere (mem : Memory)

inductive Reused where
  | reused
  deriving DecidableEq, Repr

/-- The message cache with the objects and the origins of the messages, the last one first. -/
structure UseState where
  cache : MessageCache
  mem : Memory
  origins : List (Ptr × Origin)

namespace UseState

def trace (s : UseState) : List Event := s.origins.map fun o => .added o.1 o.2.reply

def step (rt : Runtime) (s : UseState) : Use → Except Reused UseState
  | .add now asked message =>
    if message ∈ s.origins.map Prod.fst then .error .reused
    else
      let (cache, mem) := MessageCache.addMessage rt s.cache now s.mem message
      .ok ⟨cache, mem, (message, ⟨asked, s.mem.view message⟩) :: s.origins⟩
  | .get now asked =>
    match MessageCache.get rt s.cache now s.mem asked.name asked.typ with
    | some (_, cache, mem) => .ok { s with cache, mem }
    | none => .ok s
  | .remove name typ => .ok { s with cache := MessageCache.remove rt s.cache s.mem name typ }
  | .clear => .ok { s with cache := s.cache.clear }
  | .elsewhere mem => .ok { s with mem }

/-- The cache finds what was added under the key it was added with, and each message was added once.
-/
structure Kept (rt : Runtime) (s : UseState) : Prop where
  indexed : Indexed rt s.cache s.trace
  nodup : (s.origins.map Prod.fst).Nodup

end UseState

/-- The message was stored under the type of its question and now has its name. -/
def Origin.Said (o : Origin) (mem : Memory) (m : Ptr) : Prop :=
  o.reply.question.typ = o.asked.typ ∧ (questionOf mem m).name = o.asked.name

variable {rt : Runtime}

variable {c : MessageCache}

theorem Indexed.of_none (h : ∀ k, c.cache k = none) (trace : List Event) : Indexed rt c trace :=
  ⟨by simp [h], by simp [h], by simp [h]⟩

variable {now : Time} {m : Ptr}

theorem Indexed.get {c c' : MessageCache} {trace : List Event} (h : Indexed rt c trace)
    {mem mem' : Memory} {name : Name} {typ : RRType}
    (hget : MessageCache.get rt c now mem name typ = some (m, c', mem')) : Indexed rt c' trace := by
  obtain ⟨elem, -, heq⟩ := Option.map_eq_some_iff.mp hget
  obtain ⟨-, rfl, -⟩ := Prod.mk.inj heq |>.imp_right Prod.mk.inj
  exact ⟨h.added, h.lt, h.inj⟩

theorem UseState.Kept.step {s s' : UseState} {use : Use} (h : s.Kept rt)
    (hstep : s.step rt use = .ok s') : s'.Kept rt := by
  cases use with
  | add now asked message =>
    simp only [UseState.step] at hstep
    split at hstep
    · cases hstep
    · next hfresh =>
      cases hstep
      refine ⟨?_, List.nodup_cons.mpr ⟨hfresh, h.nodup⟩⟩
      have hquestion := questionOf_messageToCache s.cache now s.mem message message
      have hadd := h.indexed.add (List.subset_cons_self _ _)
        (List.mem_cons_self : Event.added message (s.mem.view message) ∈ _ :: s.trace)
        (message_messageToCache s.cache now s.mem message)
        (s.cache.messageToCache now s.mem message).1
      simp only [MessageCache.addMessage]
      simp only [questionOf] at hquestion
      rw [hquestion]
      exact hadd
  | get now asked =>
    simp only [UseState.step] at hstep
    split at hstep
    · next hget =>
      cases hstep
      exact ⟨h.indexed.get hget, h.nodup⟩
    · cases hstep
      exact h
  | remove name typ =>
    cases hstep
    refine ⟨?_, h.nodup⟩
    simp only [MessageCache.remove]
    split
    · exact h.indexed.removeElement s.mem _
    · exact h.indexed
  | clear =>
    cases hstep
    exact ⟨Indexed.of_none (fun _ => rfl) _, h.nodup⟩
  | elsewhere mem =>
    cases hstep
    exact ⟨h.indexed, h.nodup⟩

variable {s : UseState}

theorem UseState.Kept.found (h : s.Kept rt) {q : Question} {mem : Memory}
    (hget : MessageCache.get rt s.cache now s.mem q.name q.typ = some (m, c, mem)) :
    ∃ o, (m, o) ∈ s.origins ∧ o.reply.question.typ = q.typ ∧
      (questionOf s.mem m).name = q.name := by
  obtain ⟨elem, hlookup, heq⟩ := Option.map_eq_some_iff.mp hget
  obtain ⟨rfl, -⟩ := Prod.mk.inj heq
  obtain ⟨hcache, hfound⟩ := Option.filter_eq_some_iff.mp hlookup
  obtain ⟨v, hadded, hkey⟩ := h.indexed.added _ elem hcache
  obtain ⟨⟨p, o⟩, ho, hevent⟩ := List.mem_map.mp hadded
  obtain ⟨rfl, rfl⟩ := Event.added.inj hevent
  simp only [Bool.and_eq_true, decide_eq_true_eq] at hfound
  exact ⟨o, ho, typ_eq_of_key hkey, hfound.2⟩

theorem UseState.Kept.origin_unique (h : s.Kept rt) {o o' : Origin} (ho : (m, o) ∈ s.origins)
    (ho' : (m, o') ∈ s.origins) : o = o' := by
  have heq := List.inj_on_of_nodup_map h.nodup ho ho' rfl
  exact (Prod.mk.inj heq).2

/-- What is found was produced for the question exactly if it says so and the classes agree. -/
theorem UseState.Kept.asked_iff (h : s.Kept rt) {q : Question} {mem : Memory}
    (hget : MessageCache.get rt s.cache now s.mem q.name q.typ = some (m, c, mem)) {o : Origin}
    (ho : (m, o) ∈ s.origins) : o.asked = q ↔ o.Said s.mem m ∧ o.asked.cls = q.cls := by
  obtain ⟨o', ho', htyp, hname⟩ := h.found hget
  obtain rfl := h.origin_unique ho ho'
  constructor
  · rintro rfl
    exact ⟨⟨htyp, hname⟩, rfl⟩
  · rintro ⟨⟨htyp', hname'⟩, hcls⟩
    have hn : o.asked.name = q.name := hname'.symm.trans hname
    have ht : o.asked.typ = q.typ := htyp'.symm.trans htyp
    calc o.asked = ⟨o.asked.name, o.asked.typ, o.asked.cls⟩ := rfl
      _ = ⟨q.name, q.typ, q.cls⟩ := by rw [hn, ht, hcls]

end Vanguard.Cache

namespace Vanguard.Resolver

variable {hash : Name → UInt32}

theorem typ_eq_of_queryKey {c c' : Client} (h : c.queryKey hash = c'.queryKey hash) :
    c.request.question.typ = c'.request.question.typ := by
  have hcode : ∀ (hash : UInt32) (viewId code : UInt16),
      (hash.toUInt64 <<< 32 ||| viewId.toUInt64 <<< 16 ||| code.toUInt64).toUInt16 = code := by
    intro hash viewId code
    apply UInt16.toBitVec_inj.mp
    simp
  have hcodes := congrArg UInt64.toUInt16 h
  simp only [Client.queryKey, hcode] at hcodes
  exact congrArg RRType.mk hcodes

/-- The first flight that is for the name of the client. -/
structure TakenOver (shared : List (Client × ResolveResponse)) (f leader : Client)
    (resp : Message Section) : Prop where
  flight : ∃ before r after, shared = before ++ (leader, r) :: after ∧ r.resp = some resp ∧
    ∀ l ∈ before, ∀ resp', l.2.resp = some resp' → f.request.question.name ≠ resp'.question.name
  name : f.request.question.name = resp.question.name

variable {shared : List (Client × ResolveResponse)} {resp : Message Section}

theorem TakenOver.cons {f leader : Client} (h : TakenOver shared f leader resp)
    {l : Client × ResolveResponse}
    (hl : ∀ resp', l.2.resp = some resp' → f.request.question.name ≠ resp'.question.name) :
    TakenOver (l :: shared) f leader resp := by
  obtain ⟨before, r, after, rfl, hresp, hbefore⟩ := h.flight
  refine ⟨⟨l :: before, r, after, rfl, hresp, fun x hx => ?_⟩, h.name⟩
  rcases List.mem_cons.mp hx with rfl | hx
  · exact hl
  · exact hbefore x hx

/-- A client that joins others returns the response of the first flight for its name, or none. -/
theorem resolve_follows (resolver : Client → ResolveResponse) {f f' : Client}
    (hnone : f.response = none) (shared : List (Client × ResolveResponse))
    (hresolve : resolve resolver (shared.map fun l => .follows l.2) f = some f') :
    f'.response = none ∨ ∃ leader resp, TakenOver shared f leader resp ∧
      f'.response = some (withId f.request.header.id resp) := by
  induction shared with
  | nil => cases hresolve
  | cons l shared ih =>
    rw [List.map_cons] at hresolve
    cases hresp : l.2.resp with
    | none =>
      rw [resolve_follows_nil _ hnone hresp] at hresolve
      cases hresolve
      exact .inl hnone
    | some resp =>
      by_cases hname : f.request.question.name = resp.question.name
      · rw [resolve_follows_copy _ hnone hresp hname] at hresolve
        cases hresolve
        refine .inr ⟨l.1, resp, ⟨⟨[], l.2, shared, rfl, hresp, ?_⟩, hname⟩, rfl⟩
        exact fun _ hl => absurd hl List.not_mem_nil
      · rw [resolve_follows_again _ hnone hresp hname] at hresolve
        refine (ih hresolve).imp_right ?_
        rintro ⟨leader, taken, htaken, heq⟩
        refine ⟨leader, taken, htaken.cons fun resp' hresp' => ?_, heq⟩
        cases hresp.symm.trans hresp'
        exact hname

theorem TakenOver.asked_iff {f leader : Client} (h : TakenOver shared f leader resp)
    (hkey : ∀ l ∈ shared, l.1.queryKey hash = f.queryKey hash) :
    leader.request.question = f.request.question ↔
      resp.question.name = leader.request.question.name ∧
        leader.request.question.cls = f.request.question.cls := by
  obtain ⟨before, r, after, rfl, -⟩ := h.flight
  have htyp := typ_eq_of_queryKey (hkey (leader, r) (List.mem_append_right _ List.mem_cons_self))
  constructor
  · intro heq
    exact ⟨by rw [heq, h.name], by rw [heq]⟩
  · rintro ⟨hname, hcls⟩
    calc leader.request.question = ⟨leader.request.question.name, leader.request.question.typ,
          leader.request.question.cls⟩ := rfl
      _ = ⟨f.request.question.name, f.request.question.typ, f.request.question.cls⟩ := by
        rw [← hname, ← h.name, htyp, hcls]

end Vanguard.Resolver

namespace Vanguard.Cache

open Library

theorem UseState.Kept.start (rt : Runtime) (positiveTtl negativeTtl : UInt32) (maxSize : ℕ)
    (shortAnswer : Bool) (mem : Memory) :
    UseState.Kept rt ⟨emptyCache positiveTtl negativeTtl maxSize shortAnswer, mem, []⟩ :=
  ⟨Indexed.of_none (fun _ => rfl) _, List.nodup_nil⟩

/-- A shared response was produced for the question exactly if it says so and the classes agree. -/
theorem shared_answers_asked_iff (rt : Runtime) (positiveTtl negativeTtl : UInt32) (maxSize : ℕ)
    (shortAnswer : Bool) (mem : Memory) (uses : List Use) :
    let start : UseState := ⟨emptyCache positiveTtl negativeTtl maxSize shortAnswer, mem, []⟩
    (∀ s, Reached (UseState.step rt) start uses s → ∀ now q m c mem',
      MessageCache.get rt s.cache now s.mem q.name q.typ = some (m, c, mem') →
        ∃ o, (∀ o', (m, o') ∈ s.origins ↔ o' = o) ∧
          (o.asked = q ↔ o.Said s.mem m ∧ o.asked.cls = q.cls)) ∧
    ∀ resolver f f' shared, f.response = none →
      (∀ l ∈ shared, l.1.queryKey rt.hash = f.queryKey rt.hash) →
      Resolver.resolve resolver (shared.map fun l => .follows l.2) f = some f' →
      f'.response = none ∨ ∃ leader resp, Resolver.TakenOver shared f leader resp ∧
        f'.response = some (Resolver.withId f.request.header.id resp) ∧
        (leader.request.question = f.request.question ↔
          resp.question.name = leader.request.question.name ∧
            leader.request.question.cls = f.request.question.cls) := by
  intro start
  refine ⟨fun s hreached now q m c mem' hget => ?_, fun resolver f f' shared hnone hkey hf => ?_⟩
  · have hkept : s.Kept rt := reached_induction (UseState.Kept rt)
      (fun _ _ _ h _ heq => h.step heq) (along_of_forall (fun _ _ => trivial) start uses)
      (UseState.Kept.start rt positiveTtl negativeTtl maxSize shortAnswer mem) hreached
    obtain ⟨o, ho, -⟩ := hkept.found hget
    refine ⟨o, fun o' => ⟨fun ho' => hkept.origin_unique ho' ho, ?_⟩, hkept.asked_iff hget ho⟩
    rintro rfl
    exact ho
  · refine (Resolver.resolve_follows resolver hnone shared hf).imp_right ?_
    rintro ⟨leader, resp, htaken, heq⟩
    exact ⟨leader, resp, htaken, heq, htaken.asked_iff hkey⟩

/-- The question for the AAAA records of `www.cn.` in the class CH. -/
def chaosQuestion : Question := { exampleQuestion with cls := ⟨3⟩ }

def exampleMem : Memory := (Memory.empty.storeMessage exampleReply 0).1

def exampleUse : UseState := ⟨emptyCache 3600 60 0 false, exampleMem, []⟩

def clientAsking (question : Question) : Resolver.Client :=
  ⟨⟨⟨2, false, false, .noError, 0, 0, 0⟩, question, [], [], []⟩, none, 0, true⟩

/-- A second query for the same name, type and class gets a response that was produced for it. -/
theorem example_same_question_answered :
    (∃ s c mem, run (UseState.step exampleRuntime) exampleUse [.add 0 exampleQuestion 0] = .ok s ∧
      MessageCache.get exampleRuntime s.cache 0 s.mem exampleQuestion.name exampleQuestion.typ =
        some (0, c, mem) ∧
      ∃ o, (0, o) ∈ s.origins ∧ o.asked = exampleQuestion) ∧
    ∃ f', Resolver.resolve (fun _ => ⟨none, true⟩) [.follows ⟨some exampleReply, true⟩]
      (clientAsking exampleQuestion) = some f' ∧
      ∃ leader resp, Resolver.TakenOver
          [(clientAsking exampleQuestion, ⟨some exampleReply, true⟩)]
          (clientAsking exampleQuestion) leader resp ∧
        f'.response = some (Resolver.withId 2 resp) ∧
        leader.request.question = exampleQuestion := by
  have hmain := shared_answers_asked_iff exampleRuntime 3600 60 0 false exampleMem
    [.add 0 exampleQuestion 0]
  refine ⟨⟨_, _, _, rfl, rfl, ?_⟩, _, rfl, ?_⟩
  · obtain ⟨o, horigin, hiff⟩ := hmain.1 _ ⟨_, List.prefix_rfl, rfl⟩ 0 exampleQuestion 0 _ _ rfl
    have ho : ⟨exampleQuestion, exampleReply⟩ = o :=
      (horigin ⟨exampleQuestion, exampleReply⟩).mp (by decide)
    subst ho
    exact ⟨_, (horigin _).mpr rfl, hiff.mpr ⟨⟨rfl, rfl⟩, rfl⟩⟩
  · rcases hmain.2 (fun _ => ⟨none, true⟩) (clientAsking exampleQuestion) _
      [(clientAsking exampleQuestion, ⟨some exampleReply, true⟩)] rfl
      (fun l hl => by rw [List.mem_singleton.mp hl]) rfl with
      hnone | ⟨leader, resp, htaken, hresp, hiff⟩
    · cases hnone
    · refine ⟨leader, resp, htaken, hresp, ?_⟩
      obtain ⟨before, r, after, hflights, -⟩ := htaken.flight
      have hleader : (leader, r) ∈ [(clientAsking exampleQuestion, ⟨some exampleReply, true⟩)] := by
        rw [hflights]
        exact List.mem_append_right before List.mem_cons_self
      obtain ⟨rfl, -⟩ := Prod.mk.inj (List.mem_singleton.mp hleader)
      exact hiff.mpr ⟨htaken.name.symm, rfl⟩

/-- The response to a question of class IN is given to queries of class CH. -/
theorem example_other_class_answered :
    chaosQuestion ≠ exampleQuestion ∧
    (∃ s c mem, run (UseState.step exampleRuntime) exampleUse [.add 0 exampleQuestion 0] = .ok s ∧
      s.origins = [(0, ⟨exampleQuestion, exampleReply⟩)] ∧
      MessageCache.get exampleRuntime s.cache 0 s.mem chaosQuestion.name chaosQuestion.typ =
        some (0, c, mem)) ∧
    (clientAsking exampleQuestion).queryKey exampleRuntime.hash =
      (clientAsking chaosQuestion).queryKey exampleRuntime.hash ∧
    Resolver.resolve (fun _ => ⟨none, true⟩) [.follows ⟨some exampleReply, true⟩]
      (clientAsking chaosQuestion) = some { clientAsking chaosQuestion with
        response := some (Resolver.withId 2 exampleReply) } := by
  refine ⟨by decide, ⟨_, _, _, rfl, by decide, rfl⟩, rfl, rfl⟩

end Vanguard.Cache
