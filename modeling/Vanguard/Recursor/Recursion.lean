import Mathlib.Data.Prod.Lex
import Mathlib.Order.WellFounded
import Vanguard.Library.Threads
import Vanguard.Recursor.Rounds
import Vanguard.Recursor.Selection

namespace Vanguard.Recursor

open Library List Option

/-- What is left of a context: the rounds, the calls of a round, the missing servers. -/
def RecursorCtx.rank (ctx : RecursorCtx) : ℕ ×ₗ ℕ ×ₗ ℕ :=
  match ctx.phase with
  | .referal _ | .sent _ => toLex (maxQueryDep - ctx.depth, toLex (4, 0))
  | .missing names _ _ => toLex (maxQueryDep - ctx.depth, toLex (3, names.length))
  | .waiting => toLex (maxQueryDep - ctx.depth, toLex (2, 0))
  | .query => toLex (maxQueryDep - ctx.depth, toLex (1, 0))
  | .ended => toLex (0, toLex (0, 0))

/-- Fewer queries than the depth allows, which counts them, and no start above the parent. -/
structure RecursorCtx.Bounded (ctx : RecursorCtx) : Prop where
  rounds : ctx.inherited + ctx.rounds < maxQueryDep
  parent : ∀ d ∈ ctx.parent, d ≤ ctx.inherited
  depth : ctx.phase ≠ .ended → ctx.depth = ctx.inherited + ctx.rounds

namespace RecursorCtx

variable {ctx : RecursorCtx} {new : List RecursorCtx}

theorem lt_of_call {a k l k' l' : ℕ} (h : k' < k ∨ k' = k ∧ l' < l) :
    (toLex (a, toLex (k', l')) : ℕ ×ₗ ℕ ×ₗ ℕ) < toLex (a, toLex (k, l)) := by
  rw [Prod.Lex.toLex_lt_toLex, Prod.Lex.toLex_lt_toLex]
  omega

theorem rank_ended_lt (hphase : ctx.phase ≠ .ended) : (ctx.goTo .ended).rank < ctx.rank := by
  have hpos : ∀ a k l : ℕ, 0 < k →
      (toLex (0, toLex (0, 0)) : ℕ ×ₗ ℕ ×ₗ ℕ) < toLex (a, toLex (k, l)) := by
    intro a k l hk
    rw [Prod.Lex.toLex_lt_toLex, Prod.Lex.toLex_lt_toLex]
    omega
  unfold rank goTo
  cases hctx : ctx.phase with
  | ended => exact absurd hctx hphase
  | referal response | sent servers => exact hpos _ 4 _ (by omega)
  | missing names wait outQuery => exact hpos _ 3 _ (by omega)
  | waiting => exact hpos _ 2 _ (by omega)
  | query => exact hpos _ 1 _ (by omega)

inductive Moves (ctx : RecursorCtx) : List RecursorCtx → Prop where
  | ended (depth : ℕ) (hphase : ctx.phase ≠ .ended) :
      Moves ctx [{ ctx with depth, phase := .ended }]
  | round (servers : List NameServer) (hphase : ctx.phase = .query)
      (hdepth : ctx.depth + 1 < maxQueryDep) :
      Moves ctx [{ ctx with
        depth := ctx.depth + 1, phase := .sent servers, rounds := ctx.rounds + 1 }]
  | call (phase : RoundPhase) (hphase : ctx.phase ≠ .ended)
      (hlt : (ctx.goTo phase).rank < ctx.rank) : Moves ctx [ctx.goTo phase]
  | spawn (name : Name) (names : List Name) (wait : Bool) (outQuery : ℕ)
      (hphase : ctx.phase = .missing (name :: names) wait outQuery) :
      Moves ctx [ctx.goTo (.missing names wait (outQuery + 1)), ctx.newCtx name]

theorem moves_goOn (hgoing : ctx.phase ≠ .ended)
    (hrank : ctx.rank = toLex (maxQueryDep - ctx.depth, toLex (4, 0)))
    (continuation : Except Fault Continuation) : ctx.Moves [ctx.goOn continuation] := by
  cases continuation with
  | error f => exact .ended ctx.depth hgoing
  | ok c =>
    cases c with
    | answer response | errInvalidResponse => exact .ended ctx.depth hgoing
    | query missing wait =>
      simp only [goOn]
      split
      · refine .call .query hgoing ?_
        rw [hrank]
        exact lt_of_call (.inl (by omega))
      · refine .call _ hgoing ?_
        rw [hrank]
        exact lt_of_call (.inl (by omega))

theorem Moves.rank_lt (h : ctx.Moves new) : ∀ c ∈ new, c.rank < ctx.rank := by
  cases h with
  | ended depth hphase => exact forall_mem_singleton.mpr (rank_ended_lt hphase)
  | round servers hphase hdepth =>
    refine forall_mem_singleton.mpr ?_
    simp only [rank, hphase]
    rw [Prod.Lex.toLex_lt_toLex]
    omega
  | call phase hphase hlt => exact forall_mem_singleton.mpr hlt
  | spawn name names wait outQuery hphase =>
    refine forall_mem_cons.mpr ⟨?_, forall_mem_singleton.mpr ?_⟩
    · simp only [rank, goTo, hphase]
      exact lt_of_call (.inr ⟨rfl, by simp⟩)
    · simp only [rank, newCtx, hphase]
      exact lt_of_call (.inl (by omega))

theorem Bounded.moves (hb : ctx.Bounded) (h : ctx.Moves new) : ∀ c ∈ new, c.Bounded := by
  cases h with
  | ended depth hphase =>
    exact forall_mem_singleton.mpr ⟨hb.rounds, hb.parent, fun hne => absurd rfl hne⟩
  | round servers hphase hdepth =>
    have heq := hb.depth (by simp [hphase])
    exact forall_mem_singleton.mpr ⟨by simp only; omega, hb.parent, fun _ => by simp only; omega⟩
  | call phase hphase hlt =>
    exact forall_mem_singleton.mpr ⟨hb.rounds, hb.parent, fun _ => hb.depth hphase⟩
  | spawn name names wait outQuery hphase =>
    have heq := hb.depth (by simp [hphase])
    refine forall_mem_cons.mpr ⟨⟨hb.rounds, hb.parent, fun _ => heq⟩,
      forall_mem_singleton.mpr ⟨?_, fun d hd => ?_, fun _ => rfl⟩⟩
    · have := hb.rounds
      simp only [newCtx]
      omega
    · cases hd
      exact le_rfl

variable {T : Type} [NameTree T (Element ZoneEntry)] [ErasableNameTree T (Element ZoneEntry)]
  {hash : Name → UInt32}

theorem moves_handleQuery {nc : NsasCache T} {now : Time} {late : Bool} {ctx' : RecursorCtx}
    (hphase : ctx.phase = .query) (h : ctx.handleQuery hash nc now late = some ctx') :
    ctx.Moves [ctx'] := by
  have hgoing : ctx.phase ≠ .ended := by simp [hphase]
  simp only [handleQuery] at h
  split at h
  · cases h
    exact .ended (ctx.depth + 1) hgoing
  · next hdepth =>
    have hlt : ctx.depth + 1 < maxQueryDep := by
      rw [not_or] at hdepth
      exact Nat.lt_of_not_le hdepth.1
    split at h
    · cases h
      exact .round _ hphase hlt
    · cases h
      exact .round _ hphase hlt
    · cases h
      exact .ended (ctx.depth + 1) hgoing
    · cases h

theorem moves_of_next {m : Meets T} (h : ctx.next hash m = some new) : ctx.Moves new := by
  cases m with
  | cache nc now late =>
    simp only [next] at h
    split at h
    · next hphase =>
      obtain ⟨ctx', hctx', rfl⟩ := map_eq_some_iff.mp h
      exact moves_handleQuery hphase hctx'
    · cases h
  | referral nc at_ =>
    simp only [next] at h
    split at h
    · next response hphase =>
      cases h
      exact moves_goOn (by simp [hphase]) (by simp only [rank, hphase]) _
    · cases h
  | reply nc at_ response =>
    simp only [next] at h
    split at h
    · next servers hphase =>
      cases h
      refine .call .query (by simp [hphase]) ?_
      simp only [rank, hphase]
      exact lt_of_call (.inl (by omega))
    · next hphase =>
      cases h
      exact moves_goOn (by simp [hphase]) (by simp only [rank, hphase]) _
    · cases h
  | pool available =>
    simp only [next] at h
    split at h
    · next wait outQuery hphase =>
      cases h
      refine .call _ (by simp [hphase]) ?_
      split
      all_goals
        simp only [rank, hphase]
        exact lt_of_call (.inl (by omega))
    · next name names wait outQuery hphase =>
      split at h
      · split at h
        · cases h
          exact .ended ctx.depth (by simp [hphase])
        · cases h
          exact .spawn name names wait outQuery hphase
      · cases h
        refine .call _ (by simp [hphase]) ?_
        simp only [rank, hphase]
        exact lt_of_call (.inr ⟨rfl, by simp⟩)
    · cases h
  | wake =>
    simp only [next] at h
    split at h
    · next hphase =>
      cases h
      refine .call .query (by simp [hphase]) ?_
      simp only [rank, hphase]
      exact lt_of_call (.inl (by omega))
    · cases h

end RecursorCtx

section

variable {T : Type} [NameTree T (Element ZoneEntry)] [ErasableNameTree T (Element ZoneEntry)]
  {hash : Name → UInt32}

theorem roundStep_eq_ok {ctxs ctxs' : List RecursorCtx} {e : RoundEvent T}
    (h : roundStep hash ctxs e = .ok ctxs') : ∃ ctx new, ctxs[e.ctx]? = some ctx ∧
      ctx.next hash e.meets = some new ∧ ctxs' = ctxs.eraseIdx e.ctx ++ new := by
  unfold roundStep at h
  split at h
  · next ctx hctx =>
    split at h
    · next new hnew =>
      cases h
      exact ⟨ctx, new, hctx, hnew, rfl⟩
    · cases h
  · cases h

theorem bounded_startRounds (question : Question) (nameServers : List NameServer)
    (response : Option (Message Section)) :
    ∀ ctx ∈ startRounds question nameServers response, ctx.Bounded := by
  have hinit : ∀ phase, (RecursorCtx.init question nameServers phase).Bounded := by
    intro phase
    have hrounds : 0 + 0 < maxQueryDep := by decide
    refine ⟨hrounds, fun d hd => ?_, fun _ => rfl⟩
    cases mem_def.mp hd
  unfold startRounds
  split
  · split
    · exact forall_mem_singleton.mpr (hinit _)
    · exact forall_mem_singleton.mpr (hinit _)
    · exact fun _ hctx => by cases hctx
  · exact forall_mem_singleton.mpr (hinit _)

theorem wellFounded_roundStep (hash : Name → UInt32) :
    WellFounded fun ctxs' ctxs => ∃ e : RoundEvent T, roundStep hash ctxs e = .ok ctxs' := by
  refine Subrelation.wf ?_ (wellFounded_forks RecursorCtx.rank)
  rintro ctxs' ctxs ⟨e, he⟩
  obtain ⟨ctx, new, hctx, hnew, rfl⟩ := roundStep_eq_ok he
  exact ⟨e.ctx, ctx, new, hctx, rfl, (RecursorCtx.moves_of_next hnew).rank_lt⟩

variable [LawfulNameTree T (Element ZoneEntry)] [LawfulErasableNameTree T (Element ZoneEntry)]

/-- What a goroutine meets at the latest: an error, and the end of the time to wait. -/
def Meets.unanswered (nc : NsasCache T) (at_ : Instant) (late available : Bool) : List (Meets T) :=
  [.cache nc at_.now late, .referral nc at_, .reply nc at_ none, .pool available, .wake]

theorem RecursorCtx.handleQuery_isSome (hash : Name → UInt32) (ctx : RecursorCtx)
    {nc : NsasCache T} (hsound : nc.Sound) (now : Time) (late : Bool) :
    (ctx.handleQuery hash nc now late).isSome = true := by
  unfold RecursorCtx.handleQuery
  simp only []
  split
  · rfl
  · obtain ⟨servers, nc', hselect, -⟩ := hsound.select hash now ctx.question.name
    rw [hselect]
    cases servers with
    | nil | cons server servers => rfl

theorem RecursorCtx.next_isSome (hash : Name → UInt32) {ctx : RecursorCtx}
    (hphase : ctx.phase ≠ .ended) {nc : NsasCache T} (hsound : nc.Sound) (at_ : Instant)
    (late available : Bool) :
    ∃ m ∈ Meets.unanswered nc at_ late available, (ctx.next hash m).isSome = true := by
  cases hctx : ctx.phase with
  | ended => exact absurd hctx hphase
  | query =>
    refine ⟨.cache nc at_.now late, by simp [Meets.unanswered], ?_⟩
    simp only [RecursorCtx.next, hctx, isSome_map]
    exact ctx.handleQuery_isSome hash hsound at_.now late
  | referal response =>
    exact ⟨.referral nc at_, by simp [Meets.unanswered], by simp [RecursorCtx.next, hctx]⟩
  | sent servers =>
    exact ⟨.reply nc at_ none, by simp [Meets.unanswered], by simp [RecursorCtx.next, hctx]⟩
  | missing names wait outQuery =>
    refine ⟨.pool available, by simp [Meets.unanswered], ?_⟩
    cases names with
    | nil => simp [RecursorCtx.next, hctx]
    | cons name names =>
      simp only [RecursorCtx.next, hctx]
      split
      · split <;> rfl
      · rfl
  | waiting => exact ⟨.wake, by simp [Meets.unanswered], by simp [RecursorCtx.next, hctx]⟩

/-- A recursion ends, whatever the servers do, with fewer queries than its depth allows. -/
theorem recursion_bounded (hash : Name → UInt32) :
    (WellFounded fun ctxs' ctxs => ∃ e : RoundEvent T, roundStep hash ctxs e = .ok ctxs') ∧
    (∀ (maxCacheSize : ℤ) calls (nc : NsasCache T),
      Reached (NsasCache.recursorStep hash maxCacheSize) newNsasCache calls nc →
      ∀ (ctxs : List RecursorCtx) i ctx, ctxs[i]? = some ctx → ctx.phase ≠ .ended →
      ∀ at_ late available, ∃ m ∈ Meets.unanswered nc at_ late available,
        ∃ ctxs', roundStep hash ctxs ⟨i, m⟩ = .ok ctxs') ∧
    ∀ question nameServers response (events : List (RoundEvent T)) ctxs,
      Reached (roundStep hash) (startRounds question nameServers response) events ctxs →
      ∀ ctx ∈ ctxs, ctx.inherited + ctx.rounds < maxQueryDep ∧
        ∀ d ∈ ctx.parent, d ≤ ctx.inherited := by
  refine ⟨wellFounded_roundStep hash, fun maxCacheSize calls nc hnc ctxs i ctx hctx hphase at_ late
    available => ?_, fun question nameServers response events ctxs hreached => ?_⟩
  · have hsound := NsasCache.sound_of_reached hash hnc
    obtain ⟨m, hm, hsome⟩ := ctx.next_isSome hash hphase hsound at_ late available
    obtain ⟨new, hnew⟩ := isSome_iff_exists.mp hsome
    exact ⟨m, hm, ctxs.eraseIdx i ++ new, by simp [roundStep, hctx, hnew]⟩
  · have hbounded : ∀ ctx ∈ ctxs, ctx.Bounded := by
      refine reached_induction (fun ctxs : List RecursorCtx => ∀ ctx ∈ ctxs, ctx.Bounded) ?_
        (along_of_forall (fun _ _ => trivial) _ events)
        (bounded_startRounds question nameServers response) hreached
      intro ctxs e ctxs' hall _ hstep
      obtain ⟨ctx, new, hctx, hnew, rfl⟩ := roundStep_eq_ok hstep
      exact forall_mem_append.mpr ⟨fun ctx' hold => hall ctx' (mem_of_mem_eraseIdx hold),
        (hall ctx (mem_of_getElem? hctx)).moves (RecursorCtx.moves_of_next hnew)⟩
    exact fun ctx hctx => ⟨(hbounded ctx hctx).rounds, (hbounded ctx hctx).parent⟩

end

def exampleRound (depth : ℕ) (phase : RoundPhase) : RecursorCtx :=
  ⟨exampleQuestion, depth, [⟨.root, ["a", "root"], .a [198, 41, 0, 4], 0⟩], phase, 0, none, depth⟩

/-- A server that does not answer: the context has sent one query and goes on. -/
theorem example_round_bounded :
    let start := startRounds exampleQuestion (exampleRound 0 .query).nameServers none
    let nc : NsasCache (NameTable (Element ZoneEntry)) := newNsasCache
    run (roundStep exampleHash) start [⟨0, .cache nc 0 false⟩, ⟨0, .reply nc exampleInstant none⟩] =
        .ok [exampleRound 1 .query] ∧
      (∃ m ∈ Meets.unanswered nc exampleInstant false true,
        ∃ ctxs', roundStep exampleHash [exampleRound 1 .query] ⟨0, m⟩ = .ok ctxs') ∧
      (exampleRound 1 .query).inherited + (exampleRound 1 .query).rounds < maxQueryDep := by
  intro start nc
  obtain ⟨-, hnext, hbounded⟩ := recursion_bounded (T := NameTable (Element ZoneEntry)) exampleHash
  have hrun : run (roundStep exampleHash) start
      [⟨0, .cache nc 0 false⟩, ⟨0, .reply nc exampleInstant none⟩] =
        .ok [exampleRound 1 .query] := rfl
  refine ⟨hrun, ?_, ?_⟩
  · exact hnext 0 [] nc (Reached.start nc []) _ 0 _ rfl (by decide) exampleInstant false true
  · exact (hbounded _ _ none _ _ ⟨_, prefix_rfl, hrun⟩ _ mem_cons_self).1

end Vanguard.Recursor
