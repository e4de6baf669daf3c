import Vanguard.Query.CachedAnswers
import Vanguard.Query.Handlers

namespace Vanguard.Query

open LocalData (LocalPolicy findAnswer responseWithLocalData)

theorem Sound.foreign {c : Client} (hc : Sound c) : Foreign c := by
  intro r hr hproducer
  have hresolver := hc r hr
  rw [hproducer] at hresolver
  cases hresolver

theorem foreign_of_none {c : Client} (hnone : c.response = none) : Foreign c :=
  (sound_of_none hnone).foreign

def KeepsForeign (resolve : Resolve) : Prop := ∀ c c', Foreign c → resolve c = .ok c' → Foreign c'

/-- A client without a response stays as it is, or gets one if the resolver returns. -/
def Silence (silent : Bool) (c : Client) (result : Except Stop Client) : Prop :=
  if silent = true then result = .ok c else ∀ c', result = .ok c' → c'.response ≠ none

theorem Silence.same (c : Client) : Silence true c (.ok c) := rfl

theorem Silence.answered {c c' : Client} {r : Response} (hr : c'.response = some r) :
    Silence false c (.ok c') := by
  intro c'' hc''
  cases hc''
  simp [hr]

theorem Silence.stopped (c : Client) (e : Stop) : Silence false c (.error e) := by
  intro c' hc'
  cases hc'

section

variable {P : Type} (mods : Modules) (w : World P)

def World.forwarderSilent : Bool :=
  !(mods.forwarder && w.forward.isSome) && !w.recursorReplies mods

/-- The resolvers behind `QueryLimit` have no reply for a client without a response. -/
def World.outsideSilent : Bool :=
  if mods.stub then
    match w.stub with
    | .senderFails => true
    | .noMasters => w.forwarderSilent mods
    | .failed => false
    | .replied _ => false
  else w.forwarderSilent mods

/-- The calls of `Do` leave a client without a response as it is. -/
def World.limitSilent (c : Client) : Bool :=
  match verdict c.question.name (w.flight :: w.later) with
  | .leads => w.outsideSilent mods
  | .nothing => true
  | .shares _ _ => false
  | .waits => false

end

def World.silent {P : Type} [NameTree P LocalPolicy] (mods : Modules) (w : World P) (c : Client) :
    Bool :=
  !w.answersFirst mods c && (!mods.limit || w.limitSilent mods c)

section silence

variable {P : Type} {c : Client}

section

variable (hnone : c.response = none)

include hnone

theorem recursorResolve_silence (enable : Bool) (outcome : RecursorOutcome) :
    Silence (!(enable && outcome.isReply)) c (recursorResolve enable outcome .ok c) := by
  have hself : ({ c with response := none } : Client) = c := by rw [← hnone]
  cases enable with
  | false =>
    have hpass : recursorResolve false outcome .ok c = .ok c := by simp [recursorResolve, hnone]
    rw [hpass]
    exact .same c
  | true =>
    cases outcome with
    | exceeds => simp [Silence, RecursorOutcome.isReply, recursorResolve, recurse, hnone,
      Except.map, hself]
    | failed =>
      simp [Silence, RecursorOutcome.isReply, recursorResolve, recurse, isReferral, hnone,
        Except.map, hself]
    | replied msg =>
      simp only [recursorResolve, recurse, isReferral, hnone, Except.map, reduceCtorEq, if_true,
        if_false, Option.map_some, Option.isSome_some]
      exact .answered rfl

/-- The resolvers behind `QueryLimit`. -/
theorem outsideResolve_silence (mods : Modules) (w : World P) :
    Silence (w.outsideSilent mods) c (outsideResolve mods w c) := by
  have hrecursor : Silence (!w.recursorReplies mods) c
      (link mods.recursor (recursorResolve w.recursorEnable w.recursion) .ok c) := by
    unfold World.recursorReplies link
    cases mods.recursor with
    | false => exact .same c
    | true => exact recursorResolve_silence hnone w.recursorEnable w.recursion
  have hforwarder : Silence (w.forwarderSilent mods) c (link mods.forwarder
      (forwarderResolve w.forward)
      (link mods.recursor (recursorResolve w.recursorEnable w.recursion) .ok) c) := by
    unfold World.forwarderSilent
    cases mods.forwarder with
    | false => exact hrecursor
    | true =>
      cases hforward : w.forward with
      | none =>
        simp only [link, forwarderResolve, isReferral, processRequest, hnone, if_true]
        exact hrecursor
      | some msg =>
        simp only [link, forwarderResolve, isReferral, processRequest, hnone, if_true]
        exact .answered rfl
  unfold outsideResolve World.outsideSilent
  cases mods.stub with
  | false => exact hforwarder
  | true =>
    cases w.stub with
    | senderFails => exact .same c
    | noMasters =>
      simp only [link, stubResolve, isReferral, hnone, reduceCtorEq, if_true, if_false]
      exact hforwarder
    | failed =>
      simp only [link, stubResolve, isReferral, hnone, reduceCtorEq, if_true, if_false]
      exact .answered rfl
    | replied msg =>
      simp only [link, stubResolve, isReferral, hnone, reduceCtorEq, if_true, if_false]
      exact .answered rfl

theorem limitResolve_silence (mods : Modules) (w : World P) :
    Silence (!mods.limit || w.limitSilent mods c) c (limitResolve mods w c) := by
  unfold limitResolve
  cases mods.limit with
  | false => exact .same c
  | true =>
    simp only [link, if_true, queryLimitResolve_unmarked _ _ hnone, World.limitSilent]
    cases verdict c.question.name (w.flight :: w.later) with
    | leads => exact outsideResolve_silence hnone mods w
    | shares r cacheAnswer => exact .answered rfl
    | nothing => exact .same c
    | waits => exact .stopped c .waits

end

theorem afterResolvers_silence (c : Client) (pass : Pass P) (conf : BackConf) :
    Silence (!(conf.failForwarder && pass.failForward.isSome)) c (pass.afterResolvers conf c) := by
  unfold Pass.afterResolvers
  cases conf.failForwarder with
  | false => exact .same c
  | true =>
    cases pass.failForward with
    | none => exact .same c
    | some msg => exact .answered rfl

variable [NameTree P LocalPolicy]

theorem chainResolve_silence (hnone : c.response = none) (mods : Modules) (w : World P) :
    Silence (w.silent mods c) c (chainResolve mods w c) := by
  have hc : Unanswered c := fun r hr => absurd (hnone.symm.trans hr) (by simp)
  unfold World.silent
  cases hanswers : w.answersFirst mods c with
  | false =>
    rw [chainResolve_passes hc hanswers]
    exact limitResolve_silence hnone mods w
  | true =>
    intro c' hc'
    obtain ⟨r, hr, -⟩ := resolved_chainResolve hc hanswers hc'
    simp [hr]

def Pass.silent (pass : Pass P) (conf : BackConf) (c : Client) : Bool :=
  pass.found.isNone && ((!conf.mods.any || (pass.worlds 0).silent conf.mods c) &&
    !(conf.failForwarder && pass.failForward.isSome))

theorem resolverHandleQuery_silence (hnone : c.response = none) (mods : Modules)
    (checkCnameIndirect : Bool) (worlds : ℕ → World P) {next : Resolve} {silent : Bool}
    (hnext : Silence silent c (next c)) :
    Silence ((worlds 0).silent mods c && silent) c
      (resolverHandleQuery mods checkCnameIndirect worlds next c) := by
  have hchain := chainResolve_silence hnone mods (worlds 0)
  cases hsilent : (worlds 0).silent mods c with
  | true =>
    rw [hsilent, Silence, if_pos rfl] at hchain
    have hask := ask_resolverOf mods worlds c
    rw [hchain] at hask
    have hsame : resolverHandleQuery mods checkCnameIndirect worlds next c = next c := by
      simp [resolverHandleQuery, cnameResolve, hask, needRedirect, hnone]
    rw [Bool.true_and, hsame]
    exact hnext
  | false =>
    rw [hsilent, Silence, if_neg (by simp)] at hchain
    rw [Bool.false_and]
    intro c' hc'
    unfold resolverHandleQuery at hc'
    split at hc'
    · cases hc'
    · next client hclient =>
      have hanswered : client.response ≠ none := by
        rcases cnameResolve_eq_ok (Prod.ext rfl hclient) with hask |
          ⟨t₁, client₁, nextName, r, ctx', -, -, -, -, rfl⟩
        · exact hchain client (chainResolve_of_ask hask)
        · exact Option.some_ne_none _
      rw [if_pos (Option.isSome_iff_ne_none.mpr hanswered)] at hc'
      cases hc'
      exact hanswered

theorem behindCache_silence (hnone : c.response = none) (pass : Pass P) (conf : BackConf) :
    Silence ((!conf.mods.any || (pass.worlds 0).silent conf.mods c) &&
      !(conf.failForwarder && pass.failForward.isSome)) c (pass.behindCache conf c) := by
  unfold Pass.behindCache
  cases conf.mods.any with
  | false => exact afterResolvers_silence c pass conf
  | true =>
    exact resolverHandleQuery_silence hnone conf.mods conf.checkCnameIndirect pass.worlds
      (afterResolvers_silence c pass conf)

theorem respond_of_miss {pass : Pass P} (hmiss : pass.found = none) (conf : BackConf) (c : Client) :
    pass.respond conf c = pass.behindCache conf { c with cacheHit := false } := by
  unfold Pass.respond Pass.handleQuery cacheHandleQuery
  rw [hmiss]
  cases hc : pass.behindCache conf { c with cacheHit := false } with
  | error e | ok c' => simp [Except.map]

theorem respond_silence (hnone : c.response = none) (pass : Pass P) (conf : BackConf) :
    Silence (pass.silent conf c) { c with cacheHit := false } (pass.respond conf c) := by
  unfold Pass.silent
  cases hfound : pass.found with
  | some message =>
    unfold Pass.respond Pass.handleQuery cacheHandleQuery
    rw [hfound]
    exact .answered rfl
  | none =>
    rw [respond_of_miss hfound]
    exact behindCache_silence (c := { c with cacheHit := false }) hnone pass conf

theorem foreign_of_hit {pass : Pass P} (hhit : pass.found ≠ none) {conf : BackConf} {c' : Client}
    (hc' : pass.respond conf c = .ok c') : Foreign c' := by
  obtain ⟨message, hfound⟩ := Option.ne_none_iff_exists'.mp hhit
  unfold Pass.respond Pass.handleQuery cacheHandleQuery at hc'
  rw [hfound] at hc'
  cases hc'
  exact foreign_of_eq rfl (by simp)

theorem keepsForeign_behindCache (pass : Pass P) (conf : BackConf) :
    KeepsForeign (pass.behindCache conf) := by
  intro c c' hc hc'
  unfold Pass.behindCache link at hc'
  split_ifs at hc'
  · exact producer_resolverHandleQuery (· ≠ .selector)
      (fun _ _ hnone hnext => (sound_afterResolvers pass conf hnone hnext).foreign)
      (fun c₁ hc₁ => (writes_chainResolve conf.mods (pass.worlds 0) c c₁ hc₁).foreign hc) hc'
  · exact (writes_afterResolvers pass conf c c' hc').foreign hc

theorem keepsForeign_respond (pass : Pass P) (conf : BackConf) :
    KeepsForeign (pass.respond conf) := by
  intro c c' hc hc'
  by_cases hmiss : pass.found = none
  · rw [respond_of_miss hmiss] at hc'
    exact keepsForeign_behindCache pass conf { c with cacheHit := false } c' hc hc'
  · exact foreign_of_hit hmiss hc'

end silence

end Vanguard.Query
