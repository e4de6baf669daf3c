import Vanguard.Query.Answering

namespace Vanguard.Query

open LocalData (LocalPolicy)

section handler

variable {σ : Type} {resolver : σ → Client → σ × Except Stop Left} {checkCnameIndirect : Bool}

theorem producer_mergeResponse (ctx : Context) (response : Option Response) :
    (ctx.mergeResponse response).response.producer = ctx.response.producer := by
  cases response <;> rfl

theorem response_addRedirect {ctx ctx' : Context} {nextName : Name}
    (hadd : ctx.addRedirect nextName = some ctx') : ctx'.response = ctx.response := by
  unfold Context.addRedirect at hadd
  split_ifs at hadd
  cases hadd
  rfl

theorem producer_followCNameChain {n : ℕ} {ctx ctx' : Context} {t t' : Resolution σ}
    (hfollow : followCNameChain resolver checkCnameIndirect n ctx t = (t', .ok ctx')) :
    ctx'.response.producer = ctx.response.producer := by
  refine @followCNameChain_induction σ resolver checkCnameIndirect _ _ _ _ (fun _ _ => True)
    (fun _ ctx' => ctx'.response.producer = ctx.response.producer) ?_ _ trivial rfl hfollow
  intro calls ctx₁ response ctx₂ goOn _ hpost hredirected
  refine ⟨?_, fun _ => trivial⟩
  cases hredirected with
  | final | circle => exact (producer_mergeResponse _ _).trans hpost
  | goesOn _ _ hadd =>
    rw [response_addRedirect hadd]
    exact (producer_mergeResponse _ _).trans hpost

/-- What holds of the producer of the first response holds of that of the last. -/
theorem producer_cnameResolve (Q : Producer → Prop) {client client' : Client} {t t' : Resolution σ}
    (hfirst : ∀ t₁ client₁, t.ask resolver client = (t₁, .ok client₁) →
      ∀ r, client₁.response = some r → Q r.producer)
    (hresolve : cnameResolve resolver checkCnameIndirect client t = (t', .ok client')) :
    ∀ r, client'.response = some r → Q r.producer := by
  rcases cnameResolve_eq_ok hresolve with hask |
    ⟨t₁, client₁, nextName, r, ctx', hask, hr, -, hfollow, rfl⟩
  · exact hfirst t' client' hask
  · have hcut : (r.cut checkCnameIndirect).producer = r.producer := by
      unfold Response.cut
      split_ifs <;> rfl
    have hctx : ctx'.response.producer = r.producer := by
      rw [producer_followCNameChain hfollow]
      cases hadd : (newCNameContext client₁ (r.cut checkCnameIndirect)).addRedirect nextName with
      | none => exact hcut
      | some ctx₁ =>
        rw [Option.getD_some, response_addRedirect hadd]
        exact hcut
    have hproducer : Q r.producer := hfirst t₁ client₁ hask r hr
    rw [← hctx] at hproducer
    intro r' hr'
    cases hr'
    exact hproducer

end handler

section passes

variable {P : Type} [NameTree P LocalPolicy] {mods : Modules} {worlds : ℕ → World P}

theorem ask_resolverOf (mods : Modules) (worlds : ℕ → World P) (c : Client) :
    Resolution.ask (resolverOf mods worlds) ⟨0, []⟩ c =
      match chainResolve mods (worlds 0) c with
      | .ok c' => (⟨1, [⟨c.question, c'.response⟩]⟩, .ok c')
      | .error e => (⟨1, [⟨c.question, none⟩]⟩, .error e) := by
  cases hc : chainResolve mods (worlds 0) c with
  | error e => simp [Resolution.ask, resolverOf, hc, Except.map]
  | ok c' =>
    simp [Resolution.ask, resolverOf, hc, Except.map, Client.left]
    exact (fills_chainResolve mods (worlds 0) c c' hc).symm

variable {c c' : Client}

theorem chainResolve_of_ask {t : Resolution ℕ}
    (hask : Resolution.ask (resolverOf mods worlds) ⟨0, []⟩ c = (t, .ok c')) :
    chainResolve mods (worlds 0) c = .ok c' := by
  have hresult := congrArg Prod.snd hask
  rw [ask_resolverOf] at hresult
  split at hresult
  · next hchain =>
    cases hresult
    exact hchain
  · cases hresult

variable {checkCnameIndirect : Bool}

/-- The same for the handler, if the next one keeps to it. -/
theorem producer_resolverHandleQuery (Q : Producer → Prop) {next : Resolve}
    (hnext : ∀ c c', c.response = none → next c = .ok c' → ∀ r, c'.response = some r → Q r.producer)
    (hfirst : ∀ c', chainResolve mods (worlds 0) c = .ok c' →
      ∀ r, c'.response = some r → Q r.producer)
    (hc' : resolverHandleQuery mods checkCnameIndirect worlds next c = .ok c') :
    ∀ r, c'.response = some r → Q r.producer := by
  unfold resolverHandleQuery at hc'
  split at hc'
  · cases hc'
  · next client hclient =>
    have hproducer : ∀ r, client.response = some r → Q r.producer :=
      producer_cnameResolve Q (fun t₁ client₁ hask => hfirst client₁ (chainResolve_of_ask hask))
        (Prod.ext rfl hclient)
    split_ifs at hc' with hsome
    · cases hc'
      exact hproducer
    · exact hnext client c' (Option.not_isSome_iff_eq_none.mp hsome) hc'

theorem resolverHandleQuery_of_misled {next : Resolve}
    (hfirst : chainResolve mods (worlds 0) c = .ok c') (hmisled : Misled c') :
    resolverHandleQuery mods checkCnameIndirect worlds next c = .ok c' := by
  obtain ⟨r, hr, -, hbare⟩ := hmisled
  have hask := ask_resolverOf mods worlds c
  rw [hfirst] at hask
  simp [resolverHandleQuery, cnameResolve, hask, hr, needRedirect, hbare.anCount]

section

variable (pass : Pass P) (conf : BackConf)

/-- A client the cache has nothing for is answered by a resolver or the fail forwarder. -/
def Pass.answers (c : Client) : Bool :=
  if c.response.isSome then
    if conf.mods.any then (pass.worlds 0).replies conf.mods c
    else conf.failForwarder && pass.failForward.isSome
  else !(pass.worlds 0).misleads conf.mods c

omit [NameTree P LocalPolicy] in
theorem sound_afterResolvers (hnone : c.response = none)
    (hc' : pass.afterResolvers conf c = .ok c') : Sound c' := by
  unfold Pass.afterResolvers failForwarderHandleQuery at hc'
  split_ifs at hc'
  · split at hc'
    · cases hc'
      exact sound_of_none hnone
    · cases hc'
      exact sound_of_eq rfl rfl
  · cases hc'
    exact sound_of_none hnone

omit [NameTree P LocalPolicy] in
theorem afterResolvers_marked {r : Response} (hr : c.response = some r)
    (hplaceholder : Placeholder r) :
    Fate (conf.failForwarder && pass.failForward.isSome) r (pass.afterResolvers conf c) := by
  unfold Pass.afterResolvers
  cases conf.failForwarder with
  | false => exact .kept (kept_self hr hplaceholder)
  | true =>
    cases pass.failForward with
    | none => exact .kept (kept_self hr hplaceholder)
    | some msg => exact .replaced (sound_of_eq rfl rfl)

omit [NameTree P LocalPolicy] in
theorem writes_afterResolvers : Writes (pass.afterResolvers conf) := by
  intro c c' hc'
  unfold Pass.afterResolvers failForwarderHandleQuery at hc'
  split_ifs at hc'
  · split at hc'
    · cases hc'
      exact .refl c
    · cases hc'
      exact .answered c (by simp) c.cacheAnswer
  · cases hc'
    exact .refl c

theorem behindCache_marked {r : Response} (hr : c.response = some r)
    (hplaceholder : Placeholder r) :
    if pass.answers conf c = true then ∀ c', pass.behindCache conf c = .ok c' → Sound c'
    else ∃ l, pass.behindCache conf c = .ok (c.fill l) ∧ Kept r (c.fill l) := by
  have hsome : c.response.isSome = true := by rw [hr]; rfl
  cases hany : conf.mods.any with
  | false =>
    obtain ⟨c', hc', hfate⟩ := afterResolvers_marked pass conf hr hplaceholder
    simp only [Pass.answers, Pass.behindCache, link, hsome, hany, if_true, Bool.false_eq_true,
      if_false]
    split_ifs at hfate ⊢
    · intro c'' hc''
      cases hc'.symm.trans hc''
      exact hfate
    · have hfill := (writes_afterResolvers pass conf c c' hc').fill
      rw [hfill] at hc' hfate
      exact ⟨c'.left, hc', hfate⟩
  | true =>
    have hchain := chainResolve_marked conf.mods (pass.worlds 0) hr hplaceholder
    simp only [Pass.answers, Pass.behindCache, link, hsome, hany, if_true]
    split_ifs at hchain ⊢
    · intro c' hc'
      exact producer_resolverHandleQuery (·.isResolver = true)
        (fun _ _ => sound_afterResolvers pass conf) hchain hc'
    · obtain ⟨c', hc', hkept⟩ := hchain
      have hfill := fills_chainResolve _ _ c c' hc'
      rw [hfill] at hc' hkept
      exact ⟨c'.left, resolverHandleQuery_of_misled hc' hkept.misled, hkept⟩

theorem behindCache_unmarked (hnone : c.response = none) (hled : (pass.worlds 0).Led conf.mods) :
    if pass.answers conf c = true then ∀ c', pass.behindCache conf c = .ok c' → Sound c'
    else ∃ c', pass.behindCache conf c = .ok c' ∧ Misled c' := by
  have hisNone : c.response.isSome = false := by rw [hnone]; rfl
  have hchain := chainResolve_unmarked hnone hled
  simp only [Pass.answers, hisNone, Bool.false_eq_true, if_false]
  cases hmisleads : (pass.worlds 0).misleads conf.mods c with
  | true =>
    have hany : conf.mods.any = true := by
      have hlimit : conf.mods.limit = true :=
        (Bool.and_eq_true_iff.mp (Bool.and_eq_true_iff.mp hmisleads).2).1
      rw [Modules.any, hlimit, Bool.or_true]
    rw [hmisleads, if_pos rfl] at hchain
    obtain ⟨c', hc', hmisled⟩ := hchain
    refine ⟨c', ?_, hmisled⟩
    rw [Pass.behindCache, link, if_pos hany]
    exact resolverHandleQuery_of_misled hc' hmisled
  | false =>
    rw [hmisleads, if_neg (by simp)] at hchain
    intro c' hc'
    unfold Pass.behindCache link at hc'
    split_ifs at hc'
    · exact producer_resolverHandleQuery (·.isResolver = true)
        (fun _ _ => sound_afterResolvers pass conf) hchain hc'
    · exact sound_afterResolvers pass conf hnone hc'

theorem sound_behindCache_iff (hc : Unanswered c) (hled : (pass.worlds 0).Led conf.mods) :
    (∀ c', pass.behindCache conf c = .ok c' → Sound c') ↔ pass.answers conf c = true := by
  have hfate : if pass.answers conf c = true then ∀ c', pass.behindCache conf c = .ok c' → Sound c'
      else ∃ c', pass.behindCache conf c = .ok c' ∧ Misled c' := by
    cases hr : c.response with
    | none => exact behindCache_unmarked pass conf hr hled
    | some r =>
      have hmarked := behindCache_marked pass conf hr (hc r hr)
      split_ifs at hmarked ⊢
      · exact hmarked
      · obtain ⟨l, hl, hkept⟩ := hmarked
        exact ⟨c.fill l, hl, hkept.misled⟩
  split_ifs at hfate with hanswers
  · exact ⟨fun _ => hanswers, fun _ => hfate⟩
  · obtain ⟨c', hc', hmisled⟩ := hfate
    exact ⟨fun hsound => absurd (hsound c' hc') hmisled.not_sound,
      fun hanswers' => absurd hanswers' hanswers⟩

end

end passes

/-- A manager that knows one key and takes every signature that is made with it for good. -/
def keyedMgr : SelectorMgr where
  viewAcls := []
  aclFind _ _ := false
  keys name := if name = "key." then some ⟨"v1", "key.", "secret", "hmac-md5."⟩ else none
  verifyTsig _ secret := secret = "secret"
  newTSIG key := some ⟨key.name, key.algorithm, none, 0⟩
  viewIds _ := 1

def signedQuery (keyName : String) : Client :=
  .new [192, 0, 2, 1] ⟨(addressQuery ["www", "example"]).request.message,
    some ⟨keyName, "hmac-md5.", some [1], 0⟩⟩

def forwarderConf : BackConf := ⟨⟨false, false, false, true, false⟩, true, false⟩

def forwarderPass (reply : Option Packet) : Pass (NameTable LocalPolicy) where
  found := none
  worlds _ := ⟨fun _ => none, fun _ _ => none, .leads, [], .noMasters, reply, false, .failed⟩
  failForward := none

end Vanguard.Query
