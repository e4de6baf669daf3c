import Vanguard.Query.AliasChain

namespace Vanguard.Query

open List

inductive Redirected (checkCnameIndirect : Bool) (ctx : Context) (response : Option Response) :
    Context → Bool → Prop
  | final {client : Client}
    (hclient : client.request = (ctx.client.asking ctx.redirectQuestion).request)
    (hneed : needRedirect checkCnameIndirect response = .ok none) :
    Redirected checkCnameIndirect ctx response (({ ctx with client }).mergeResponse response) false
  | circle {client : Client} {nextName : Name}
    (hclient : client.request = (ctx.client.asking ctx.redirectQuestion).request)
    (hneed : needRedirect checkCnameIndirect response = .ok (some nextName)) :
    Redirected checkCnameIndirect ctx response
      (({ ctx with client }).mergeResponse (response.map (.cut checkCnameIndirect))) false
  | goesOn {client : Client} {nextName : Name} {ctx' : Context}
    (hclient : client.request = (ctx.client.asking ctx.redirectQuestion).request)
    (hneed : needRedirect checkCnameIndirect response = .ok (some nextName))
    (hadd : (({ ctx with client }).mergeResponse
      (response.map (.cut checkCnameIndirect))).addRedirect nextName = some ctx') :
    Redirected checkCnameIndirect ctx response ctx' true

section handler

variable {σ : Type} {resolver : σ → Client → σ × Except Stop Left} {checkCnameIndirect : Bool}

theorem length_calls_ask (resolver : σ → Client → σ × Except Stop Left) (t : Resolution σ)
    (client : Client) :
    (t.ask resolver client).1.calls.length = t.calls.length + 1 := by
  unfold Resolution.ask
  split <;> simp

variable {client client' : Client} {t t' : Resolution σ}

theorem ask_eq_ok (hask : t.ask resolver client = (t', .ok client')) :
    t'.calls = t.calls ++ [⟨client.question, client'.response⟩] ∧
      client'.request = client.request ∧ ∃ state left, resolver t.state client = (state, .ok left) ∧
      client'.response = left.response := by
  unfold Resolution.ask at hask
  split at hask
  · next state left hleft =>
    cases hask
    exact ⟨rfl, rfl, state, left, hleft, rfl⟩
  · cases hask

theorem length_calls_followOnce (resolver : σ → Client → σ × Except Stop Left)
    (checkCnameIndirect : Bool) (ctx : Context) (t : Resolution σ) :
    (followOnce resolver checkCnameIndirect ctx t).1.calls.length = t.calls.length + 1 := by
  rw [← length_calls_ask resolver t
    { ctx.client.asking ctx.redirectQuestion with response := none }]
  unfold followOnce
  split
  · next hask => rw [hask]
  · next hask =>
    rw [hask]
    split
    · rfl
    · rfl
    · dsimp only
      split <;> rfl

variable {ctx ctx' : Context}

theorem followOnce_eq_ok {goOn : Bool}
    (honce : followOnce resolver checkCnameIndirect ctx t = (t', .ok (ctx', goOn))) :
    ∃ response, t'.calls = t.calls ++ [⟨ctx.redirectQuestion, response⟩] ∧
      Redirected checkCnameIndirect ctx response ctx' goOn := by
  unfold followOnce at honce
  split at honce
  · cases honce
  · next t₁ client hask =>
    obtain ⟨hcalls, hrequest, -⟩ := ask_eq_ok hask
    split at honce
    · cases honce
    · next hneed =>
      cases honce
      exact ⟨client.response, hcalls, .final hrequest hneed⟩
    · next nextName hneed =>
      dsimp only at honce
      split at honce
      · cases honce
        exact ⟨client.response, hcalls, .circle hrequest hneed⟩
      · next ctx₁ hadd =>
        cases honce
        exact ⟨client.response, hcalls, .goesOn hrequest hneed hadd⟩

theorem length_calls_followCNameChain (resolver : σ → Client → σ × Except Stop Left)
    (checkCnameIndirect : Bool) (n : ℕ) (ctx : Context) (t : Resolution σ) :
    (followCNameChain resolver checkCnameIndirect n ctx t).1.calls.length ≤ t.calls.length + n := by
  induction n generalizing ctx t with
  | zero => rfl
  | succ n ih =>
    have hlength := length_calls_followOnce resolver checkCnameIndirect ctx t
    unfold followCNameChain
    split
    · next honce =>
      rw [honce] at hlength
      simp only at hlength ⊢
      omega
    · next honce =>
      rw [honce] at hlength
      simp only at hlength ⊢
      omega
    · next t₁ ctx₁ honce =>
      rw [honce] at hlength
      have hrest := ih ctx₁ t₁
      simp only at hlength
      omega

/-- What holds at the start and is kept by each redirect holds at the end. -/
theorem followCNameChain_induction {Open Post : List Call → Context → Prop}
    (hstep : ∀ calls ctx response ctx' goOn, Open calls ctx → Post calls ctx →
      Redirected checkCnameIndirect ctx response ctx' goOn →
      Post (calls ++ [⟨ctx.redirectQuestion, response⟩]) ctx' ∧
        (goOn = true → Open (calls ++ [⟨ctx.redirectQuestion, response⟩]) ctx')) {n : ℕ}
    (hopen : Open t.calls ctx) (hpost : Post t.calls ctx)
    (hfollow : followCNameChain resolver checkCnameIndirect n ctx t = (t', .ok ctx')) :
    Post t'.calls ctx' := by
  induction n generalizing ctx t with
  | zero =>
    cases hfollow
    exact hpost
  | succ n ih =>
    unfold followCNameChain at hfollow
    split at hfollow
    · cases hfollow
    · next honce =>
      cases hfollow
      obtain ⟨response, hcalls, hredirected⟩ := followOnce_eq_ok honce
      rw [hcalls]
      exact (hstep _ _ _ _ _ hopen hpost hredirected).1
    · next t₁ ctx₁ honce =>
      obtain ⟨response, hcalls, hredirected⟩ := followOnce_eq_ok honce
      obtain ⟨hpost', hopen'⟩ := hstep _ _ _ _ _ hopen hpost hredirected
      rw [← hcalls] at hpost' hopen'
      exact ih (hopen' rfl) hpost' hfollow

structure Following (client : Client) (calls : List Call) (ctx : Context) : Prop where
  original : ctx.originalQuestion = client.question
  request : (ctx.client.asking client.question).request = client.request
  rcode : lastRcode calls = some ctx.response.message.header.rcode
  chain : (∀ call ∈ calls, call.Chained) →
    AliasChain client.question.name ctx.response.message.answer

def Pending (ctx : Context) : Prop := EndsInAlias ctx.response.message.answer ctx.lastName

variable {calls : List Call}

theorem Following.merge_none (hctx : Following client calls ctx)
    (hclient' : client'.request = (ctx.client.asking ctx.redirectQuestion).request) :
    Following client (calls ++ [⟨ctx.redirectQuestion, none⟩])
      (({ ctx with client := client' }).mergeResponse none) := by
  refine ⟨hctx.original, ?_, ?_, fun hchained => hctx.chain fun call hcall => ?_⟩
  · rw [← hctx.request]
    exact congrArg (fun request : Packet => { request with
      message := { request.message with question := client.question } }) hclient'
  · rw [lastRcode_concat_none]
    exact hctx.rcode
  · exact hchained call (mem_append_left _ hcall)

theorem Following.merge_some (hctx : Following client calls ctx) (hpending : Pending ctx)
    (hclient' : client'.request = (ctx.client.asking ctx.redirectQuestion).request)
    {r kept : Response} (hheader : kept.message.header = r.message.header)
    (hkept : AliasChain ctx.lastName r.message.answer → AliasChain ctx.lastName kept.message.answer)
    :
    Following client (calls ++ [⟨ctx.redirectQuestion, some r⟩])
      (({ ctx with client := client' }).mergeResponse (some kept)) := by
  refine ⟨hctx.original, ?_, ?_, fun hchained => ?_⟩
  · rw [← hctx.request]
    exact congrArg (fun request : Packet => { request with
      message := { request.message with question := client.question } }) hclient'
  · rw [lastRcode_concat_some]
    exact congrArg (fun header => some header.rcode) hheader.symm
  · have hr : AliasChain ctx.lastName r.message.answer :=
      hchained _ (mem_append_right _ mem_cons_self) r rfl
    refine (hctx.chain fun call hcall => ?_).append hpending (hkept hr)
    exact hchained call (mem_append_left _ hcall)

theorem Following.redirected {response : Option Response} {goOn : Bool} (hpending : Pending ctx)
    (hctx : Following client calls ctx)
    (hredirected : Redirected checkCnameIndirect ctx response ctx' goOn) :
    Following client (calls ++ [⟨ctx.redirectQuestion, response⟩]) ctx' ∧
      (goOn = true → Pending ctx') := by
  cases hredirected with
  | final hclient hneed =>
    refine ⟨?_, fun hgoOn => absurd hgoOn (by decide)⟩
    cases response with
    | none => exact hctx.merge_none hclient
    | some r => exact hctx.merge_some hpending hclient rfl id
  | circle hclient hneed =>
    refine ⟨?_, fun hgoOn => absurd hgoOn (by decide)⟩
    obtain ⟨r, rfl⟩ := exists_of_needRedirect hneed
    exact hctx.merge_some hpending hclient (header_cut r) (AliasChain.cut checkCnameIndirect)
  | goesOn hclient hneed hadd =>
    obtain ⟨r, rfl⟩ := exists_of_needRedirect hneed
    unfold Context.addRedirect at hadd
    split_ifs at hadd
    cases hadd
    have hmerged := hctx.merge_some hpending hclient (header_cut r)
      (AliasChain.cut checkCnameIndirect)
    refine ⟨⟨hmerged.original, hmerged.request, hmerged.rcode, hmerged.chain⟩, fun _ => ?_⟩
    have hends := (endsInAlias_of_needRedirect hneed).append ctx.response.message.answer
    simpa [Pending, Context.lastName, Context.mergeResponse] using hends

theorem following_newCNameContext {r : Response} (hcalls : calls = [⟨client.question, some r⟩])
    {nextName : Name} (hneed : needRedirect checkCnameIndirect (some r) = .ok (some nextName)) :
    let ctx := newCNameContext client (r.cut checkCnameIndirect)
    Following client calls ((ctx.addRedirect nextName).getD ctx) ∧
      Pending ((ctx.addRedirect nextName).getD ctx) := by
  intro ctx
  have hends := endsInAlias_of_needRedirect hneed
  have hctx : Following client calls ctx := by
    subst hcalls
    refine ⟨rfl, rfl, ?_, fun hchained => ?_⟩
    · exact congrArg (fun header => some header.rcode) (header_cut r).symm
    · exact AliasChain.cut checkCnameIndirect (hchained _ mem_cons_self r rfl)
  have hany : (ctx.namechain.any fun name => name = nextName) =
      decide (client.question.name = nextName) := by
    simp [ctx, newCNameContext]
  rw [Context.addRedirect, hany]
  by_cases hself : client.question.name = nextName
  · -- The alias is one for the name itself, which is then asked for again.
    rw [if_pos (decide_eq_true hself)]
    refine ⟨hctx, ?_⟩
    rw [← hself] at hends
    exact hends
  · rw [if_neg (by simpa using hself)]
    exact ⟨⟨hctx.original, hctx.request, hctx.rcode, hctx.chain⟩, hends⟩

section

variable (hresolver : ∀ s c, ∃ s' l, resolver s c = (s', .ok l) ∧ Counted l.response ∧
  Typed l.response)

include hresolver

theorem followOnce_returns (checkCnameIndirect : Bool) (ctx : Context) (t : Resolution σ) :
    ∃ t' ctx' goOn, followOnce resolver checkCnameIndirect ctx t = (t', .ok (ctx', goOn)) := by
  obtain ⟨s', l, hleft, hcounted, htyped⟩ :=
    hresolver t.state { ctx.client.asking ctx.redirectQuestion with response := none }
  obtain ⟨next, hneed⟩ := needRedirect_returns checkCnameIndirect hcounted htyped
  cases next with
  | none =>
    simp only [followOnce, Resolution.ask, hleft, Client.response_fill, hneed]
    exact ⟨_, _, _, rfl⟩
  | some nextName =>
    simp only [followOnce, Resolution.ask, hleft, Client.response_fill, hneed]
    split
    · exact ⟨_, _, _, rfl⟩
    · exact ⟨_, _, _, rfl⟩

theorem followCNameChain_returns (checkCnameIndirect : Bool) (n : ℕ) (ctx : Context)
    (t : Resolution σ) :
    ∃ t' ctx', followCNameChain resolver checkCnameIndirect n ctx t = (t', .ok ctx') := by
  induction n generalizing ctx t with
  | zero => exact ⟨t, ctx, rfl⟩
  | succ n ih =>
    obtain ⟨t', ctx', goOn, honce⟩ := followOnce_returns hresolver checkCnameIndirect ctx t
    cases goOn with
    | false => exact ⟨t', ctx', by simp only [followCNameChain, honce]⟩
    | true =>
      obtain ⟨t'', ctx'', hrest⟩ := ih ctx' t'
      exact ⟨t'', ctx'', by simpa only [followCNameChain, honce] using hrest⟩

end

theorem cnameResolve_eq_ok
    (hresolve : cnameResolve resolver checkCnameIndirect client t = (t', .ok client')) :
    t.ask resolver client = (t', .ok client') ∨
      ∃ t₁ client₁ nextName r ctx', t.ask resolver client = (t₁, .ok client₁) ∧
        client₁.response = some r ∧
        needRedirect checkCnameIndirect (some r) = .ok (some nextName) ∧
        (let ctx := newCNameContext client₁ (r.cut checkCnameIndirect)
        followCNameChain resolver checkCnameIndirect maxRedirectCount
          ((ctx.addRedirect nextName).getD ctx) t₁ = (t', .ok ctx')) ∧
        client' = ctx'.assembleFinalResponse := by
  unfold cnameResolve at hresolve
  split at hresolve
  · cases hresolve
  · next t₁ client₁ hask =>
    split at hresolve
    · cases hresolve
    · next nextName r hneed hr =>
      dsimp only at hresolve
      split at hresolve
      · cases hresolve
      · next t₂ ctx' hfollow =>
        cases hresolve
        rw [hr] at hneed
        exact .inr ⟨t₁, client₁, nextName, r, ctx', hask, hr, hneed, hfollow, rfl⟩
    · cases hresolve
      exact .inl hask

theorem length_calls_cnameResolve (resolver : σ → Client → σ × Except Stop Left)
    (checkCnameIndirect : Bool) (client : Client) (t : Resolution σ) :
    (cnameResolve resolver checkCnameIndirect client t).1.calls.length ≤
      t.calls.length + 1 + maxRedirectCount := by
  have hfirst := length_calls_ask resolver t client
  unfold cnameResolve
  split
  · next hask =>
    rw [hask] at hfirst
    exact hfirst ▸ Nat.le_add_right _ _
  · next t₁ client₁ hask =>
    rw [hask] at hfirst
    split
    · exact hfirst ▸ Nat.le_add_right _ _
    · next nextName r _ _ =>
      have hrest := length_calls_followCNameChain resolver checkCnameIndirect maxRedirectCount
        (((newCNameContext client₁ (r.cut checkCnameIndirect)).addRedirect nextName).getD
          (newCNameContext client₁ (r.cut checkCnameIndirect))) t₁
      rw [hfirst] at hrest
      dsimp only
      split
      · next hfollow => rwa [hfollow] at hrest
      · next hfollow => rwa [hfollow] at hrest
    · exact hfirst ▸ Nat.le_add_right _ _

theorem cnameResolve_returns (hresolver : ∀ s c, ∃ s' l, resolver s c = (s', .ok l) ∧
      Counted l.response ∧ Typed l.response) (checkCnameIndirect : Bool) (client : Client)
    (t : Resolution σ) :
    ∃ t' client', cnameResolve resolver checkCnameIndirect client t = (t', .ok client') := by
  obtain ⟨s', l, hleft, hcounted, htyped⟩ := hresolver t.state client
  obtain ⟨next, hneed⟩ := needRedirect_returns checkCnameIndirect hcounted htyped
  cases next with
  | none =>
    simp only [cnameResolve, Resolution.ask, hleft, Client.response_fill, hneed]
    exact ⟨_, _, rfl⟩
  | some nextName =>
    obtain ⟨r, hr⟩ := exists_of_needRedirect hneed
    obtain ⟨t', ctx', hfollow⟩ := followCNameChain_returns hresolver checkCnameIndirect
      maxRedirectCount (((newCNameContext (client.fill l) (r.cut checkCnameIndirect)).addRedirect
        nextName).getD (newCNameContext (client.fill l) (r.cut checkCnameIndirect)))
      ⟨s', t.calls ++ [⟨client.question, l.response⟩]⟩
    rw [hr] at hneed hfollow
    simp only [cnameResolve, Resolution.ask, hleft, Client.response_fill, hr, hneed, hfollow]
    exact ⟨_, _, rfl⟩

end handler

/-- Seventeen calls at most, the request as before, a response to it with the last rcode, and chains
joined to a chain. -/
theorem cname_following {σ : Type} (resolver : σ → Client → σ × Except Stop Left)
    (checkCnameIndirect : Bool) (client : Client) (s : σ) :
    let out := cnameResolve resolver checkCnameIndirect client ⟨s, []⟩
    out.1.calls.length ≤ 17 ∧
    (∀ client', out.2 = .ok client' →
      client'.request = client.request ∧
      (1 < out.1.calls.length → ∃ r, client'.response = some r ∧
        r.message.question = client.question ∧
        r.message.header.id = client.request.message.header.id) ∧
      client'.response.map (fun r => r.message.header.rcode) = lastRcode out.1.calls ∧
      ((∀ call ∈ out.1.calls, call.Chained) → ∀ r, client'.response = some r →
        AliasChain client.question.name r.message.answer)) ∧
    ((∀ s c, ∃ s' l, resolver s c = (s', .ok l) ∧ Counted l.response ∧ Typed l.response) →
      ∃ client', out.2 = .ok client') := by
  intro out
  refine ⟨length_calls_cnameResolve resolver checkCnameIndirect client ⟨s, []⟩, ?_, ?_⟩
  · intro client' hclient'
    rcases cnameResolve_eq_ok (Prod.ext rfl hclient' : out = (out.1, .ok client')) with
      hask | ⟨t₁, client₁, nextName, r, ctx', hask, hr, hneed, hfollow, rfl⟩
    · obtain ⟨hcalls, hrequest, -⟩ := ask_eq_ok hask
      rw [nil_append] at hcalls
      refine ⟨hrequest, fun hlength => ?_, ?_, fun hchained r hr => ?_⟩
      · rw [hcalls] at hlength
        exact absurd hlength (lt_irrefl 1)
      · rw [hcalls]
        cases client'.response <;> rfl
      · rw [hcalls] at hchained
        exact hchained _ mem_cons_self r hr
    · obtain ⟨hcalls, hrequest, -⟩ := ask_eq_ok hask
      have hquestion : client₁.question = client.question :=
        congrArg (fun request : Packet => request.message.question) hrequest
      rw [hr, ← hquestion, nil_append] at hcalls
      obtain ⟨hstart, hpending⟩ := following_newCNameContext hcalls hneed
      have hend : Following client₁ out.1.calls ctx' :=
        followCNameChain_induction (fun _ _ _ _ _ hopen hpost => hpost.redirected hopen)
          hpending hstart hfollow
      refine ⟨?_, fun _ => ⟨_, rfl, ?_, ?_⟩, ?_, fun hchained r' hr' => ?_⟩
      · rw [← hrequest, ← hend.request, ← hend.original]
        rfl
      · rw [← hquestion, ← hend.original]
      · rw [← hrequest, ← hend.request]
        rfl
      · rw [hend.rcode]
        rfl
      · cases hr'
        rw [← hquestion]
        exact hend.chain hchained
  · intro hresolver
    obtain ⟨t', client', hreturns⟩ :=
      cnameResolve_returns hresolver checkCnameIndirect client ⟨s, []⟩
    exact ⟨client', congrArg Prod.snd hreturns⟩

def addressQuery (name : Name) : Client where
  ip := [127, 0, 0, 1]
  request := ⟨⟨⟨7, false, false, .noError, 0, 0, 0⟩, ⟨name, .a, .internet⟩, [], [], []⟩, none⟩
  response := none
  view := "default"
  viewId := 0
  cacheHit := false
  cacheAnswer := true

def aliasResolver (s : ℕ) (client : Client) : ℕ × Except Stop Left :=
  let rrset : RRset Rdata := if client.question.name = ["www", "example"]
    then ⟨["www", "example"], .cname, .internet, 300, [.cname ["web", "example"]]⟩
    else ⟨client.question.name, .a, .internet, 300, [.a [1, 1, 1, 1]]⟩
  let response := client.request.makeResponse
  let header := { response.message.header with anCount := 1 }
  (s + 1, .ok ⟨some ⟨⟨{ response.message with header, answer := [rrset] }, none⟩,
    .resolver .auth⟩, true⟩)

/-- The alias is followed in two calls, and the answer is a chain. -/
theorem example_alias_followed :
    ∃ client' r, (cnameResolve aliasResolver true (addressQuery ["www", "example"]) ⟨0, []⟩).2 =
        .ok client' ∧ client'.response = some r ∧ r.message.answer.length = 2 ∧
      r.message.question = ⟨["www", "example"], .a, .internet⟩ ∧
      AliasChain ["www", "example"] r.message.answer := by
  have hspec := cname_following aliasResolver true (addressQuery ["www", "example"]) 0
  obtain ⟨client', hclient'⟩ : ∃ client', (cnameResolve aliasResolver true
      (addressQuery ["www", "example"]) ⟨0, []⟩).2 = .ok client' := ⟨_, rfl⟩
  obtain ⟨-, hredirect, -, hchain⟩ := hspec.2.1 client' hclient'
  obtain ⟨r, hr, hquestion, -⟩ := hredirect (by decide)
  refine ⟨client', r, hclient', hr, ?_, hquestion, hchain (fun call hcall => ?_) r hr⟩
  · cases hclient'
    cases hr
    rfl
  · have hcalls : call ∈ [_, _] := hcall
    intro answer hanswer
    rcases mem_pair.mp hcalls with rfl | rfl
    all_goals
      cases hanswer
      exact ⟨fun _ hfirst => Option.mem_some_iff.mp hfirst ▸ rfl, List.IsChain.singleton _⟩

end Vanguard.Query
