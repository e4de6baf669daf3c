import Mathlib.Data.List.Nodup
import Vanguard.Query.Redirects

namespace Vanguard.Query

open List

def Resolution.asked {σ : Type} (t : Resolution σ) : List Name :=
  t.calls.map fun call => call.question.name

section asked

variable {σ : Type} {resolver : σ → Client → σ × Except Stop Left} {checkCnameIndirect : Bool}

theorem asked_ask (resolver : σ → Client → σ × Except Stop Left) (t : Resolution σ)
    (client : Client) : (t.ask resolver client).1.asked = t.asked ++ [client.question.name] := by
  unfold Resolution.ask
  split <;> simp [Resolution.asked]

theorem asked_followOnce (resolver : σ → Client → σ × Except Stop Left) (checkCnameIndirect : Bool)
    (ctx : Context) (t : Resolution σ) :
    (followOnce resolver checkCnameIndirect ctx t).1.asked = t.asked ++ [ctx.lastName] := by
  have hask := asked_ask resolver t { ctx.client.asking ctx.redirectQuestion with response := none }
  unfold followOnce
  split
  · next heq => rwa [heq] at hask
  · next heq =>
    rw [heq] at hask
    split
    · exact hask
    · exact hask
    · dsimp only
      split <;> exact hask

theorem asked_prefix_followCNameChain (n : ℕ) (ctx : Context) (t : Resolution σ) :
    t.asked <+: (followCNameChain resolver checkCnameIndirect n ctx t).1.asked := by
  induction n generalizing ctx t with
  | zero => exact prefix_rfl
  | succ n ih =>
    have honce : t.asked <+: (followOnce resolver checkCnameIndirect ctx t).1.asked :=
      ⟨_, (asked_followOnce resolver checkCnameIndirect ctx t).symm⟩
    unfold followCNameChain
    split
    · next heq => rwa [heq] at honce
    · next heq => rwa [heq] at honce
    · next t₁ ctx₁ heq =>
      rw [heq] at honce
      exact honce.trans (ih ctx₁ t₁)

theorem asked_followCNameChain_succ (resolver : σ → Client → σ × Except Stop Left)
    (checkCnameIndirect : Bool) (n : ℕ) (ctx : Context) (t : Resolution σ) :
    t.asked ++ [ctx.lastName] <+:
      (followCNameChain resolver checkCnameIndirect (n + 1) ctx t).1.asked := by
  rw [← asked_followOnce resolver checkCnameIndirect ctx t]
  unfold followCNameChain
  split
  · next heq => rw [heq]
  · next heq => rw [heq]
  · next t₁ ctx₁ heq =>
    rw [heq]
    exact asked_prefix_followCNameChain n ctx₁ t₁

def keptOf (checkCnameIndirect : Bool) : Option Response → Section
  | none => []
  | some r =>
    match needRedirect checkCnameIndirect (some r) with
    | .ok (some _) => (r.cut checkCnameIndirect).message.answer
    | _ => r.message.answer

theorem keptOf_of_alias {r : Response} {target : Name}
    (hneed : needRedirect checkCnameIndirect (some r) = .ok (some target)) :
    keptOf checkCnameIndirect (some r) = (r.cut checkCnameIndirect).message.answer := by
  simp only [keptOf, hneed]

variable {ctx : Context}

theorem mem_of_addRedirect_eq_none {nextName : Name} (hadd : ctx.addRedirect nextName = none) :
    nextName ∈ ctx.namechain := by
  unfold Context.addRedirect at hadd
  split_ifs at hadd with hany
  simpa using hany

theorem addRedirect_eq_some {ctx ctx' : Context} {nextName : Name}
    (hadd : ctx.addRedirect nextName = some ctx') :
    nextName ∉ ctx.namechain ∧ ctx' = { ctx with namechain := ctx.namechain ++ [nextName] } := by
  unfold Context.addRedirect at hadd
  split_ifs at hadd with hany
  cases hadd
  exact ⟨by simpa using hany, rfl⟩

theorem chain_followOnce {ctx ctx' : Context} {t t' : Resolution σ} {goOn : Bool}
    (honce : followOnce resolver checkCnameIndirect ctx t = (t', .ok (ctx', goOn))) :
    ∃ client state left, client.question.name = ctx.lastName ∧
      resolver t.state client = (state, .ok left) ∧
      ctx'.response.message.answer =
        ctx.response.message.answer ++ keptOf checkCnameIndirect left.response ∧
      (goOn = true → ∃ target, needRedirect checkCnameIndirect left.response = .ok (some target) ∧
        target ∉ ctx.namechain ∧ ctx'.namechain = ctx.namechain ++ [target]) ∧
      (goOn = false → ∀ target, needRedirect checkCnameIndirect left.response = .ok (some target) →
        target ∈ ctx.namechain) := by
  unfold followOnce at honce
  split at honce
  · cases honce
  · next t₁ client hask =>
    obtain ⟨-, -, state, left, hleft, hresponse⟩ := ask_eq_ok hask
    refine ⟨_, state, left, rfl, hleft, ?_⟩
    rw [← hresponse]
    split at honce
    · cases honce
    · next hneed =>
      cases honce
      refine ⟨?_, fun hgoOn => absurd hgoOn (by decide), fun _ target htarget => ?_⟩
      · cases hr : client.response with
        | none => simp [Context.mergeResponse, keptOf]
        | some r =>
          rw [hr] at hneed
          simp [Context.mergeResponse, keptOf, hneed]
      · rw [hneed] at htarget
        cases htarget
    · next nextName hneed =>
      obtain ⟨r, hr⟩ := exists_of_needRedirect hneed
      rw [hr] at hneed honce ⊢
      dsimp only at honce
      split at honce
      · next hadd =>
        cases honce
        refine ⟨by rw [keptOf_of_alias hneed]; rfl, fun hgoOn => absurd hgoOn (by decide),
          fun _ target htarget => ?_⟩
        obtain rfl : nextName = target := by
          rw [hneed] at htarget
          cases htarget
          rfl
        have hmem := mem_of_addRedirect_eq_none hadd
        exact hmem
      · next ctx₁ hadd =>
        cases honce
        obtain ⟨hnew, rfl⟩ := addRedirect_eq_some hadd
        exact ⟨by rw [keptOf_of_alias hneed]; rfl, fun _ => ⟨nextName, hneed, hnew, rfl⟩,
          fun hgoOn => absurd hgoOn (by decide)⟩

theorem lastName_of_namechain {names : List Name} {name : Name}
    (hchain : ctx.namechain = names ++ [name]) : ctx.lastName = name := by
  simp [Context.lastName, hchain]

theorem asked_nodup_followCNameChain (n : ℕ) {t : Resolution σ} {name : Name}
    (hchain : ctx.namechain = t.asked ++ [name]) (hnodup : ctx.namechain.Nodup) :
    (followCNameChain resolver checkCnameIndirect n ctx t).1.asked.Nodup := by
  induction n generalizing ctx t name with
  | zero =>
    rw [hchain] at hnodup
    exact (nodup_append.mp hnodup).1
  | succ n ih =>
    have honce := asked_followOnce resolver checkCnameIndirect ctx t
    rw [lastName_of_namechain hchain, ← hchain] at honce
    unfold followCNameChain
    split
    · next heq =>
      rw [heq] at honce
      exact honce ▸ hnodup
    · next heq =>
      rw [heq] at honce
      exact honce ▸ hnodup
    · next t₁ ctx₁ heq =>
      rw [heq] at honce
      obtain ⟨_, _, _, -, -, -, hgoOn, -⟩ := chain_followOnce heq
      obtain ⟨target, -, hnew, hchain₁⟩ := hgoOn rfl
      refine ih (honce ▸ hchain₁) ?_
      rw [hchain₁, nodup_append]
      refine ⟨hnodup, nodup_singleton target, ?_⟩
      rintro a ha b hb rfl
      rw [mem_singleton] at hb
      exact hnew (hb ▸ ha)

section

variable (checkCnameIndirect : Bool) (client : Client) (r : Response) (nextName : Name)

def firstContext : Context :=
  let ctx := newCNameContext client (r.cut checkCnameIndirect)
  (ctx.addRedirect nextName).getD ctx

theorem namechain_firstContext :
    (firstContext checkCnameIndirect client r nextName).namechain =
      if nextName = client.question.name then [client.question.name]
      else [client.question.name, nextName] := by
  by_cases hself : nextName = client.question.name
  · simp [firstContext, Context.addRedirect, newCNameContext, hself]
  · simp [firstContext, Context.addRedirect, newCNameContext, hself, Ne.symm hself]

theorem answer_firstContext :
    (firstContext checkCnameIndirect client r nextName).response.message.answer =
      (r.cut checkCnameIndirect).message.answer := by
  simp only [firstContext, Context.addRedirect]
  split <;> rfl

end

theorem cnameResolve_of_left (checkCnameIndirect : Bool) {client : Client} {s s' : σ} {left : Left}
    (hleft : resolver s client = (s', .ok left)) :
    let t₁ : Resolution σ := ⟨s', [⟨client.question, left.response⟩]⟩
    (∀ target r, needRedirect checkCnameIndirect left.response = .ok (some target) →
      left.response = some r →
      cnameResolve resolver checkCnameIndirect client ⟨s, []⟩ =
        Prod.map id (Except.map Context.assembleFinalResponse)
          (followCNameChain resolver checkCnameIndirect maxRedirectCount
            (firstContext checkCnameIndirect (client.fill left) r target) t₁)) ∧
    (needRedirect checkCnameIndirect left.response = .ok none →
      cnameResolve resolver checkCnameIndirect client ⟨s, []⟩ = (t₁, .ok (client.fill left))) ∧
    (∀ f, needRedirect checkCnameIndirect left.response = .error f →
      cnameResolve resolver checkCnameIndirect client ⟨s, []⟩ = (t₁, .error (.fault f))) := by
  intro t₁
  refine ⟨fun target r hneed hr => ?_, fun hneed => ?_, fun f hneed => ?_⟩
  · rw [hr] at hneed
    simp only [cnameResolve, Resolution.ask, nil_append, hleft, Client.response_fill, hr,
      hneed, firstContext, t₁]
    split
    · next heq => rw [heq]; rfl
    · next heq => rw [heq]; rfl
  · simp only [cnameResolve, Resolution.ask, nil_append, hleft, Client.response_fill, hneed, t₁]
  · simp only [cnameResolve, Resolution.ask, nil_append, hleft, Client.response_fill, hneed, t₁]

theorem asked_nodup_cnameResolve_iff (client : Client) (s : σ) :
    (cnameResolve resolver checkCnameIndirect client ⟨s, []⟩).1.asked.Nodup ↔
      ∀ s' left, resolver s client = (s', .ok left) →
        needRedirect checkCnameIndirect left.response ≠ .ok (some client.question.name) := by
  cases hcall : resolver s client with
  | mk s' result =>
  cases result with
  | error e =>
    refine iff_of_true ?_ (by simp)
    simp only [cnameResolve, Resolution.ask, hcall]
    exact nodup_singleton _
  | ok left =>
    have hsingle : (⟨s', [⟨client.question, left.response⟩]⟩ : Resolution σ).asked.Nodup :=
      nodup_singleton _
    obtain ⟨halias, hfinal, hfault⟩ := cnameResolve_of_left checkCnameIndirect hcall
    have hcond : (∀ s₁ left₁, (s', Except.ok left) = ((s₁, .ok left₁) : σ × Except Stop Left) →
        needRedirect checkCnameIndirect left₁.response ≠ .ok (some client.question.name)) ↔
        needRedirect checkCnameIndirect left.response ≠ .ok (some client.question.name) := by
      constructor
      · exact fun h => h s' left rfl
      · rintro h s₁ left₁ heq
        cases heq
        exact h
    rw [hcond]
    cases hneed : needRedirect checkCnameIndirect left.response with
    | error f =>
      rw [hfault f hneed]
      exact iff_of_true hsingle (by simp)
    | ok next =>
      cases next with
      | none =>
        rw [hfinal hneed]
        exact iff_of_true hsingle (by simp)
      | some target =>
        obtain ⟨r, hr⟩ := exists_of_needRedirect hneed
        rw [halias target r hneed hr]
        have hchain := namechain_firstContext checkCnameIndirect (client.fill left) r target
        rw [Client.question_fill] at hchain
        by_cases hself : target = client.question.name
        · rw [if_pos hself] at hchain
          refine iff_of_false (fun hnodup => ?_) (by simp [hself])
          have htwice := hnodup.sublist
            (asked_followCNameChain_succ resolver checkCnameIndirect 15 _ _).sublist
          have hlast := lastName_of_namechain (hchain.trans (nil_append _).symm)
          rw [hlast] at htwice
          exact absurd htwice (by simp [Resolution.asked])
        · rw [if_neg hself] at hchain
          refine iff_of_true ?_ (by simpa using hself)
          refine asked_nodup_followCNameChain maxRedirectCount hchain ?_
          rw [hchain]
          simpa using Ne.symm hself

end asked

end Vanguard.Query
