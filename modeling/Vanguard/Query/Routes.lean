import Vanguard.Query.Circles

namespace Vanguard.Query

open List

def shown (r : Response) : UInt16 × Section := (r.message.header.anCount, r.message.answer)

def Fixed {σ : Type} (resolver : σ → Client → σ × Except Stop Left)
    (table : Name → Option Response) : Prop :=
  ∀ s client s' left, resolver s client = (s', .ok left) →
    left.response.map shown = (table client.question.name).map shown

def route (next : Name → Option Name) : ℕ → List Name → Name → List Name
  | 0, _, _ => []
  | n + 1, seen, name => name ::
    match next name with
    | some target =>
      if (seen ++ [name]).contains target then [] else route next n (seen ++ [name]) target
    | none => []

section

variable (checkCnameIndirect : Bool) (table : Name → Option Response) (name : Name)

def nextOf : Option Name :=
  match needRedirect checkCnameIndirect (table name) with
  | .ok next => next
  | .error _ => none

def routeFrom : List Name :=
  route (nextOf checkCnameIndirect table) (maxRedirectCount + 1) [] name

def kept : Section :=
  keptOf checkCnameIndirect (table name)

end

section

variable {σ : Type} {resolver : σ → Client → σ × Except Stop Left} {checkCnameIndirect : Bool}
  {table : Name → Option Response}

variable {a b : Option Response}

theorem of_shown_eq (h : a.map shown = b.map shown) :
    (a = none ∧ b = none) ∨ ∃ r r', a = some r ∧ b = some r' ∧
      r.message.header.anCount = r'.message.header.anCount ∧
      r.message.answer = r'.message.answer := by
  cases a with
  | none => exact .inl ⟨rfl, Option.map_eq_none_iff.mp h.symm⟩
  | some r =>
    obtain ⟨r', hr', hshown⟩ := Option.map_eq_some_iff.mp h.symm
    obtain ⟨hcount, hanswer⟩ := Prod.mk.inj hshown
    exact .inr ⟨r, r', rfl, hr', hcount.symm, hanswer.symm⟩

theorem needRedirect_congr (checkCnameIndirect : Bool) (h : a.map shown = b.map shown) :
    needRedirect checkCnameIndirect a = needRedirect checkCnameIndirect b := by
  rcases of_shown_eq h with ⟨rfl, rfl⟩ | ⟨r, r', rfl, rfl, hcount, hanswer⟩
  · rfl
  · simp only [needRedirect, hcount, hanswer]

theorem keptOf_congr (checkCnameIndirect : Bool) (h : a.map shown = b.map shown) :
    keptOf checkCnameIndirect a = keptOf checkCnameIndirect b := by
  have hneed := needRedirect_congr checkCnameIndirect h
  rcases of_shown_eq h with ⟨rfl, rfl⟩ | ⟨r, r', rfl, rfl, -, hanswer⟩
  · rfl
  · simp only [keptOf, hneed]
    split
    · cases checkCnameIndirect with
      | false => exact hanswer
      | true => exact congrArg (List.take 1) hanswer
    · exact hanswer

variable {name target : Name}

theorem nextOf_eq_some_iff : nextOf checkCnameIndirect table name = some target ↔
      needRedirect checkCnameIndirect (table name) = .ok (some target) := by
  unfold nextOf
  split
  · next next hneed => simp [hneed]
  · next hneed => simp [hneed]

variable {seen : List Name} {next : Name → Option Name}

theorem route_of_stop (n : ℕ) (hstop : ∀ target, next name = some target → target ∈ seen ++ [name])
    :
    route next (n + 1) seen name = [name] := by
  unfold route
  split
  · next target htarget => rw [if_pos (contains_iff_mem.mpr (hstop target htarget))]
  · rfl

theorem route_of_new (n : ℕ) (htarget : next name = some target) (hnew : target ∉ seen ++ [name]) :
    route next (n + 1) seen name = name :: route next n (seen ++ [name]) target := by
  simp only [route, htarget, if_neg (mt contains_iff_mem.mp hnew)]

theorem answer_followCNameChain (hfixed : Fixed resolver table) {n : ℕ} {ctx ctx' : Context}
    {t t' : Resolution σ} (hchain : ctx.namechain = seen ++ [name])
    (hfollow : followCNameChain resolver checkCnameIndirect n ctx t = (t', .ok ctx')) :
    ctx'.response.message.answer = ctx.response.message.answer ++
      (route (nextOf checkCnameIndirect table) n seen name).flatMap
        (kept checkCnameIndirect table) := by
  induction n generalizing ctx t seen name with
  | zero =>
    cases hfollow
    simp [route]
  | succ n ih =>
    -- The resolver shows what the table has for the last name of the chain.
    have honce : ∀ {t₁ ctx₁ goOn}, followOnce resolver checkCnameIndirect ctx t =
        (t₁, .ok (ctx₁, goOn)) →
        ctx₁.response.message.answer =
          ctx.response.message.answer ++ kept checkCnameIndirect table name ∧
        (goOn = true → ∃ target, nextOf checkCnameIndirect table name = some target ∧
          target ∉ ctx.namechain ∧ ctx₁.namechain = ctx.namechain ++ [target]) ∧
        (goOn = false → ∀ target, nextOf checkCnameIndirect table name = some target →
          target ∈ ctx.namechain) := by
      intro t₁ ctx₁ goOn heq
      obtain ⟨client, state, left, hname, hleft, hanswer, hgoOn, hstop⟩ := chain_followOnce heq
      have hshown := hfixed _ _ _ _ hleft
      rw [hname, lastName_of_namechain hchain] at hshown
      simp only [nextOf_eq_some_iff, ← needRedirect_congr checkCnameIndirect hshown, kept,
        ← keptOf_congr checkCnameIndirect hshown]
      exact ⟨hanswer, hgoOn, hstop⟩
    unfold followCNameChain at hfollow
    split at hfollow
    · cases hfollow
    · next heq =>
      cases hfollow
      obtain ⟨hanswer, -, hstop⟩ := honce heq
      rw [hanswer, route_of_stop n (hchain ▸ hstop rfl), flatMap_singleton]
    · next t₁ ctx₁ heq =>
      obtain ⟨hanswer, hgoOn, -⟩ := honce heq
      obtain ⟨target, htarget, hnew, hchain₁⟩ := hgoOn rfl
      rw [hchain] at hchain₁ hnew
      rw [ih hchain₁ hfollow, hanswer, route_of_new n htarget hnew, flatMap_cons, append_assoc]

theorem kept_ne_nil (htarget : nextOf checkCnameIndirect table name = some target) :
    kept checkCnameIndirect table name ≠ [] := by
  have hneed := nextOf_eq_some_iff.mp htarget
  obtain ⟨r, hr⟩ := exists_of_needRedirect hneed
  rw [hr] at hneed
  obtain ⟨last, hlast, -⟩ := endsInAlias_of_needRedirect hneed
  intro hnil
  rw [kept, hr, keptOf_of_alias hneed] at hnil
  rw [hnil] at hlast
  cases hlast

section

variable (checkCnameIndirect : Bool) (table : Name → Option Response) (name : Name)

/-- No name is its own alias, and no RRset comes twice along the route. -/
structure Unshared : Prop where
  noSelf : nextOf checkCnameIndirect table name ≠ some name
  nodup : ∀ n ∈ routeFrom checkCnameIndirect table name, (kept checkCnameIndirect table n).Nodup
  disjoint : (routeFrom checkCnameIndirect table name).Pairwise fun n n' =>
    List.Disjoint (kept checkCnameIndirect table n) (kept checkCnameIndirect table n')

/-- The answer in the end, with a name that is its own alias asked twice. -/
def finalAnswer : Section :=
  if nextOf checkCnameIndirect table name = some name then
    kept checkCnameIndirect table name ++ kept checkCnameIndirect table name
  else (routeFrom checkCnameIndirect table name).flatMap (kept checkCnameIndirect table)

end

variable {r : Response}

theorem answer_of_alias (hfixed : Fixed resolver table) (client : Client) {t t' : Resolution σ}
    {ctx' : Context} (htarget : nextOf checkCnameIndirect table client.question.name = some target)
    (hkept : kept checkCnameIndirect table client.question.name =
      (r.cut checkCnameIndirect).message.answer)
    (hfollow : followCNameChain resolver checkCnameIndirect maxRedirectCount
      (firstContext checkCnameIndirect client r target) t = (t', .ok ctx')) :
    ctx'.response.message.answer = finalAnswer checkCnameIndirect table client.question.name := by
  have hfirst := answer_firstContext checkCnameIndirect client r target
  rw [← hkept] at hfirst
  have hchain := namechain_firstContext checkCnameIndirect client r target
  by_cases hself : target = client.question.name
  · subst hself
    rw [if_pos rfl] at hchain
    have hstop : route (nextOf checkCnameIndirect table) maxRedirectCount []
        client.question.name = [client.question.name] :=
      route_of_stop _ fun target htarget' => by
        rw [htarget] at htarget'
        simp [Option.some.inj htarget']
    rw [answer_followCNameChain hfixed (hchain.trans (nil_append _).symm) hfollow, hfirst,
      hstop, flatMap_singleton, finalAnswer, if_pos htarget]
  · rw [if_neg hself] at hchain
    have hroute : routeFrom checkCnameIndirect table client.question.name =
        client.question.name :: route (nextOf checkCnameIndirect table) maxRedirectCount
          ([] ++ [client.question.name]) target :=
      route_of_new _ htarget (by simpa using hself)
    have hne : nextOf checkCnameIndirect table client.question.name ≠
        some client.question.name := by
      rw [htarget]
      exact fun heq => hself (Option.some.inj heq)
    have hchain : _ = [client.question.name] ++ [target] := hchain
    rw [answer_followCNameChain hfixed hchain hfollow, hfirst, finalAnswer, if_neg hne,
      hroute, flatMap_cons, nil_append]

theorem answer_cnameResolve (hfixed : Fixed resolver table) {client client' : Client} {s : σ}
    (hout : (cnameResolve resolver checkCnameIndirect client ⟨s, []⟩).2 = .ok client')
    (hresponse : client'.response = some r) :
    r.message.answer = finalAnswer checkCnameIndirect table client.question.name := by
  cases hcall : resolver s client with
  | mk s' result =>
  cases result with
  | error e =>
    simp only [cnameResolve, Resolution.ask, hcall] at hout
    cases hout
  | ok left =>
    obtain ⟨halias, hfinal, hfault⟩ := cnameResolve_of_left checkCnameIndirect hcall
    have hshown := hfixed _ _ _ _ hcall
    have hneed' := needRedirect_congr checkCnameIndirect hshown
    have hkept : kept checkCnameIndirect table client.question.name =
        keptOf checkCnameIndirect left.response := (keptOf_congr checkCnameIndirect hshown).symm
    cases hneed : needRedirect checkCnameIndirect left.response with
    | error f =>
      rw [hfault f hneed] at hout
      cases hout
    | ok next =>
      cases next with
      | none =>
        rw [hfinal hneed] at hout
        cases hout
        rw [Client.response_fill] at hresponse
        have hnone : ∀ target,
            nextOf checkCnameIndirect table client.question.name ≠ some target := by
          intro target htarget
          rw [nextOf_eq_some_iff, ← hneed', hneed] at htarget
          cases htarget
        have hroute : routeFrom checkCnameIndirect table client.question.name =
            [client.question.name] :=
          route_of_stop _ fun target htarget => absurd htarget (hnone target)
        rw [finalAnswer, if_neg (hnone _), hroute, flatMap_singleton, hkept, hresponse]
        rw [hresponse] at hneed
        simp only [keptOf, hneed]
      | some target =>
        obtain ⟨r₀, hr₀⟩ := exists_of_needRedirect hneed
        rw [halias target r₀ hneed hr₀] at hout
        generalize hfollow : followCNameChain resolver checkCnameIndirect maxRedirectCount
          (firstContext checkCnameIndirect (client.fill left) r₀ target) _ = followed at hout
        obtain ⟨t₂, result⟩ := followed
        cases result with
        | error e => cases hout
        | ok ctx' =>
          cases hout
          cases hresponse
          have htarget : nextOf checkCnameIndirect table client.question.name = some target := by
            rw [nextOf_eq_some_iff, ← hneed', hneed]
          rw [hr₀] at hneed
          rw [hr₀, keptOf_of_alias hneed] at hkept
          exact answer_of_alias hfixed (client.fill left) htarget hkept hfollow

theorem nodup_finalAnswer_iff (checkCnameIndirect : Bool) (table : Name → Option Response)
    (name : Name) :
    (finalAnswer checkCnameIndirect table name).Nodup ↔
      Unshared checkCnameIndirect table name := by
  unfold finalAnswer
  split
  · next hself =>
    refine iff_of_false (fun hnodup => ?_) fun h => h.noSelf hself
    obtain ⟨rrset, hrrset⟩ := exists_mem_of_ne_nil _ (kept_ne_nil hself)
    exact (nodup_append.mp hnodup).2.2 rrset hrrset rrset hrrset rfl
  · next hself =>
    rw [nodup_flatMap]
    exact ⟨fun h => ⟨hself, h.1, h.2⟩, fun h => ⟨h.nodup, h.disjoint⟩⟩

theorem route_nodup (next : Name → Option Name) (n : ℕ) (hnodup : (seen ++ [name]).Nodup) :
    (seen ++ route next n seen name).Nodup := by
  induction n generalizing seen name with
  | zero =>
    rw [route, append_nil]
    exact (nodup_append.mp hnodup).1
  | succ n ih =>
    by_cases hstop : ∀ target, next name = some target → target ∈ seen ++ [name]
    · rwa [route_of_stop n hstop]
    · obtain ⟨target, htarget, hnew⟩ :
          ∃ target, next name = some target ∧ target ∉ seen ++ [name] := by
        simpa only [not_forall, exists_prop] using hstop
      rw [route_of_new n htarget hnew, append_cons]
      refine ih (nodup_append.mpr ⟨hnodup, nodup_singleton target, ?_⟩)
      rintro a ha b hb rfl
      exact hnew (mem_singleton.mp hb ▸ ha)

theorem kept_sublist (hr : table name = some r) :
    (kept checkCnameIndirect table name).Sublist r.message.answer := by
  rw [kept, hr, keptOf]
  split
  · cases checkCnameIndirect with
    | false => exact List.Sublist.refl _
    | true => exact take_sublist 1 _
  · exact List.Sublist.refl _

def OwnRecords (table : Name → Option Response) : Prop :=
  ∀ name r, table name = some r → r.message.answer.Nodup ∧ ∀ rrset ∈ r.message.answer,
    rrset.name = name

theorem OwnRecords.unshared_iff (h : OwnRecords table) (checkCnameIndirect : Bool) (name : Name) :
    Unshared checkCnameIndirect table name ↔ nextOf checkCnameIndirect table name ≠ some name := by
  refine ⟨fun hunshared => hunshared.noSelf, fun hself => ⟨hself, fun n _ => ?_, ?_⟩⟩
  · cases hr : table n with
    | none => simp [kept, hr, keptOf]
    | some r => exact (h n r hr).1.sublist (kept_sublist hr)
  · have howner : ∀ n, ∀ rrset ∈ kept checkCnameIndirect table n, rrset.name = n := by
      intro n rrset hrrset
      cases hr : table n with
      | none => simp [kept, hr, keptOf] at hrrset
      | some r => exact (h n r hr).2 rrset ((kept_sublist hr).subset hrrset)
    have hnodup : ([] ++ routeFrom checkCnameIndirect table name).Nodup :=
      route_nodup _ _ (nodup_singleton name)
    rw [nil_append] at hnodup
    refine List.Pairwise.imp (fun hne rrset hrrset hrrset' => hne ?_) hnodup
    rw [← howner _ rrset hrrset, ← howner _ rrset hrrset']

end

/-- No name is asked twice exactly if the first is not its own alias, and no RRset comes twice if
none is shared. -/
theorem no_name_asked_twice_iff {σ : Type} (resolver : σ → Client → σ × Except Stop Left)
    (checkCnameIndirect : Bool) (client : Client) (s : σ) :
    let out := cnameResolve resolver checkCnameIndirect client ⟨s, []⟩
    (out.1.asked.Nodup ↔ ∀ s' left, resolver s client = (s', .ok left) →
      needRedirect checkCnameIndirect left.response ≠ .ok (some client.question.name)) ∧
    ∀ table client' r, Fixed resolver table → out.2 = .ok client' → client'.response = some r →
      (r.message.answer.Nodup ↔ Unshared checkCnameIndirect table client.question.name) ∧
      (OwnRecords table → (r.message.answer.Nodup ↔
        nextOf checkCnameIndirect table client.question.name ≠ some client.question.name)) := by
  refine ⟨asked_nodup_cnameResolve_iff client s, fun table client' r hfixed hout hr => ?_⟩
  have hiff : r.message.answer.Nodup ↔ Unshared checkCnameIndirect table client.question.name := by
    rw [answer_cnameResolve hfixed hout hr, nodup_finalAnswer_iff]
  exact ⟨hiff, fun hown => hiff.trans (hown.unshared_iff checkCnameIndirect _)⟩

def tableResolver (answers : Name → Section) (s : ℕ) (client : Client) : ℕ × Except Stop Left :=
  let response := client.request.makeResponse
  let answer := answers client.question.name
  let header := { response.message.header with anCount := answer.length.toUInt16 }
  (s + 1, .ok ⟨some ⟨⟨{ response.message with header, answer }, none⟩, .resolver .auth⟩, true⟩)

def aliasOf (name target : Name) : RRset Rdata := ⟨name, .cname, .internet, 300, [.cname target]⟩

def webAnswers (name : Name) : Section :=
  if name = ["www"] then [aliasOf ["www"] ["web"]]
  else [⟨name, .a, .internet, 300, [.a [1, 1, 1, 1]]⟩]

/-- An alias of another name is followed: the answer has the alias and the address. -/
theorem example_alias_of_another :
    let out := cnameResolve (tableResolver webAnswers) true (addressQuery ["www"]) ⟨0, []⟩
    out.1.asked.Nodup ∧ ∃ client' r, out.2 = .ok client' ∧ client'.response = some r ∧
      r.message.answer.length = 2 ∧ r.message.answer.Nodup := by
  intro out
  obtain ⟨hasked, hanswer⟩ := no_name_asked_twice_iff (tableResolver webAnswers) true
    (addressQuery ["www"]) 0
  refine ⟨hasked.mpr fun s' left hleft => ?_, _, _, rfl, rfl, rfl, ?_⟩
  · cases hleft
    decide
  · let table : Name → Option Response := fun name =>
      (tableResolver webAnswers 0 (addressQuery name)).2.toOption.bind Left.response
    have hfixed : Fixed (tableResolver webAnswers) table := by
      intro s client s' left hleft
      cases hleft
      rfl
    have hown : OwnRecords table := by
      intro name r hr
      cases hr
      change (webAnswers name).Nodup ∧ ∀ rrset ∈ webAnswers name, rrset.name = name
      unfold webAnswers
      split
      · next hname => simp [aliasOf, hname]
      · simp
    exact ((hanswer table _ _ hfixed rfl rfl).2 hown).mpr (by decide)

def selfAnswers (name : Name) : Section := [aliasOf name name]

def pairAnswers (name : Name) : Section :=
  if name = ["a"] then [aliasOf ["a"] ["b"], aliasOf ["b"] ["c"]]
  else [aliasOf ["c"] ["b"], aliasOf ["b"] ["c"]]

/-- An alias of itself is asked twice; in a circle of two, an alias is repeated. -/
theorem example_self_alias_asked_twice :
    (let out := cnameResolve (tableResolver selfAnswers) true (addressQuery ["www"]) ⟨0, []⟩
    out.1.asked = [["www"], ["www"]] ∧ ∃ client' r, out.2 = .ok client' ∧
      client'.response = some r ∧
      r.message.answer = [aliasOf ["www"] ["www"], aliasOf ["www"] ["www"]]) ∧
    let out := cnameResolve (tableResolver pairAnswers) false (addressQuery ["a"]) ⟨0, []⟩
    out.1.asked = [["a"], ["c"]] ∧ ∃ client' r, out.2 = .ok client' ∧
      client'.response = some r ∧ ¬r.message.answer.Nodup := by
  exact ⟨⟨rfl, _, _, rfl, rfl, rfl⟩, rfl, _, _, rfl, rfl, by decide⟩

end Vanguard.Query
