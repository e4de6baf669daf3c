import Vanguard.Query.Placeholder

namespace Vanguard.Query

open LocalData (LocalPolicy findAnswer responseWithLocalData realQueryName)

theorem sound_of_none {c : Client} (hnone : c.response = none) : Sound c := by
  intro r hr
  rw [hnone] at hr
  cases hr

theorem Leaves.sound {c c' : Client} (hleaves : Leaves c c') (hc : Sound c) : Sound c' :=
  hleaves.isResolver hc

theorem Resolved.sound {c : Client} (hc : Resolved c) : Sound c := by
  obtain ⟨r, hr, hproducer⟩ := hc
  exact sound_of_eq hr hproducer

theorem Leaves.resolved {c c' : Client} (hleaves : Leaves c c') (hc : Resolved c) :
    Resolved c' := by
  obtain ⟨r, hr, -⟩ := id hc
  obtain ⟨r', hr'⟩ := Option.ne_none_iff_exists'.mp (hleaves.kept (by simp [hr]))
  exact ⟨r', hr', hleaves.sound hc.sound r' hr'⟩

section limit

variable {P : Type} {mods : Modules} {w : World P} {resolver : Resolve} {c c' : Client}

/-- A leader without an answer of its own leaves a sound response or none. -/
theorem outsideResolve_leader (hc : Unanswered c ∨ Sound c)
    (hc' : outsideResolve mods w c = .ok c') : Sound c' ∨ Misled c' := by
  rcases hc with hunanswered | hsound
  · cases hr : c.response with
    | none => exact .inl ((honest_outsideResolve mods w c c' hc').sound (sound_of_none hr))
    | some r =>
      obtain ⟨c'', hc'', hfate⟩ := outsideResolve_marked hr (hunanswered r hr) mods w
      cases hc''.symm.trans hc'
      split_ifs at hfate
      · exact .inl hfate
      · exact .inr hfate.misled
  · exact .inl ((honest_outsideResolve mods w c c' hc').sound hsound)

/-- What the other callers of `Do` share is what a leader has got. -/
def World.Led (mods : Modules) (w : World P) : Prop :=
  ∀ l, .follows l ∈ w.flight :: w.later → ∃ (w' : World P) (leader leader' : Client),
    (Unanswered leader ∨ Sound leader) ∧ outsideResolve mods w' leader = .ok leader' ∧
      leader'.left = l

theorem World.Led.bare (hled : w.Led mods) {l : Left} {r : Response}
    (hl : .follows l ∈ w.flight :: w.later) (hr : l.response = some r)
    (hproducer : r.producer.isResolver = false) : Bare r.message := by
  obtain ⟨w', leader, leader', hleader, hleads, rfl⟩ := hled l hl
  rcases outsideResolve_leader hleader hleads with hsound | ⟨r', hr', -, hbare⟩
  · rw [hsound r hr] at hproducer
    cases hproducer
  · cases hr'.symm.trans hr
    exact hbare

theorem sound_queryLimitResolve (hresolver : Honest resolver) {flights : List Flight}
    (hnone : c.response = none) (hshares : sharesPlaceholder c.question.name flights = false)
    (hc' : queryLimitResolve resolver flights c = .ok c') : Sound c' := by
  rw [queryLimitResolve_unmarked resolver flights hnone] at hc'
  unfold sharesPlaceholder at hshares
  split at hc'
  · exact (hresolver c c' hc').sound (sound_of_none hnone)
  · next r cacheAnswer hverdict =>
    cases hc'
    have hproducer : r.producer.isResolver = true := by simpa [hverdict] using hshares
    exact sound_of_eq rfl hproducer
  · cases hc'
    exact sound_of_none hnone
  · cases hc'

theorem misled_queryLimitResolve (hled : w.Led mods) (hnone : c.response = none)
    (hshares : sharesPlaceholder c.question.name (w.flight :: w.later) = true) :
    ∃ c', queryLimitResolve resolver (w.flight :: w.later) c = .ok c' ∧ Misled c' := by
  rw [queryLimitResolve_unmarked resolver _ hnone]
  unfold sharesPlaceholder at hshares
  split at hshares
  · next r cacheAnswer hverdict =>
    have hproducer : r.producer.isResolver = false := by simpa using hshares
    obtain ⟨l, hl, hr⟩ := exists_of_verdict hverdict
    have hbare : Bare r.message := hled.bare hl hr hproducer
    rw [hverdict]
    refine ⟨_, rfl, _, rfl, hproducer, ?_⟩
    exact hbare.mapHeader (f := fun h => { h with id := c.request.message.header.id })
      fun _ => ⟨rfl, rfl, rfl⟩
  · cases hshares

theorem resolved_limitResolve (hc : Resolved c) (hc' : limitResolve mods w c = .ok c') :
    Resolved c' := by
  have hpreset : c.response ≠ none := by
    obtain ⟨r, hr, -⟩ := hc
    simp [hr]
  unfold limitResolve link at hc'
  split_ifs at hc'
  · dsimp only at hc'
    by_cases hleads : w.flight = .leads
    · rw [hleads, queryLimitResolve_leads] at hc'
      exact (honest_outsideResolve mods w c c' hc').resolved hc
    · rw [queryLimitResolve_preset hleads w.later hpreset] at hc'
      cases hc'
      exact hc
  · cases hc'
    exact hc

end limit

section chain

variable {P : Type} [NameTree P LocalPolicy] {mods : Modules} {w : World P} {c c' : Client}

theorem realQueryName_unanswered (hc : Unanswered c) :
    realQueryName c.question (c.response.map fun r => r.message) = .ok c.question.name := by
  cases hr : c.response with
  | none => rfl
  | some r => simp [realQueryName, (hc r hr).bare.answer]

variable {policies : String → Option P}

theorem resolved_fakeAuthResolve (hc : Unanswered c) {next : Resolve}
    (hanswers : localAnswers policies c = true) (hc' : fakeAuthResolve policies next c = .ok c') :
    Resolved c' := by
  have hname := realQueryName_unanswered hc
  cases hps : policies c.view with
  | none => simp [localAnswers, hps] at hanswers
  | some ps =>
    obtain ⟨answer, hanswer⟩ :
        ∃ answer, findAnswer ps c.question.name c.question.typ = some answer := by
      simpa [localAnswers, hps, Option.isSome_iff_exists] using hanswers
    simp only [fakeAuthResolve, responseWithLocalData, hps, hname, hanswer] at hc'
    cases hc'
    refine ⟨_, rfl, ?_⟩
    cases answer <;> rfl

theorem fakeAuthResolve_passes (hc : Unanswered c) {next : Resolve}
    (hanswers : localAnswers policies c = false) : fakeAuthResolve policies next c = next c := by
  have hname := realQueryName_unanswered hc
  cases hps : policies c.view with
  | none => simp [fakeAuthResolve, responseWithLocalData, hps]
  | some ps =>
    have hanswer : findAnswer ps c.question.name c.question.typ = none := by
      simpa [localAnswers, hps] using hanswers
    simp only [fakeAuthResolve, responseWithLocalData, hps, hname, hanswer]

omit [NameTree P LocalPolicy] in
theorem resolved_authResolve {zoneAnswer : String → Packet → Option (Message Section)}
    (hanswers : (zoneAnswer c.view c.request).isSome = true)
    (hc' : authResolve zoneAnswer (limitResolve mods w) c = .ok c') : Resolved c' := by
  obtain ⟨msg, hmsg⟩ := Option.isSome_iff_exists.mp hanswers
  simp only [authResolve, hmsg] at hc'
  split at hc'
  · cases hc'
  · exact resolved_limitResolve ⟨_, rfl, rfl⟩ hc'
  · cases hc'
    exact ⟨_, rfl, rfl⟩

theorem chainResolve_passes_local (hc : Unanswered c)
    (hlocal : (mods.localData && localAnswers w.policies c) = false) :
    chainResolve mods w c =
      link mods.auth (authResolve w.zoneAnswer) (limitResolve mods w) c := by
  unfold chainResolve
  cases hmod : mods.localData with
  | false => rfl
  | true =>
    rw [hmod, Bool.true_and] at hlocal
    exact fakeAuthResolve_passes hc hlocal

theorem resolved_chainResolve (hc : Unanswered c) (hanswers : w.answersFirst mods c = true)
    (hc' : chainResolve mods w c = .ok c') : Resolved c' := by
  cases hlocal : mods.localData && localAnswers w.policies c with
  | true =>
    obtain ⟨hmod, hanswer⟩ := Bool.and_eq_true_iff.mp hlocal
    unfold chainResolve at hc'
    rw [hmod] at hc'
    exact resolved_fakeAuthResolve hc hanswer hc'
  | false =>
    rw [chainResolve_passes_local hc hlocal] at hc'
    rw [World.answersFirst, hlocal, Bool.false_or] at hanswers
    obtain ⟨hmod, hanswer⟩ := Bool.and_eq_true_iff.mp hanswers
    rw [hmod] at hc'
    exact resolved_authResolve hanswer hc'

theorem chainResolve_passes (hc : Unanswered c) (hanswers : w.answersFirst mods c = false) :
    chainResolve mods w c = limitResolve mods w c := by
  obtain ⟨hlocal, hauth⟩ := Bool.or_eq_false_iff.mp hanswers
  rw [chainResolve_passes_local hc hlocal]
  cases hmod : mods.auth with
  | false => rfl
  | true =>
    rw [hmod, Bool.true_and, Option.isSome_eq_false_iff, Option.isNone_iff_eq_none] at hauth
    simp [link, authResolve, hauth]

theorem chainResolve_marked (mods : Modules) (w : World P) {r : Response}
    (hr : c.response = some r) (hplaceholder : Placeholder r) :
    if w.replies mods c = true then ∀ c', chainResolve mods w c = .ok c' → Sound c'
    else ∃ c', chainResolve mods w c = .ok c' ∧ Kept r c' := by
  have hc : Unanswered c := fun r' hr' => Option.some.inj (hr.symm.trans hr') ▸ hplaceholder
  have hlimit : Fate (mods.limit && (decide (w.flight = .leads) && w.outsideReplies mods)) r
      (limitResolve mods w c) := by
    unfold limitResolve
    cases mods.limit with
    | false => exact .kept (kept_self hr hplaceholder)
    | true => exact queryLimitResolve_marked hr hplaceholder mods w
  cases hanswers : w.answersFirst mods c with
  | true =>
    rw [World.replies, hanswers, Bool.true_or, if_pos rfl]
    exact fun c' hc' => (resolved_chainResolve hc hanswers hc').sound
  | false =>
    rw [World.replies, hanswers, Bool.false_or, chainResolve_passes hc hanswers]
    obtain ⟨c', hc', hfate⟩ := hlimit
    split_ifs at hfate ⊢
    · intro c'' hc''
      cases hc'.symm.trans hc''
      exact hfate
    · exact ⟨c', hc', hfate⟩

theorem chainResolve_unmarked (hnone : c.response = none) (hled : w.Led mods) :
    if w.misleads mods c = true then ∃ c', chainResolve mods w c = .ok c' ∧ Misled c'
    else ∀ c', chainResolve mods w c = .ok c' → Sound c' := by
  have hc : Unanswered c := fun r hr => absurd (hnone.symm.trans hr) (by simp)
  cases hanswers : w.answersFirst mods c with
  | true =>
    rw [World.misleads, hanswers, Bool.not_true, Bool.false_and, if_neg (by simp)]
    exact fun c' hc' => (resolved_chainResolve hc hanswers hc').sound
  | false =>
    rw [World.misleads, hanswers, Bool.not_false, Bool.true_and, chainResolve_passes hc hanswers]
    unfold limitResolve
    cases mods.limit with
    | false =>
      rw [Bool.false_and, if_neg (by simp)]
      intro c' hc'
      cases hc'
      exact sound_of_none hnone
    | true =>
      rw [Bool.true_and]
      split_ifs with hshares
      · exact misled_queryLimitResolve hled hnone hshares
      · exact fun c' hc' => sound_queryLimitResolve (honest_outsideResolve mods w) hnone
          (Bool.eq_false_iff.mpr hshares) hc'

end chain

end Vanguard.Query
