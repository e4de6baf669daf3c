import Vanguard.Query.Resolvers
import Vanguard.Query.Redirects

namespace Vanguard.Query

open LocalData (LocalPolicy responseWithLocalData)

/-- Only `Response` and `CacheAnswer` are written, and only resolvers change the producer. -/
structure Leaves (c c' : Client) : Prop where
  fill : c' = c.fill c'.left
  producer : ∀ r', c'.response = some r' → r'.producer.isResolver = true ∨
    ∃ r, c.response = some r ∧ r.producer = r'.producer
  kept : c.response ≠ none → c'.response ≠ none

namespace Leaves

theorem refl (c : Client) : Leaves c c := ⟨rfl, fun r hr => .inr ⟨r, hr, rfl⟩, id⟩

theorem trans {c c' c'' : Client} (h : Leaves c c') (h' : Leaves c' c'') : Leaves c c'' := by
  refine ⟨?_, fun r'' hr'' => ?_, fun hc => h'.kept (h.kept hc)⟩
  · rw [h'.fill, h.fill]
    rfl
  · rcases h'.producer r'' hr'' with hresolver | ⟨r', hr', hsame⟩
    · exact .inl hresolver
    · rw [← hsame]
      exact h.producer r' hr'

theorem answered (c : Client) {r : Response} (hr : r.producer.isResolver = true)
    (cacheAnswer : Bool) : Leaves c { c with response := some r, cacheAnswer := cacheAnswer } :=
  ⟨rfl, fun _ hr' => .inl (Option.some.inj hr' ▸ hr), fun _ => Option.some_ne_none r⟩

theorem headed (c : Client) (f : Header → Header) (cacheAnswer : Bool) :
    Leaves c { c with response := c.response.map (.mapHeader f), cacheAnswer := cacheAnswer } := by
  refine ⟨rfl, fun r' hr' => ?_, fun hc => by simpa using hc⟩
  obtain ⟨r, hr, rfl⟩ := Option.map_eq_some_iff.mp hr'
  exact .inr ⟨r, hr, rfl⟩

theorem isResolver {c c' : Client} (h : Leaves c c')
    (hc : ∀ r, c.response = some r → r.producer.isResolver = true) :
    ∀ r', c'.response = some r' → r'.producer.isResolver = true := by
  intro r' hr'
  rcases h.producer r' hr' with hresolver | ⟨r, hr, hsame⟩
  · exact hresolver
  · rw [← hsame]
    exact hc r hr

end Leaves

def Honest (resolve : Resolve) : Prop := ∀ c c', resolve c = .ok c' → Leaves c c'

theorem honest_ok : Honest .ok := by
  intro c c' hc'
  cases hc'
  exact .refl c

theorem link_induction {Q : Resolve → Prop} {enabled : Bool} {resolve : Resolve → Resolve}
    {next : Resolve} (hnext : Q next) (hresolve : Q next → Q (resolve next)) :
    Q (link enabled resolve next) := by
  unfold link
  split
  · exact hresolve hnext
  · exact hnext

variable {P : Type} {next : Resolve}

theorem Honest.stub (hnext : Honest next) (outcome : StubOutcome) :
    Honest (stubResolve outcome next) := by
  intro c c' hc'
  unfold stubResolve at hc'
  split_ifs at hc'
  · cases hc'
    exact .refl c
  · split at hc'
    · cases hc'
    · cases hc'
      exact .refl c
    · split at hc'
      · cases hc'
        exact .answered c rfl false
      · cases hc'
        exact .answered c rfl false
      · exact hnext c c' hc'

theorem leaves_processRequest (reply : Option Packet) (c : Client) :
    Leaves c (processRequest reply c) := by
  cases reply with
  | none => exact .refl c
  | some msg => exact .answered c rfl c.cacheAnswer

theorem Honest.forwarder (hnext : Honest next) (reply : Option Packet) :
    Honest (forwarderResolve reply next) := by
  intro c c' hc'
  unfold forwarderResolve at hc'
  split at hc'
  · cases hc'
  · cases hc'
    exact .refl c
  · have hreply := leaves_processRequest reply c
    dsimp only at hc'
    split at hc'
    · next r hr =>
      cases hc'
      have hheaded := Leaves.headed (processRequest reply c)
        (fun h => { h with id := (processRequest reply c).request.message.header.id, aa := false })
          true
      rw [hr] at hheaded
      exact hreply.trans hheaded
    · exact hreply.trans (hnext _ c' hc')

theorem honest_recurse (outcome : RecursorOutcome) : Honest (recurse outcome) := by
  intro c c' hc'
  unfold recurse at hc'
  split_ifs at hc'
  · cases hc'
    exact .refl c
  · split at hc'
    · cases hc'
    · split at hc'
      · cases hc'
        exact .answered c rfl c.cacheAnswer
      · cases hc'
        exact .refl c

theorem Honest.recursor (hnext : Honest next) (enable : Bool) (outcome : RecursorOutcome) :
    Honest (recursorResolve enable outcome next) := by
  intro c c' hc'
  unfold recursorResolve at hc'
  dsimp only at hc'
  split at hc'
  · cases hc'
  · next client hclient =>
    have hleaves : Leaves c client := by
      split_ifs at hclient
      · cases hrecurse : recurse outcome c with
        | error e =>
          rw [hrecurse] at hclient
          cases hclient
        | ok resolved =>
          rw [hrecurse] at hclient
          cases hclient
          exact (honest_recurse outcome c resolved hrecurse).trans
            (.headed resolved _ resolved.cacheAnswer)
      · cases hclient
        exact .refl c
    split_ifs at hc'
    · cases hc'
      exact hleaves
    · exact hleaves.trans (hnext _ c' hc')

theorem honest_outsideResolve (mods : Modules) (w : World P) : Honest (outsideResolve mods w) :=
  link_induction (link_induction (link_induction honest_ok fun h => h.recursor _ _)
    fun h => h.forwarder _) fun h => h.stub _

def Response.copyFor (c : Client) (r : Response) : Response :=
  { r.mapHeader fun h => { h with id := c.request.message.header.id } with
    producer := .copied r.producer }

/-- What the calls of `Do` come to for a client without a response. -/
inductive Verdict where
  | leads
  | shares (r : Response) (cacheAnswer : Bool)
  | nothing
  | waits

/-- What the calls of `Do` come to for this name. -/
def verdict (name : Name) : List Flight → Verdict
  | [] => .waits
  | .leads :: _ => .leads
  | .exceeds :: _ => .nothing
  | .follows l :: flights =>
    match l.response with
    | none => .nothing
    | some r =>
      if name = r.message.question.name then .shares r l.cacheAnswer else verdict name flights

variable {r : Response}

theorem exists_of_verdict {name : Name} {flights : List Flight} {cacheAnswer : Bool}
    (hverdict : verdict name flights = .shares r cacheAnswer) :
    ∃ l, .follows l ∈ flights ∧ l.response = some r := by
  induction flights with
  | nil => cases hverdict
  | cons flight flights ih =>
    cases flight with
    | leads | exceeds => cases hverdict
    | follows l =>
      unfold verdict at hverdict
      split at hverdict
      · cases hverdict
      · next r' hr' =>
        split_ifs at hverdict
        · cases hverdict
          exact ⟨l, List.mem_cons_self, hr'⟩
        · obtain ⟨l', hl', hr⟩ := ih hverdict
          exact ⟨l', List.mem_cons_of_mem _ hl', hr⟩

section limit

variable {resolver : Resolve}

theorem queryLimitResolve_leads (flights : List Flight) (c : Client) :
    queryLimitResolve resolver (.leads :: flights) c = resolver c := by
  cases hc : resolver c with
  | error e => simp [queryLimitResolve, hc, Except.map]
  | ok c' =>
    cases hr : c'.response with
    | none => simp [queryLimitResolve, hc, Except.map, Client.left, hr]
    | some r => simp [queryLimitResolve, hc, Except.map, hr]

theorem queryLimitResolve_preset {flight : Flight} (hflight : flight ≠ .leads)
    (flights : List Flight) {c : Client} (hc : c.response ≠ none) :
    queryLimitResolve resolver (flight :: flights) c = .ok c := by
  have hsome : c.response.isSome = true := Option.isSome_iff_ne_none.mpr hc
  cases flight with
  | leads => exact absurd rfl hflight
  | follows r => simp [queryLimitResolve, hsome]
  | exceeds => simp [queryLimitResolve]

theorem queryLimitResolve_unmarked (resolver : Resolve) (flights : List Flight) {c : Client}
    (hnone : c.response = none) :
    queryLimitResolve resolver flights c =
      match verdict c.question.name flights with
      | .leads => resolver c
      | .shares r cacheAnswer => .ok (c.fill ⟨some (r.copyFor c), cacheAnswer⟩)
      | .nothing => .ok c
      | .waits => .error .waits := by
  induction flights with
  | nil => rfl
  | cons flight flights ih =>
    cases flight with
    | leads => exact queryLimitResolve_leads flights c
    | exceeds => rfl
    | follows l =>
      cases hl : l.response with
      | none => simp [queryLimitResolve, verdict, hnone, hl]
      | some r =>
        by_cases hname : c.question.name = r.message.question.name
        · simp [queryLimitResolve, verdict, hnone, hl, hname, Client.fill, Response.copyFor]
        · simp [queryLimitResolve, verdict, hnone, hl, hname, ih]

theorem queryLimitResolve_eq_ok {flights : List Flight} {c c' : Client}
    (hc' : queryLimitResolve resolver flights c = .ok c') :
    resolver c = .ok c' ∨ c' = c ∨
      ∃ (r : Response) (cacheAnswer : Bool), c' = c.fill ⟨some (r.copyFor c), cacheAnswer⟩ := by
  cases flights with
  | nil => cases hc'
  | cons flight flights =>
    by_cases hleads : flight = .leads
    · rw [hleads, queryLimitResolve_leads] at hc'
      exact .inl hc'
    · by_cases hnone : c.response = none
      · rw [queryLimitResolve_unmarked resolver _ hnone] at hc'
        split at hc'
        · exact .inl hc'
        · cases hc'
          exact .inr (.inr ⟨_, _, rfl⟩)
        · cases hc'
          exact .inr (.inl rfl)
        · cases hc'
      · rw [queryLimitResolve_preset hleads flights hnone] at hc'
        cases hc'
        exact .inr (.inl rfl)

end limit

def Foreign (c : Client) : Prop := ∀ r, c.response = some r → r.producer ≠ .selector

variable {c c' : Client}

theorem foreign_of_eq (hr : c.response = some r) (hproducer : r.producer ≠ .selector) :
    Foreign c := by
  intro r' hr'
  cases hr.symm.trans hr'
  exact hproducer

theorem Leaves.foreign (hleaves : Leaves c c') (hc : Foreign c) : Foreign c' := by
  intro r' hr' hselector
  rcases hleaves.producer r' hr' with hresolver | ⟨r, hr, hsame⟩
  · rw [hselector] at hresolver
    cases hresolver
  · exact hc r hr (hsame.trans hselector)

/-- Only `Response` and `CacheAnswer` are written, and no response of the selector. -/
structure Written (c c' : Client) : Prop where
  fill : c' = c.fill c'.left
  foreign : Foreign c → Foreign c'

theorem Written.refl (c : Client) : Written c c := ⟨rfl, id⟩

theorem Written.trans {c c' c'' : Client} (h : Written c c') (h' : Written c' c'') :
    Written c c'' := by
  refine ⟨?_, fun hc => h'.foreign (h.foreign hc)⟩
  rw [h'.fill, h.fill]
  rfl

theorem Written.answered (c : Client) (hr : r.producer ≠ .selector) (cacheAnswer : Bool) :
    Written c { c with response := some r, cacheAnswer := cacheAnswer } :=
  ⟨rfl, fun _ => foreign_of_eq rfl hr⟩

theorem Leaves.written (h : Leaves c c') : Written c c' := ⟨h.fill, h.foreign⟩

/-- A resolver that writes nothing but `Response` and `CacheAnswer`. -/
def Fills (resolve : Resolve) : Prop := ∀ c c', resolve c = .ok c' → c' = c.fill c'.left

def Writes (resolve : Resolve) : Prop := ∀ c c', resolve c = .ok c' → Written c c'

theorem writes_ok : Writes .ok := by
  intro c c' hc'
  cases hc'
  exact .refl c

theorem writes_queryLimitResolve {resolver : Resolve} (hresolver : Honest resolver)
    (flights : List Flight) : Writes (queryLimitResolve resolver flights) := by
  intro c c' hc'
  rcases queryLimitResolve_eq_ok hc' with hleads | rfl | ⟨r, cacheAnswer, rfl⟩
  · exact (hresolver c c' hleads).written
  · exact .refl c'
  · exact .answered c (by simp [Response.copyFor]) cacheAnswer

theorem Writes.auth (hnext : Writes next)
    (zoneAnswer : String → Packet → Option (Message Section)) :
    Writes (authResolve zoneAnswer next) := by
  intro c c' hc'
  unfold authResolve at hc'
  split at hc'
  · exact hnext c c' hc'
  · next msg _ =>
    have hanswered : ∀ cacheAnswer, Written c { c with
        response := some ⟨⟨msg, none⟩, .resolver .auth⟩, cacheAnswer := cacheAnswer } :=
      Written.answered c (by simp)
    dsimp only at hc'
    split at hc'
    · cases hc'
    · exact (hanswered c.cacheAnswer).trans (hnext _ c' hc')
    · cases hc'
      exact hanswered false

variable [NameTree P LocalPolicy]

theorem written_responseWithLocalData {policies : String → Option P} {hit : Bool}
    (hlocal : responseWithLocalData policies c = .ok (c', hit)) : Written c c' := by
  unfold responseWithLocalData at hlocal
  split at hlocal
  · cases hlocal
    exact .refl c
  · split at hlocal
    · cases hlocal
    · split at hlocal
      · cases hlocal
        exact .refl c
      · next answer _ =>
        cases hlocal
        refine .answered c ?_ c.cacheAnswer
        cases answer <;> exact fun h => by cases h

theorem Writes.fakeAuth (hnext : Writes next) (policies : String → Option P) :
    Writes (fakeAuthResolve policies next) := by
  intro c c' hc'
  unfold fakeAuthResolve at hc'
  split at hc'
  · cases hc'
  · next client hlocal =>
    cases hc'
    have hclient := written_responseWithLocalData hlocal
    refine ⟨?_, hclient.foreign⟩
    rw [hclient.fill]
    rfl
  · next client hlocal => exact (written_responseWithLocalData hlocal).trans (hnext client c' hc')

/-- The resolvers inside `CNameHandler` write only the response, and none of the selector. -/
theorem writes_chainResolve (mods : Modules) (w : World P) : Writes (chainResolve mods w) :=
  link_induction (link_induction (link_induction writes_ok fun _ =>
    writes_queryLimitResolve (honest_outsideResolve mods w) _) fun h => h.auth _)
    fun h => h.fakeAuth _

theorem fills_chainResolve (mods : Modules) (w : World P) : Fills (chainResolve mods w) :=
  fun c c' hc' => (writes_chainResolve mods w c c' hc').fill

end Vanguard.Query
