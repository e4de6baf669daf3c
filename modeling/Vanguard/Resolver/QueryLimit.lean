import Vanguard.Dns.Message

/-!
# Coalesced queries

`QueryLimit` gives what the resolvers leave in one client to all that ask at the same time. A client
that has a response after the flight returns with it, so one with a preset response never sees the
shared one.
-/

namespace Vanguard.Resolver

/-- `core.Client`, as far as `QueryLimit` looks at it. -/
structure Client where
  request : Message Section
  response : Option (Message Section)
  viewId : UInt16
  cacheAnswer : Bool
  deriving DecidableEq, Repr

def Client.queryKey (hash : Name → UInt32) (c : Client) : UInt64 :=
  (hash c.request.question.name).toUInt64 <<< 32 ||| c.viewId.toUInt64 <<< 16 |||
    c.request.question.typ.code.toUInt64

/-- `resolveResponse`: what the resolvers behind `QueryLimit` leave in a client. -/
structure ResolveResponse where
  resp : Option (Message Section)
  cacheAnswer : Bool
  deriving DecidableEq, Repr

def Client.fill (c : Client) (r : ResolveResponse) : Client :=
  { c with response := r.resp, cacheAnswer := r.cacheAnswer }

/-- What a call of `singleflight.Do` is to its caller. -/
inductive Flight where
  | leads
  | follows (r : ResolveResponse)
  /-- Too many functions run already and it gets an error. -/
  | exceeds
  deriving DecidableEq, Repr

def withId (id : UInt16) (m : Message Section) : Message Section :=
  { m with header := { m.header with id } }

/-- `QueryLimit.Resolve` over what `Do` does in each call, none if it has not returned. -/
def resolve (resolver : Client → ResolveResponse) : List Flight → Client → Option Client
  | [], _ => none
  | flight :: flights, client =>
    let shared : Option (Client × ResolveResponse) :=
      match flight with
      | .leads => some (client.fill (resolver client), resolver client)
      | .follows r => some (client, r)
      | .exceeds => none
    match shared with
    | none => some client
    | some (client, r) =>
      if client.response.isSome then some client
      else
        match r.resp with
        | none => some client
        | some resp =>
          if client.request.question.name = resp.question.name then
            some { client with response := some (withId client.request.header.id resp),
                               cacheAnswer := r.cacheAnswer }
          else resolve resolver flights client

def Coalesced (hash : Name → UInt32) (leader : Client) (followers : List Client) : Prop :=
  ∀ f ∈ followers, f.queryKey hash = leader.queryKey hash ∧
    f.request.question.name = leader.request.question.name

/-- The client has the response of the leader, up to the id, and its `CacheAnswer`. -/
structure Agrees (leader f : Client) : Prop where
  response : f.response.map (withId 0) = leader.response.map (withId 0)
  cacheAnswer : f.cacheAnswer = leader.cacheAnswer

/-- The follower has what the resolvers leave in the leader, or nothing where they answer. -/
def Fits (resolver : Client → ResolveResponse) (leader f : Client) : Prop :=
  Agrees (leader.fill (resolver leader)) f ∨
    (f.response = none ∧ ∃ resp, (resolver leader).resp = some resp ∧
      resp.question.name = leader.request.question.name)

variable {resolver : Client → ResolveResponse} {leader f : Client}

theorem resolve_leads (later : List Flight) (client : Client) :
    resolve resolver (.leads :: later) client = some (client.fill (resolver client)) := by
  cases hresp : (resolver client).resp with
  | none | some resp => simp [resolve, Client.fill, hresp]

theorem resolve_follows_preset (r : ResolveResponse) (later : List Flight)
    (hpreset : f.response ≠ none) : resolve resolver (.follows r :: later) f = some f := by
  have hsome : f.response.isSome = true := Option.isSome_iff_ne_none.mpr hpreset
  simp [resolve, hsome]

variable {r : ResolveResponse}

section

variable (later : List Flight) (hnone : f.response = none)

include hnone

theorem resolve_follows_nil (hresp : r.resp = none) :
    resolve resolver (.follows r :: later) f = some f := by
  simp [resolve, hnone, hresp]

variable {resp : Message Section}

theorem resolve_follows_copy (hresp : r.resp = some resp)
    (hname : f.request.question.name = resp.question.name) :
    resolve resolver (.follows r :: later) f =
      some (f.fill ⟨some (withId f.request.header.id resp), r.cacheAnswer⟩) := by
  simp [resolve, hnone, hresp, hname, Client.fill]

theorem resolve_follows_again (hresp : r.resp = some resp)
    (hname : f.request.question.name ≠ resp.question.name) :
    resolve resolver (.follows r :: later) f = resolve resolver later f := by
  simp [resolve, hnone, hresp, hname]

end

theorem resolve_of_fits (hname : f.request.question.name = leader.request.question.name)
    (hfits : Fits resolver leader f) (later : List Flight) :
    ∃ f', resolve resolver (.follows (resolver leader) :: later) f = some f' ∧
      Agrees (leader.fill (resolver leader)) f' := by
  rcases hfits with hagrees | ⟨hnone, resp, hresp, hquestion⟩
  · refine ⟨f, ?_, hagrees⟩
    by_cases hpreset : f.response = none
    · refine resolve_follows_nil later hpreset ?_
      have hmap : none = (resolver leader).resp.map (withId 0) := by
        simpa [hpreset, Client.fill] using hagrees.response
      exact Option.map_eq_none_iff.mp hmap.symm
    · exact resolve_follows_preset _ later hpreset
  · refine ⟨_, resolve_follows_copy later hnone hresp (hname.trans hquestion.symm), ?_, rfl⟩
    simp [Client.fill, hresp, withId]

theorem fits_of_agrees (hname : f.request.question.name = leader.request.question.name)
    (hall : ∀ later f', resolve resolver (.follows (resolver leader) :: later) f = some f' →
      Agrees (leader.fill (resolver leader)) f') : Fits resolver leader f := by
  by_cases hpreset : f.response = none
  · cases hresp : (resolver leader).resp with
    | none => exact .inl (hall [] f (resolve_follows_nil [] hpreset hresp))
    | some resp =>
      by_cases hquestion : resp.question.name = leader.request.question.name
      · exact .inr ⟨hpreset, resp, hresp, hquestion⟩
      · -- The client asks again, and returns without a response if the limit is exceeded by then.
        have hne : f.request.question.name ≠ resp.question.name :=
          fun heq => hquestion (heq.symm.trans hname)
        refine .inl (hall [.exceeds] f ?_)
        rw [resolve_follows_again [.exceeds] hpreset hresp hne]
        rfl
  · exact .inl (hall [] f (resolve_follows_preset _ [] hpreset))

/-- All clients of a flight agree with their leader exactly if what each follower brings along fits.
-/
theorem coalesced_agree_iff (hash : Name → UInt32) (resolver : Client → ResolveResponse)
    (leader : Client) (followers : List Client) (hcoalesced : Coalesced hash leader followers) :
    (∀ l' leaderLater, resolve resolver (.leads :: leaderLater) leader = some l' →
      ∀ f ∈ followers, ∀ later f',
        resolve resolver (.follows (resolver leader) :: later) f = some f' → Agrees l' f') ↔
      ∀ f ∈ followers, Fits resolver leader f := by
  constructor
  · intro hall f hf
    exact fits_of_agrees (hcoalesced f hf).2 (hall _ [] (resolve_leads [] leader) f hf)
  · intro hfits l' leaderLater hl' f hf later f' hf'
    rw [resolve_leads] at hl'
    cases hl'
    obtain ⟨g, hg, hagrees⟩ := resolve_of_fits (hcoalesced f hf).2 (hfits f hf) later
    cases hg.symm.trans hf'
    exact hagrees

def exampleRequest (id : UInt16) : Message Section where
  header := ⟨id, false, false, .noError, 0, 0, 0⟩
  question := ⟨["www", "example", "com"], .a, .internet⟩
  answer := []
  auth := []
  additional := []

def exampleAnswer : Message Section :=
  { exampleRequest 1 with
    answer := [⟨["www", "example", "com"], .a, .internet, 300, [.a [1, 1, 1, 1]]⟩] }

def exampleReferral (id : UInt16) : Message Section :=
  { exampleRequest id with
    auth := [⟨["example", "com"], .ns, .internet, 300, [.ns ["ns", "example", "com"]]⟩] }

def exampleClient (id : UInt16) (response : Option (Message Section)) : Client :=
  ⟨exampleRequest id, response, 0, true⟩

/-- Two clients without a response agree. -/
theorem example_both_get_answer :
    ∃ f', resolve (fun _ => ⟨some exampleAnswer, true⟩)
        [.follows ⟨some exampleAnswer, true⟩] (exampleClient 2 none) = some f' ∧
      Agrees ((exampleClient 1 none).fill ⟨some exampleAnswer, true⟩) f' := by
  refine ⟨_, rfl, (coalesced_agree_iff (fun _ => 0) (fun _ => ⟨some exampleAnswer, true⟩)
    (exampleClient 1 none) [exampleClient 2 none] ?_).mpr ?_ _ [] rfl (exampleClient 2 none)
      List.mem_cons_self [] _ rfl⟩
  · intro f hf
    obtain rfl := List.mem_singleton.mp hf
    exact ⟨rfl, rfl⟩
  · intro f hf
    obtain rfl := List.mem_singleton.mp hf
    exact .inr ⟨rfl, exampleAnswer, rfl, rfl⟩

/-- The leader returns with the answer, the follower with the referral. -/
theorem example_follower_keeps_referral :
    let resolver := fun _ => ⟨some exampleAnswer, true⟩
    let leader := exampleClient 1 (some (exampleReferral 1))
    let follower := exampleClient 2 (some (exampleReferral 2))
    follower.queryKey (fun _ => 0) = leader.queryKey (fun _ => 0) ∧
      resolve resolver [.leads] leader = some (exampleClient 1 (some exampleAnswer)) ∧
      resolve resolver [.follows (resolver leader)] follower = some follower ∧
      ¬Agrees (exampleClient 1 (some exampleAnswer)) follower := by
  refine ⟨rfl, rfl, rfl, fun hagrees => ?_⟩
  exact absurd hagrees.response (by decide)

end Vanguard.Resolver
