import Vanguard.Query.Provenance

namespace Vanguard.Query

open LocalData (LocalPolicy findAnswer responseWithLocalData)

def Sound (c : Client) : Prop := ∀ r, c.response = some r → r.producer.isResolver = true

def Resolved (c : Client) : Prop := ∃ r, c.response = some r ∧ r.producer.isResolver = true

def Kept (r : Response) (c : Client) : Prop :=
  ∃ r', c.response = some r' ∧ Placeholder r' ∧ r'.tsig = r.tsig

def Misled (c : Client) : Prop :=
  ∃ r, c.response = some r ∧ r.producer.isResolver = false ∧ Bare r.message

variable {r : Response} {c : Client}

theorem Kept.misled (hc : Kept r c) : Misled c := by
  obtain ⟨r', hr', hplaceholder, -⟩ := hc
  exact ⟨r', hr', by rw [hplaceholder.producer]; rfl, hplaceholder.bare⟩

theorem Misled.not_sound (hc : Misled c) : ¬Sound c := by
  obtain ⟨r, hr, hproducer, -⟩ := hc
  intro hsound
  rw [hsound r hr] at hproducer
  cases hproducer

section conditions

variable {P : Type} [NameTree P LocalPolicy]

def localAnswers (policies : String → Option P) (c : Client) : Bool :=
  (policies c.view).any fun ps => (findAnswer ps c.question.name c.question.typ).isSome

def RecursorOutcome.isReply : RecursorOutcome → Bool
  | .replied _ => true
  | _ => false

section

variable (mods : Modules) (w : World P)

def World.recursorReplies : Bool :=
  mods.recursor && (w.recursorEnable && w.recursion.isReply)

def World.forwarderReplies : Bool :=
  if mods.forwarder then w.forward.isSome else w.recursorReplies mods

/-- A resolver behind `QueryLimit` replies to a client that has a response already. -/
def World.outsideReplies : Bool :=
  if mods.stub then
    match w.stub with
    | .senderFails => false
    | .noMasters => w.forwarderReplies mods
    | .failed => true
    | .replied _ => true
  else w.forwarderReplies mods

def World.answersFirst (c : Client) : Bool :=
  (mods.localData && localAnswers w.policies c) ||
    (mods.auth && (w.zoneAnswer c.view c.request).isSome)

def World.replies (c : Client) : Bool :=
  w.answersFirst mods c || (mods.limit && (decide (w.flight = .leads) && w.outsideReplies mods))

end

def sharesPlaceholder (name : Name) (flights : List Flight) : Bool :=
  match verdict name flights with
  | .shares r _ => !r.producer.isResolver
  | _ => false

/-- A client without a response comes to `QueryLimit` and gets the placeholder of its leader. -/
def World.misleads (mods : Modules) (w : World P) (c : Client) : Bool :=
  !w.answersFirst mods c && (mods.limit && sharesPlaceholder c.question.name (w.flight :: w.later))

end conditions

def Fate (replied : Bool) (r : Response) (result : Except Stop Client) : Prop :=
  ∃ c', result = .ok c' ∧ if replied = true then Sound c' else Kept r c'

theorem Fate.replaced {c' : Client} (hc' : Sound c') : Fate true r (.ok c') := ⟨c', rfl, hc'⟩

theorem Fate.kept {c' : Client} (hc' : Kept r c') : Fate false r (.ok c') := ⟨c', rfl, hc'⟩

theorem sound_of_eq (hr : c.response = some r) (hproducer : r.producer.isResolver = true) :
    Sound c := by
  intro r' hr'
  cases hr.symm.trans hr'
  exact hproducer

section marked

variable {P : Type} {c : Client} {r : Response}

theorem isReferral_bare (hbare : Bare r.message) : isReferral (some r) = .ok false := by
  simp [isReferral, hbare.classify]

theorem kept_self (hr : c.response = some r) (hplaceholder : Placeholder r) : Kept r c :=
  ⟨r, hr, hplaceholder, rfl⟩

theorem kept_mapHeader {c' : Client} {f : Header → Header} (hplaceholder : Placeholder r)
    (hr : c'.response = some (r.mapHeader f))
    (hf : ∀ h, (f h).rcode = h.rcode ∧ (f h).anCount = h.anCount ∧ (f h).nsCount = h.nsCount) :
    Kept r c' :=
  ⟨_, hr, ⟨hplaceholder.producer, hplaceholder.bare.mapHeader hf⟩, rfl⟩

variable (hr : c.response = some r) (hplaceholder : Placeholder r)

include hr hplaceholder

theorem recursorResolve_marked (enable : Bool) (outcome : RecursorOutcome) (next : Resolve) :
    Fate (enable && outcome.isReply) r (recursorResolve enable outcome next c) := by
  have hreferral := isReferral_bare hplaceholder.bare
  cases enable with
  | false =>
    have hself : recursorResolve false outcome next c = .ok c := by simp [recursorResolve, hr]
    rw [hself]
    exact .kept (kept_self hr hplaceholder)
  | true =>
    cases outcome with
    | exceeds =>
      simp only [recursorResolve, recurse, hr, Except.map, if_true, Option.map_some,
        Option.isSome_some]
      exact .kept (kept_mapHeader hplaceholder rfl fun _ => ⟨rfl, rfl, rfl⟩)
    | failed =>
      simp only [recursorResolve, recurse, hr, hreferral, Except.map, reduceCtorEq, if_true,
        if_false, Option.map_some, Option.isSome_some]
      exact .kept (kept_mapHeader hplaceholder rfl fun _ => ⟨rfl, rfl, rfl⟩)
    | replied msg =>
      simp only [recursorResolve, recurse, hr, hreferral, Except.map, reduceCtorEq, if_true,
        if_false, Option.map_some, Option.isSome_some]
      exact .replaced (sound_of_eq rfl rfl)

theorem forwarderResolve_marked (reply : Option Packet) (next : Resolve) :
    Fate reply.isSome r (forwarderResolve reply next c) := by
  have hreferral := isReferral_bare hplaceholder.bare
  cases reply with
  | none =>
    simp only [forwarderResolve, processRequest, hr, hreferral]
    exact .kept (kept_mapHeader hplaceholder rfl fun _ => ⟨rfl, rfl, rfl⟩)
  | some msg =>
    simp only [forwarderResolve, processRequest, hr, hreferral]
    exact .replaced (sound_of_eq rfl rfl)

theorem outsideResolve_marked (mods : Modules) (w : World P) :
    Fate (w.outsideReplies mods) r (outsideResolve mods w c) := by
  have hreferral := isReferral_bare hplaceholder.bare
  have hrecursor : Fate (w.recursorReplies mods) r
      (link mods.recursor (recursorResolve w.recursorEnable w.recursion) .ok c) := by
    unfold World.recursorReplies link
    cases mods.recursor with
    | false => exact .kept (kept_self hr hplaceholder)
    | true => exact recursorResolve_marked hr hplaceholder w.recursorEnable w.recursion .ok
  have hforwarder : Fate (w.forwarderReplies mods) r (link mods.forwarder
      (forwarderResolve w.forward)
      (link mods.recursor (recursorResolve w.recursorEnable w.recursion) .ok) c) := by
    unfold World.forwarderReplies
    cases mods.forwarder with
    | false => exact hrecursor
    | true => exact forwarderResolve_marked hr hplaceholder w.forward _
  unfold outsideResolve World.outsideReplies
  cases mods.stub with
  | false => exact hforwarder
  | true =>
    cases w.stub with
    | senderFails => exact .kept (kept_self hr hplaceholder)
    | noMasters =>
      simp only [link, stubResolve, hr, hreferral, reduceCtorEq, if_true, if_false]
      exact hforwarder
    | failed =>
      simp only [link, stubResolve, hr, hreferral, reduceCtorEq, if_true, if_false]
      exact .replaced (sound_of_eq rfl rfl)
    | replied msg =>
      simp only [link, stubResolve, hr, hreferral, reduceCtorEq, if_true, if_false]
      exact .replaced (sound_of_eq rfl rfl)

theorem queryLimitResolve_marked (mods : Modules) (w : World P) :
    Fate (decide (w.flight = .leads) && w.outsideReplies mods) r
      (queryLimitResolve (outsideResolve mods w) (w.flight :: w.later) c) := by
  by_cases hleads : w.flight = .leads
  · rw [hleads, queryLimitResolve_leads, decide_eq_true rfl, Bool.true_and]
    exact outsideResolve_marked hr hplaceholder mods w
  · rw [queryLimitResolve_preset hleads w.later (by simp [hr]), decide_eq_false hleads,
      Bool.false_and]
    exact .kept (kept_self hr hplaceholder)

end marked

end Vanguard.Query
