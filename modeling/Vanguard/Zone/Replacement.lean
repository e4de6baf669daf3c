import Vanguard.Zone.Find
import Vanguard.Zone.Apex

namespace Vanguard.Zone

open Library List

/-- A client on its way through `Find` and `GetAdditional`. -/
inductive FindPhase (T : Type) where
  /-- `Find` was called. -/
  | asking (q : Query)
  | checked (q : Query)
  | found (version : ℕ) (seen : MemoryZone T) (result : FindResult)
  /-- The RRset was rotated and `Find` has returned; a synthesised RRset is a copy of its own. -/
  | holding (version : ℕ) (seen : MemoryZone T) (rrset : Option (Found × RRset Rdata))
  | listed (rrsets : List (Option Found))
  /-- `GetAdditional` has returned, or a panic has ended the client. -/
  | done

def FindPhase.context {T : Type} : FindPhase T → Option (ℕ × MemoryZone T)
  | .found version seen _ => some (version, seen)
  | .holding version seen _ => some (version, seen)
  | _ => none

/-- What `GetAdditional` listed, and what the zones of `Find` and of the call hold. -/
structure Listing where
  listed : Except AdditionalPanic (List (Option Found))
  /-- What the zone seen by `Find` holds. -/
  ofSeen : Except AdditionalPanic (List (Option Found))
  ofCurrent : Except AdditionalPanic (List (Option Found))

/-- `DynamicZone` with everybody who uses it. -/
structure ServedZone (T : Type) where
  objects : Objects
  versions : List (MemoryZone T)
  /-- `MemoryZone`, the zone object that is served. -/
  current : ℕ
  tx : Option (MemoryZone T)
  cleaning : List ℕ
  clients : List (FindPhase T)
  /-- What the calls of `GetAdditional` have listed so far. -/
  listings : List Listing

inductive ZoneEvent (T : Type) where
  /-- A client calls `Find`. -/
  | call (q : Query)
  | check (i : ℕ)
  | search (i : ℕ)
  | rotate (i : ℕ)
  | list (i : ℕ)
  | rotateAll (i : ℕ)
  | begin
  | update (c : TxCall)
  | commit
  | rollBack
  | load (z : MemoryZone T)
  | clean (k : ℕ)

inductive NotNow where
  | notNow
  deriving DecidableEq, Repr

def resultRRset (h : Objects) : Option (Found × RRset Rdata) → Option (RRset Rdata)
  | some (.stored p, _) => some (h.value p)
  | some (.synthesis _ _, own) => some own
  | none => none

/-- `RotateRdata` on each of the RRsets, none if one is nil. -/
def rotateEach (rotate : List Ptr → List Ptr) (h : Objects) : List (Option Found) → Option Objects
  | [] => some h
  | none :: _ => none
  | some found :: rrsets => rotateEach rotate (found.rotateRdata rotate h).1 rrsets

namespace ServedZone

variable {T : Type} [DomainTree T NameNode]

def currentZone (s : ServedZone T) : MemoryZone T :=
  (s.versions[s.current]?).getD (newMemoryZone .root)

def setClient (s : ServedZone T) (i : ℕ) (phase : FindPhase T) : ServedZone T :=
  { s with clients := s.clients.set i phase }

def stepClient (rotate : List Ptr → List Ptr) (s : ServedZone T) (i : ℕ) (phase : FindPhase T) :
    ZoneEvent T → Except NotNow (ServedZone T)
  | .check _ =>
    match phase with
    | .asking q =>
      .ok (s.setClient i (if s.currentZone.isEmpty then .done else .checked q))
    | _ => .error .notNow
  | .search _ =>
    match phase, s.tx with
    | .checked q, none =>
      match s.currentZone.find q.name q.typ q.option with
      | .ok ctx => .ok (s.setClient i (.found s.current s.currentZone ctx.result))
      | .error _ => .ok (s.setClient i .done)
    | _, _ => .error .notNow
  | .rotate _ =>
    match phase, s.tx with
    | .found version seen result, none =>
      match result.rrset with
      | some found =>
        let (objects, own) := found.rotateRdata rotate s.objects
        .ok ({ s with objects }.setClient i (.holding version seen (some (found, own))))
      | none => .ok (s.setClient i (.holding version seen none))
    | _, _ => .error .notNow
  | .list _ =>
    match phase, s.tx with
    | .holding version seen result, none =>
      let rrset := resultRRset s.objects result
      let listed := ((s.versions[version]?).getD (newMemoryZone .root)).getAdditional rrset
      let listing := ⟨listed, seen.getAdditional rrset, s.currentZone.getAdditional rrset⟩
      let s := { s with listings := listing :: s.listings }
      match listed with
      | .ok rrsets => .ok (s.setClient i (.listed rrsets))
      | .error _ => .ok (s.setClient i .done)
    | _, _ => .error .notNow
  | .rotateAll _ =>
    match phase, s.tx with
    | .listed rrsets, none =>
      match rotateEach rotate s.objects rrsets with
      | some objects => .ok ({ s with objects }.setClient i .done)
      | none => .ok (s.setClient i .done)
    | _, _ => .error .notNow
  | _ => .error .notNow

def stepZone (s : ServedZone T) : ZoneEvent T → Except NotNow (ServedZone T)
  | .call q => .ok { s with clients := s.clients ++ [.asking q] }
  | .begin =>
    match s.tx with
    | none => .ok { s with tx := some s.currentZone.clone }
    | some _ => .error .notNow
  | .update c =>
    match s.tx with
    | some tmp =>
      match ZoneState.stepTx ⟨s.objects, tmp, []⟩ c with
      | .ok z => .ok { s with objects := z.objects, tx := some z.zone }
      -- The goroutine of the transaction ends and nobody else gets the lock.
      | .error _ => .error .notNow
    | none => .error .notNow
  | .commit =>
    match s.tx with
    | some tmp =>
      match tmp.validate with
      | some _ => .ok { s with tx := none }
      | none =>
        .ok { s with versions := s.versions ++ [tmp], current := s.versions.length, tx := none,
                     cleaning := s.cleaning ++ [s.current] }
    | none => .error .notNow
  | .rollBack =>
    match s.tx with
    | some tmp =>
      .ok { s with versions := s.versions ++ [tmp], tx := none,
                   cleaning := s.cleaning ++ [s.versions.length] }
    | none => .error .notNow
  | .load z =>
    match s.tx with
    | none => .ok { s with versions := s.versions ++ [z], current := s.versions.length }
    | some _ => .error .notNow
  | .clean k =>
    match s.cleaning[k]? with
    | some version =>
      .ok { s with versions := s.versions.modify version MemoryZone.clean,
                   cleaning := s.cleaning.eraseIdx k }
    | none => .error .notNow
  | _ => .error .notNow

def step (rotate : List Ptr → List Ptr) (s : ServedZone T) (e : ZoneEvent T) :
    Except NotNow (ServedZone T) :=
  match e with
  | .check i | .search i | .rotate i | .list i | .rotateAll i =>
    match s.clients[i]? with
    | some phase => s.stepClient rotate i phase e
    | none => .error .notNow
  | _ => s.stepZone e

section

variable (s : ServedZone T)

def CleansUnused : ZoneEvent T → Prop
  | .clean k => ∀ version ∈ s.cleaning[k]?, ∀ phase ∈ s.clients,
      phase.context.map Prod.fst ≠ some version
  | _ => True

instance CleansUnused.decidable : ∀ e, Decidable (s.CleansUnused e)
  | .clean k => inferInstanceAs (Decidable (∀ version ∈ s.cleaning[k]?, ∀ phase ∈ s.clients,
      phase.context.map Prod.fst ≠ some version))
  | .call _ | .check _ | .search _ | .rotate _ | .list _ | .rotateAll _ | .begin | .update _
  | .commit | .rollBack | .load _ => .isTrue trivial

/-- What was listed is what the zone seen by `Find`, or the zone served at the call, holds. -/
def Complete : Prop :=
  ∀ l ∈ s.listings, l.listed = l.ofSeen ∨ l.listed = l.ofCurrent

structure Intact : Prop where
  current : s.current < s.versions.length
  seen : ∀ phase ∈ s.clients, ∀ version z, phase.context = some (version, z) →
    s.versions[version]? = some z
  complete : s.Complete

end

variable {s s' : ServedZone T} {rotate : List Ptr → List Ptr}

section

variable (h : s.Intact)

include h

theorem Intact.currentZone : s.versions[s.current]? = some s.currentZone := by
  simp [ServedZone.currentZone, getElem?_eq_getElem h.current]

omit [DomainTree T NameNode] in
theorem Intact.setClient (i : ℕ) {phase : FindPhase T}
    (hphase : ∀ version z, phase.context = some (version, z) → s.versions[version]? = some z) :
    (s.setClient i phase).Intact := by
  refine ⟨h.current, fun c hc => ?_, h.complete⟩
  rcases mem_or_eq_of_mem_set hc with hc | rfl
  · exact h.seen c hc
  · exact hphase

omit [DomainTree T NameNode] in
theorem Intact.objects (objects : Objects) : { s with objects }.Intact :=
  ⟨h.current, h.seen, h.complete⟩

variable {e : ZoneEvent T}

theorem Intact.stepClient {i : ℕ} {phase : FindPhase T} (hi : s.clients[i]? = some phase)
    (hstep : s.stepClient rotate i phase e = .ok s') : s'.Intact := by
  have hseen := h.seen phase (mem_of_getElem? hi)
  have hnone : ∀ {p : FindPhase T}, p.context = none → ∀ version z,
      p.context = some (version, z) → s.versions[version]? = some z := by
    intro p hp version z hz
    rw [hp] at hz
    cases hz
  cases e with
  | check j =>
    cases phase with
    | asking q =>
      cases hstep
      refine h.setClient i (hnone ?_)
      split
      · rfl
      · rfl
    | _ => cases hstep
  | search j =>
    simp only [ServedZone.stepClient] at hstep
    split at hstep
    · split at hstep
      · cases hstep
        refine h.setClient i fun version z hz => ?_
        cases hz
        exact h.currentZone
      · cases hstep
        exact h.setClient i (hnone rfl)
    · cases hstep
  | rotate j =>
    simp only [ServedZone.stepClient] at hstep
    split at hstep
    · split at hstep
      · cases hstep
        exact (h.objects _).setClient i hseen
      · cases hstep
        exact h.setClient i hseen
    · cases hstep
  | list j =>
    simp only [ServedZone.stepClient] at hstep
    split at hstep
    · next version seen result _ =>
      have hversion : s.versions[version]? = some seen := hseen version seen rfl
      simp only [hversion, Option.getD_some] at hstep
      -- The object has not been cleaned, so the call lists what it held for `Find`.
      have hlisted : { s with listings := ⟨seen.getAdditional (resultRRset s.objects result),
          seen.getAdditional (resultRRset s.objects result),
          s.currentZone.getAdditional (resultRRset s.objects result)⟩ :: s.listings }.Intact := by
        refine ⟨h.current, h.seen, fun l hl => ?_⟩
        rcases mem_cons.mp hl with rfl | hl
        · exact .inl rfl
        · exact h.complete l hl
      split at hstep
      · cases hstep
        exact hlisted.setClient i (hnone rfl)
      · cases hstep
        exact hlisted.setClient i (hnone rfl)
    · cases hstep
  | rotateAll j =>
    simp only [ServedZone.stepClient] at hstep
    split at hstep
    · split at hstep
      · cases hstep
        exact (h.objects _).setClient i (hnone rfl)
      · cases hstep
        exact h.setClient i (hnone rfl)
    · cases hstep
  | _ => cases hstep

omit [DomainTree T NameNode] in
theorem Intact.append (z : MemoryZone T) {current : ℕ} (hcurrent : current ≤ s.versions.length)
    (tx : Option (MemoryZone T)) (cleaning : List ℕ) :
    { s with versions := s.versions ++ [z], current, tx, cleaning }.Intact := by
  refine ⟨by simpa using Nat.lt_succ_of_le hcurrent, fun c hc version seen hcontext => ?_,
    h.complete⟩
  have hversion := h.seen c hc version seen hcontext
  exact getElem?_append_left (List.getElem?_eq_some_iff.mp hversion).1 ▸ hversion

/-- A step keeps the objects that were searched, unless it cleans one of them. -/
theorem Intact.stepZone (hclean : s.CleansUnused e) (hstep : s.stepZone e = .ok s') :
    s'.Intact := by
  cases e with
  | call q =>
    cases hstep
    refine ⟨h.current, fun c hc version z hz => ?_, h.complete⟩
    rcases mem_append.mp hc with hc | hc
    · exact h.seen c hc version z hz
    · rw [mem_singleton.mp hc] at hz
      cases hz
  | begin =>
    simp only [ServedZone.stepZone] at hstep
    split at hstep
    · cases hstep
      exact ⟨h.current, h.seen, h.complete⟩
    · cases hstep
  | update c =>
    simp only [ServedZone.stepZone] at hstep
    split at hstep
    · split at hstep
      · cases hstep
        exact ⟨h.current, h.seen, h.complete⟩
      · cases hstep
    · cases hstep
  | commit =>
    simp only [ServedZone.stepZone] at hstep
    split at hstep
    · split at hstep
      · cases hstep
        exact ⟨h.current, h.seen, h.complete⟩
      · cases hstep
        exact h.append _ le_rfl _ _
    · cases hstep
  | rollBack =>
    simp only [ServedZone.stepZone] at hstep
    split at hstep
    · cases hstep
      exact h.append _ h.current.le _ _
    · cases hstep
  | load z =>
    simp only [ServedZone.stepZone] at hstep
    split at hstep
    · cases hstep
      exact h.append _ le_rfl _ _
    · cases hstep
  | clean k =>
    simp only [ServedZone.stepZone] at hstep
    split at hstep
    · next cleaned hk =>
      cases hstep
      refine ⟨by simpa using h.current, fun c hc version z hz => ?_, h.complete⟩
      have hne : version ≠ cleaned := fun heq => hclean cleaned hk c hc (by rw [hz, ← heq]; rfl)
      have hkept : (s.versions.modify cleaned MemoryZone.clean)[version]? =
          s.versions[version]? := by
        simp [hne.symm]
      exact hkept.trans (h.seen c hc version z hz)
    · cases hstep
  | _ => cases hstep

theorem Intact.step (hclean : s.CleansUnused e) (hstep : s.step rotate e = .ok s') : s'.Intact := by
  cases e with
  | check i | search i | rotate i | list i | rotateAll i =>
    simp only [ServedZone.step] at hstep
    split at hstep
    · next hi => exact h.stepClient hi hstep
    · cases hstep
  | _ => exact h.stepZone hclean hstep

end

def start (objects : Objects) (z : MemoryZone T) : ServedZone T :=
  ⟨objects, [z], 0, none, [], [], []⟩

/-- Everything is listed if no zone is cleaned that a client still has to list from. -/
theorem additional_complete_of_unused (rotate : List Ptr → List Ptr) (objects : Objects)
    (z : MemoryZone T) {events : List (ZoneEvent T)}
    (hunused : Along (ServedZone.step rotate) CleansUnused (start objects z) events)
    {s : ServedZone T} (hreached : Reached (ServedZone.step rotate) (start objects z) events s) :
    s.Complete := by
  have hstart : (start objects z).Intact := by
    refine ⟨Nat.one_pos, fun c hc => ?_, fun l hl => ?_⟩
    · cases hc
    · cases hl
  have hintact : s.Intact := reached_induction Intact (fun _ _ _ h hclean hstep =>
    h.step hclean hstep) hunused hstart hreached
  exact hintact.complete

def referralObjects : Objects := .ofLists
  [⟨["example"], .soa, .internet, 300, [0]⟩, ⟨["example"], .ns, .internet, 300, [1]⟩,
    ⟨["ns", "example"], .a, .internet, 300, [2]⟩]
  [.soa ⟨["ns", "example"], ["root", "example"], 1, 7200, 3600, 86400, 300⟩,
    .ns ["ns", "example"], .a [1, 1, 1, 1]]

def referralZone : MemoryZone (ReferenceTree NameNode) :=
  match run ZoneState.step ⟨referralObjects, newMemoryZone ["example"], []⟩
      [.add 0, .add 1, .add 2] with
  | .ok s => s.zone
  | .error _ => newMemoryZone ["example"]

/-- A client finds the NS RRset, another commits, and the old zone is cleaned. -/
def replacementEvents : List (ZoneEvent (ReferenceTree NameNode)) :=
  [.call ⟨["example"], .ns, .default⟩, .check 0, .search 0, .rotate 0, .begin, .commit]

/-- The client lists the address before what was served is cleaned. -/
theorem example_listed_before_clean :
    ∃ s, run (ServedZone.step (·.rotate 1)) (start referralObjects referralZone)
        (replacementEvents ++ [.list 0, .clean 0]) = .ok s ∧
      s.listings.map Listing.listed = [.ok [some (.stored 2)]] ∧ s.Complete := by
  have hunused : Along (ServedZone.step (·.rotate 1)) CleansUnused
      (start referralObjects referralZone) (replacementEvents ++ [.list 0, .clean 0]) := by
    decide
  exact ⟨_, rfl, rfl, additional_complete_of_unused _ _ _ hunused ⟨_, prefix_rfl, rfl⟩⟩

/-- The zone the client searched is cleaned before it lists the address. -/
theorem example_listed_after_clean :
    ∃ s, run (ServedZone.step (·.rotate 1)) (start referralObjects referralZone)
        (replacementEvents ++ [.clean 0, .list 0]) = .ok s ∧
      s.listings.map Listing.listed = [.ok []] ∧
      s.listings.map Listing.ofSeen = [.ok [some (.stored 2)]] ∧
      s.listings.map Listing.ofCurrent = [.ok [some (.stored 2)]] ∧ ¬s.Complete := by
  refine ⟨_, rfl, rfl, rfl, rfl, fun hcomplete => ?_⟩
  rcases hcomplete _ mem_cons_self with hseen | hcurrent
  · exact absurd hseen (by decide)
  · exact absurd hcurrent (by decide)

end ServedZone

end Vanguard.Zone
