import Vanguard.Auth.Axfr
import Vanguard.Xfr.Update

/-!
# Loading a zone from its masters

`loadZoneFromMaster` tries the masters one after the other. For each a goroutine runs `doAXFR` and
sends the RRsets on a `loadChan` of its own, from which `Load` builds a zone; failures are reported
on one `abortChan`. The channels are unbuffered. A goroutine may outlive the load it was started
for, and reads the loop variable when it starts.
-/

namespace Vanguard.Auth

open Library Zone
open Xfr (AnswerRRset Intact)

inductive Sender where
  | spawned
  /-- In `doAXFR`, which still has to send these RRsets and then returns the error. -/
  | sending (rrsets : List AnswerRRset) (err : Option AxfrError)
  /-- Sending on `abortChan`. -/
  | aborting
  /-- Before `close(loadChan)`. -/
  | closing
  /-- `loadChan` is closed. -/
  | closed
  deriving DecidableEq, Repr

/-- Where `loadZoneFromMaster` is. -/
inductive LoaderPhase (T : Type) where
  | loading (newMemZone : MemoryZone T)
  | returned

/-- `loadZoneFromMaster` with the goroutines it has started. -/
structure Loader (T : Type) where
  objects : Objects
  zone : DynamicZone T
  master : ℕ
  /-- The goroutines, each with its `loadChan`. -/
  senders : List Sender
  phase : LoaderPhase T

inductive LoadEvent where
  /-- The goroutine with this index starts and calls `doAXFR`. -/
  | start (i : ℕ)
  /-- `Load` receives an RRset. -/
  | receive
  /-- `doAXFR` returns to the goroutine. -/
  | finish (i : ℕ)
  /-- `Load` receives from `abortChan` what this goroutine sends. -/
  | abort (i : ℕ)
  /-- The goroutine closes its `loadChan`. -/
  | close (i : ℕ)
  /-- `Load` finds its `loadChan` closed. -/
  | receiveClosed
  deriving DecidableEq, Repr

inductive LoadStop where
  | blocked
  | panic (p : Panic)
  deriving DecidableEq, Repr

def typeOf (rrset : AnswerRRset) : RRType := rrset.value.typ

variable {T : Type} [DomainTree T NameNode]

namespace Loader

section definitions

variable (masters : List (Master AnswerRRset))

def iterate (l : Loader T) (i : ℕ) : Loader T :=
  if i < masters.length then
    { l with master := i,
             senders := l.senders ++ [.spawned],
             phase := .loading (newMemoryZone l.zone.memoryZone.origin) }
  else { l with phase := .returned }

/-- `loadZoneFromMaster` when it enters the loop. -/
def enter (h : Objects) (origin : Name) : Loader T :=
  iterate masters ⟨h, ⟨newMemoryZone origin, false⟩, 0, [], .returned⟩ 0

def setSender (l : Loader T) (i : ℕ) (sender : Sender) : Loader T :=
  { l with senders := l.senders.set i sender }

def add (l : Loader T) (newMemZone : MemoryZone T) (rrset : AnswerRRset) :
    Except LoadStop (Loader T) :=
  match newMemZone.addRRset l.objects rrset.ptr with
  | .error e => .error (.panic e)
  | .ok o =>
    let l' := { l with objects := o.objects }
    match o.err with
    | none => .ok { l' with phase := .loading o.zone }
    | some .noEffectiveUpdate =>
      if (o.objects.rrsets.load rrset.ptr).rdatas = [] then .error (.panic .indexOutOfRange)
      else .ok { l' with phase := .loading o.zone }
    | some _ => .ok (l'.iterate masters (l.master + 1))

def step (l : Loader T) : LoadEvent → Except LoadStop (Loader T)
  | .start i =>
    match l.senders[i]?, masters[l.master]? with
    | some .spawned, some master =>
      .ok (l.setSender i (.sending (doAXFR typeOf master).1 (doAXFR typeOf master).2))
    | _, _ => .error .blocked
  | .receive =>
    match l.phase, l.senders[l.master]? with
    | .loading newMemZone, some (.sending (rrset :: rrsets) err) =>
      (l.setSender l.master (.sending rrsets err)).add masters newMemZone rrset
    | _, _ => .error .blocked
  | .finish i =>
    match l.senders[i]? with
    | some (.sending [] none) => .ok (l.setSender i .closing)
    | some (.sending [] (some _)) => .ok (l.setSender i .aborting)
    | _ => .error .blocked
  | .abort i =>
    match l.phase, l.senders[i]? with
    | .loading _, some .aborting =>
      .ok ((l.setSender i .closing).iterate masters (l.master + 1))
    | _, _ => .error .blocked
  | .close i =>
    match l.senders[i]? with
    | some .closing => .ok (l.setSender i .closed)
    | _ => .error .blocked
  | .receiveClosed =>
    match l.phase, l.senders[l.master]? with
    | .loading newMemZone, some .closed =>
      match newMemZone.validate with
      | none => .ok { l with zone := { l.zone with memoryZone := newMemZone }, phase := .returned }
      | some _ => .ok (l.iterate masters (l.master + 1))
    | _, _ => .error .blocked

variable {masters}

variable {newMemZone : MemoryZone T}

theorem add_eq_ok {l l' : Loader T} {rrset : AnswerRRset}
    (hadd : l.add masters newMemZone rrset = .ok l') :
    ∃ o, newMemZone.addRRset l.objects rrset.ptr = .ok o ∧
      ((o.err = none ∨ o.err = some .noEffectiveUpdate) ∧
          l' = { l with objects := o.objects, phase := .loading o.zone } ∨
        (∃ e, o.err = some e ∧ e ≠ .noEffectiveUpdate) ∧
          l' = ({ l with objects := o.objects } : Loader T).iterate masters (l.master + 1)) := by
  unfold add at hadd
  cases hok : newMemZone.addRRset l.objects rrset.ptr with
  | error e => simp [hok] at hadd
  | ok o =>
    simp only [hok] at hadd
    refine ⟨o, rfl, ?_⟩
    split at hadd
    · next herr => exact .inl ⟨.inl herr, (Except.ok.inj hadd).symm⟩
    · next herr =>
      split_ifs at hadd
      exact .inl ⟨.inr herr, (Except.ok.inj hadd).symm⟩
    · next e hne herr => exact .inr ⟨⟨e, herr, hne⟩, (Except.ok.inj hadd).symm⟩

theorem add_of_rejected {l : Loader T} {rrset : AnswerRRset} {o : Outcome T} {e : ZoneError}
    (hok : newMemZone.addRRset l.objects rrset.ptr = .ok o) (herr : o.err = some e)
    (hne : e ≠ .noEffectiveUpdate) : l.add masters newMemZone rrset =
      .ok (({ l with objects := o.objects } : Loader T).iterate masters (l.master + 1)) := by
  simp only [add, hok, herr]

inductive Moves (masters : List (Master AnswerRRset)) (l : Loader T) : LoadEvent → Loader T → Prop
  /-- `doAXFR` is called for the master that the loop variable names now. -/
  | start {i : ℕ} {master : Master AnswerRRset} (hsender : l.senders[i]? = some .spawned)
    (hmaster : masters[l.master]? = some master) :
    Moves masters l (.start i)
      (l.setSender i (.sending (doAXFR typeOf master).1 (doAXFR typeOf master).2))
  /-- An RRset goes to the `Load` of the present master. -/
  | receive {newMemZone : MemoryZone T} {rrset : AnswerRRset} {rrsets : List AnswerRRset}
    {err : Option AxfrError} {l' : Loader T} (hloading : l.phase = .loading newMemZone)
    (hsender : l.senders[l.master]? = some (.sending (rrset :: rrsets) err))
    (hadd : (l.setSender l.master (.sending rrsets err)).add masters newMemZone rrset = .ok l') :
    Moves masters l .receive l'
  | finished {i : ℕ} (hsender : l.senders[i]? = some (.sending [] none)) :
    Moves masters l (.finish i) (l.setSender i .closing)
  | failed {i : ℕ} {err : AxfrError} (hsender : l.senders[i]? = some (.sending [] (some err))) :
    Moves masters l (.finish i) (l.setSender i .aborting)
  /-- The running `Load` returns `ErrAbortLoad`. -/
  | abort {i : ℕ} {newMemZone : MemoryZone T} (hloading : l.phase = .loading newMemZone)
    (hsender : l.senders[i]? = some .aborting) :
    Moves masters l (.abort i) ((l.setSender i .closing).iterate masters (l.master + 1))
  | close {i : ℕ} (hsender : l.senders[i]? = some .closing) :
    Moves masters l (.close i) (l.setSender i .closed)
  | installed {newMemZone : MemoryZone T} (hloading : l.phase = .loading newMemZone)
    (hsender : l.senders[l.master]? = some .closed) (hvalid : newMemZone.validate = none) :
    Moves masters l .receiveClosed
      { l with zone := { l.zone with memoryZone := newMemZone }, phase := .returned }
  /-- `Load` returns what `validate` found. -/
  | invalid {newMemZone : MemoryZone T} {e : ZoneError} (hloading : l.phase = .loading newMemZone)
    (hsender : l.senders[l.master]? = some .closed) (hinvalid : newMemZone.validate = some e) :
    Moves masters l .receiveClosed (l.iterate masters (l.master + 1))

theorem step_eq_ok_iff {l l' : Loader T} {event : LoadEvent} :
    l.step masters event = .ok l' ↔ Moves masters l event l' := by
  constructor
  · intro hstep
    cases event with
    | start i =>
      simp only [step] at hstep
      split at hstep
      · next master hsender hmaster =>
        cases hstep
        exact .start hsender hmaster
      · cases hstep
    | receive =>
      simp only [step] at hstep
      split at hstep
      · next newMemZone rrset rrsets err hloading hsender => exact .receive hloading hsender hstep
      · cases hstep
    | finish i =>
      simp only [step] at hstep
      split at hstep
      · next hsender =>
        cases hstep
        exact .finished hsender
      · next err hsender =>
        cases hstep
        exact .failed hsender
      · cases hstep
    | abort i =>
      simp only [step] at hstep
      split at hstep
      · next newMemZone hloading hsender =>
        cases hstep
        exact .abort hloading hsender
      · cases hstep
    | close i =>
      simp only [step] at hstep
      split at hstep
      · next hsender =>
        cases hstep
        exact .close hsender
      · cases hstep
    | receiveClosed =>
      simp only [step] at hstep
      split at hstep
      · next newMemZone hloading hsender =>
        split at hstep
        · next hvalid =>
          cases hstep
          exact .installed hloading hsender hvalid
        · next e hinvalid =>
          cases hstep
          exact .invalid hloading hsender hinvalid
      · cases hstep
  · intro hmoves
    cases hmoves with
    | start hsender hmaster => simp only [step, hsender, hmaster]
    | receive hloading hsender hadd => simpa only [step, hloading, hsender] using hadd
    | finished hsender | failed hsender => simp only [step, hsender]
    | abort hloading hsender => simp only [step, hloading, hsender]
    | close hsender => simp only [step, hsender]
    | installed hloading hsender hvalid => simp only [step, hloading, hsender, hvalid]
    | invalid hloading hsender hinvalid => simp only [step, hloading, hsender, hinvalid]

end definitions

end Loader

def Admitted (origin : Name) : ZoneMap → List (RRset Rdata) → Prop
  | _, [] => True
  | m, r :: rs => (m.Accepts origin r ∨ r.typ = .ns ∧ r.name.isWildCard = true) ∧
    Admitted origin (m.offer origin r) rs

theorem Admitted.concat {origin : Name} {m : ZoneMap} {rs : List (RRset Rdata)} {r : RRset Rdata}
    (hrs : Admitted origin m rs)
    (hr : (rs.foldl (ZoneMap.offer origin) m).Accepts origin r ∨
      r.typ = .ns ∧ r.name.isWildCard = true) : Admitted origin m (rs ++ [r]) := by
  induction rs generalizing m with
  | nil => exact ⟨hr, trivial⟩
  | cons r' rs ih => exact ⟨hrs.1, ih hrs.2 hr⟩

/-- What the RRsets make of the empty map, of which only NS RRsets of wildcards were refused. -/
structure MadeOf (origin : Name) (rs : List (RRset Rdata)) (m : ZoneMap) : Prop where
  eq_foldl : m = rs.foldl (ZoneMap.offer origin) fun _ _ => none
  admitted : Admitted origin (fun _ _ => none) rs

def Master.Parsed (h : Objects) (master : Master AnswerRRset) : Prop :=
  ∀ rrsets, .message rrsets ∈ master.reads → ∀ rrset ∈ rrsets,
    (ZoneOp.add rrset.ptr).WellFormed h ∧ rrset.value = h.value rrset.ptr

/-- What `Load` has received of what `doAXFR` sends, by where the goroutine is. -/
inductive Fed (received : List AnswerRRset) (plan : List AnswerRRset × Option AxfrError) :
    Sender → Prop
  | spawned (hreceived : received = []) : Fed received plan .spawned
  | sending {rrsets : List AnswerRRset} {err : Option AxfrError}
    (hplan : plan = (received ++ rrsets, err)) : Fed received plan (.sending rrsets err)
  | aborting : Fed received plan .aborting
  | closing (hplan : plan = (received, none)) : Fed received plan .closing
  | closed (hplan : plan = (received, none)) : Fed received plan .closed

namespace Loader

variable [LawfulDomainTree T NameNode]

structure Built (origin : Name) (rrsets : List AnswerRRset) (objects : Objects)
    (z : MemoryZone T) : Prop where
  intact : Intact origin (⟨objects, z, []⟩ : ZoneState T)
  content : MadeOf origin (rrsets.map AnswerRRset.value) (z.content objects)

theorem Built.newMemoryZone (objects : Objects) (origin : Name) :
    Built origin [] objects (newMemoryZone origin : MemoryZone T) :=
  ⟨.newMemoryZone objects origin, content_newMemoryZone objects origin, trivial⟩

theorem Built.addRRset {origin : Name} {rrsets : List AnswerRRset} {objects : Objects}
    {z : MemoryZone T} (hz : Built origin rrsets objects z) {rrset : AnswerRRset}
    (hrrset : (ZoneOp.add rrset.ptr).WellFormed objects)
    (hvalue : rrset.value = objects.value rrset.ptr) {o : Outcome T}
    (hok : z.addRRset objects rrset.ptr = .ok o)
    (herr : o.err = none ∨ o.err = some .noEffectiveUpdate) :
    Built origin (rrsets ++ [rrset]) o.objects o.zone := by
  have horigin : z.origin = origin := hz.intact.origin_eq
  have hcontent := MemoryZone.content_addRRset_eq hz.intact.wellFormed hz.intact.filled hok
  rw [horigin, ← hvalue, hz.content.eq_foldl] at hcontent
  refine ⟨hz.intact.addRRset hrrset hok [], ?_, ?_⟩
  · rw [hcontent, List.map_append, List.foldl_append]
    rfl
  · rw [List.map_append]
    refine hz.content.admitted.concat ?_
    rw [← hz.content.eq_foldl]
    have haccepts := MemoryZone.accepts_or_of_addRRset hz.intact.wellFormed hz.intact.filled hok
    rw [horigin, ← hvalue] at haccepts
    rcases haccepts with haccepts | ⟨_, hcut⟩ | hother | hother
    · exact .inl haccepts
    · exact .inr hcut
    all_goals rcases herr with herr | herr <;> exact nomatch herr.symm.trans hother

end Loader

end Vanguard.Auth
