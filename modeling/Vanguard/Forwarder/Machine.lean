import Vanguard.Dns.Name
import Vanguard.Library.Runs
import Vanguard.Library.Threads

/-!
# Clients and probes at the upstream servers

The forward zones of all views share one `SafeUDPFwder` for each address, and the stub zones one
sender. A client sets the query source and sends its query afterwards. `Prober` asks the forwarders
that are down. Each locked section and each access to a shared field is one step.
-/

namespace Vanguard.Forwarder

open Library

/-- `SafeUDPFwder`, without its address and the time the last reply took. -/
structure SafeUDPFwder where
  fwder : Option String
  lastFailTime : ℤ
  isDown : Bool
  deriving DecidableEq, Repr

namespace SafeUDPFwder

def new : SafeUDPFwder := ⟨none, 0, false⟩

/-- `SetQuerySource`, where `NewSafeUDPSender` succeeds. -/
def setQuerySource (ip : String) (f : SafeUDPFwder) : SafeUDPFwder := { f with fwder := some ip }

def checkStatus (bearableFailInterval now : ℤ) (err : Bool) (f : SafeUDPFwder) : SafeUDPFwder :=
  if err = false then { f with lastFailTime := 0, isDown := false }
  else if f.lastFailTime = 0 then { f with lastFailTime := now, isDown := false }
  else { f with isDown := bearableFailInterval ≤ now - f.lastFailTime }

@[simp] theorem fwder_checkStatus (interval now : ℤ) (err : Bool) (f : SafeUDPFwder) :
    (f.checkStatus interval now err).fwder = f.fwder := by
  unfold checkStatus
  split_ifs <;> rfl

end SafeUDPFwder

inductive ZoneFwder where
  | one (addr : String)
  | group (addrs : List String)
  deriving DecidableEq, Repr

structure Conf where
  querySource : String → String
  /-- `ModuleStubZone` is enabled. -/
  stub : Bool
  /-- `ModuleForwarder` is enabled. -/
  forwarder : Bool
  masters : String → Name → Option (List String)
  fwder : String → Name → Option ZoneFwder
  bearableFailInterval : ℤ

def maxRetryCount : ℕ := 2

/-- Where the goroutine of a client is. The number is how often `FwderGroup.Forward` may still try.
-/
inductive Phase where
  /-- It comes to `StubZoneManager.Resolve`. -/
  | stub
  | masters
  /-- It comes to `Forwarder.processRequest`. -/
  | forward
  /-- It is in the loop of `SelectorBase.SetQuerySource`. -/
  | setting (todo : List String)
  /-- It has found the forwarder up and is going to set its query source. -/
  | storing (addr : String) (todo : List String)
  /-- It is going to call `SelectFwder`. -/
  | selecting (tries : ℕ)
  | querying (addr : String) (tries : ℕ)
  | waiting (addr : String) (tries : ℕ)
  /-- It has called `checkStatus` and is going to call `IsDown`. -/
  | checking (addr : String) (tries : ℕ) (err : Bool)
  /-- It is going to call `AddProbe`. -/
  | adding (addr : String) (tries : ℕ) (err : Bool)
  deriving DecidableEq, Repr

structure Thread where
  view : String
  name : Name
  phase : Phase
  /-- The forwarders whose query source it has set, which nobody looks at. -/
  stored : List String
  deriving DecidableEq, Repr

structure Sent where
  view : String
  source : String
  deriving DecidableEq, Repr

inductive Worker where
  | probing (addr : String)
  | failed (addr : String)
  | restored (addr : String)
  deriving DecidableEq, Repr

def Worker.addr : Worker → String
  | .probing addr => addr
  | .failed addr => addr
  | .restored addr => addr

structure Prober where
  targets : List String
  targetFwders : List String
  /-- What `run` has taken and not sent to a worker yet. -/
  probeTargets : List String
  workers : List Worker
  deriving DecidableEq, Repr

def probeRoutineCount : ℕ := 10

section

variable (p : Prober)

/-- `run` takes targets. -/
def Prober.take : Prober :=
  { p with
    targets := p.targets.drop probeRoutineCount
    probeTargets := p.targets.take probeRoutineCount }

def Prober.without (i : ℕ) : Prober := { p with workers := p.workers.eraseIdx i }

def Prober.pushBack (addr : String) : Prober :=
  { p with targets := p.targets ++ [addr] }

def Prober.addProbe (addr : String) : Prober :=
  if p.targetFwders.contains addr then p
  else { p with targetFwders := addr :: p.targetFwders }.pushBack addr

def Prober.remove (addr : String) : Prober :=
  { p with targetFwders := p.targetFwders.erase addr }

/-- `SendTask` of the first target that `run` has taken, with what becomes of it. -/
def Prober.sendTask (accepted : Bool) : Prober :=
  match p.probeTargets with
  | [] => p
  | addr :: rest =>
    if accepted then { p with probeTargets := rest, workers := p.workers ++ [.probing addr] }
    else { p with probeTargets := rest }.pushBack addr

end

structure State where
  fwders : String → SafeUDPFwder
  stubSender : Option String
  threads : List Thread
  /-- The views of the goroutines about to query a master with the sender of the stub zones. -/
  readers : List String
  prober : Prober
  sent : List Sent

def State.init : State := ⟨fun _ => .new, none, [], [], ⟨[], [], [], []⟩, []⟩

def State.put (s : State) (t : Thread) : State := { s with threads := s.threads ++ [t] }

def State.setFwder (s : State) (addr : String) (f : SafeUDPFwder) : State :=
  { s with fwders := Function.update s.fwders addr f }

@[simp] theorem State.fwders_setFwder_self (s : State) (addr : String) (f : SafeUDPFwder) :
    (s.setFwder addr f).fwders addr = f := by
  simp [State.setFwder]

theorem State.fwders_setFwder_of_ne (s : State) {addr a : String} (f : SafeUDPFwder)
    (ha : a ≠ addr) : (s.setFwder addr f).fwders a = s.fwders a := by
  simp [State.setFwder, ha]

structure Input where
  /-- Whether `NewSafeUDPSender` succeeds, the response is no referral, or the server replies. -/
  ok : Bool
  /-- What `SelectFwder` chooses, none for nil. -/
  choice : Option String
  now : ℤ
  deriving DecidableEq, Repr

section client

variable (conf : Conf)

/-- The end of `Forward`, or the next try of a group. -/
def Thread.retry (t : Thread) (tries : ℕ) (err : Bool) (s : State) : State :=
  if err ∧ 0 < tries then s.put { t with phase := .selecting tries } else s

/-- `SetQuerySource` of one forwarder, and what comes after it. -/
def Thread.store (t : Thread) (addr : String) (todo : List String) (s : State) : State :=
  let s := s.setFwder addr ((s.fwders addr).setQuerySource (conf.querySource t.view))
  let t := { t with stored := addr :: t.stored }
  match conf.fwder t.view t.name with
  | some (.group _) => s.put { t with phase := .setting todo }
  | _ => s.put { t with phase := .querying addr 0 }

/-- The forwarders that `SelectFwder` may choose. -/
def Thread.candidates (t : Thread) : List String :=
  match conf.fwder t.view t.name with
  | some (.group addrs) => addrs
  | _ => []

def Thread.step (t : Thread) (x : Input) (s : State) : State :=
  match t.phase with
  | .stub =>
    if x.ok then
      { s with stubSender := some (conf.querySource t.view) }.put { t with phase := .masters }
    else s
  | .masters =>
    if x.ok then
      match conf.masters t.view t.name with
      | some masters => { s with readers := s.readers ++ masters.map fun _ => t.view }
      | none => if conf.forwarder then s.put { t with phase := .forward } else s
    else s
  | .forward =>
    if x.ok then
      match conf.fwder t.view t.name with
      | none => s
      | some (.one addr) => s.put { t with phase := .storing addr [] }
      | some (.group addrs) => s.put { t with phase := .setting addrs }
    else s
  | .setting [] => s.put { t with phase := .selecting maxRetryCount }
  | .setting (addr :: todo) =>
    if (s.fwders addr).isDown then s.put { t with phase := .setting todo }
    else s.put { t with phase := .storing addr todo }
  | .storing addr todo => if x.ok then t.store conf addr todo s else s
  | .selecting 0 => s
  | .selecting (tries + 1) =>
    match x.choice with
    | none => s.put { t with phase := .selecting tries }
    | some addr =>
      -- The policies choose differently, but each of them a forwarder of the group that is up.
      if (t.candidates conf).contains addr && !(s.fwders addr).isDown then
        s.put { t with phase := .querying addr tries }
      else s.put { t with phase := .selecting tries }
  | .querying addr tries =>
    match (s.fwders addr).fwder with
    | none => s
    | some source =>
      { s with sent := ⟨t.view, source⟩ :: s.sent }.put { t with phase := .waiting addr tries }
  | .waiting addr tries =>
    let fwder := (s.fwders addr).checkStatus conf.bearableFailInterval x.now (!x.ok)
    (s.setFwder addr fwder).put { t with phase := .checking addr tries (!x.ok) }
  | .checking addr tries err =>
    if (s.fwders addr).isDown then s.put { t with phase := .adding addr tries err }
    else t.retry tries err s
  | .adding addr tries err => t.retry tries err { s with prober := s.prober.addProbe addr }

inductive Thread.GoesTo (conf : Conf) (t : Thread) (x : Input) (s : State) : Phase → Prop
  | forward (hphase : t.phase = .masters) : t.GoesTo conf x s .forward
  | one {addr : String} (hphase : t.phase = .forward)
    (hone : conf.fwder t.view t.name = some (.one addr)) : t.GoesTo conf x s (.storing addr [])
  | group {addrs : List String} (hphase : t.phase = .forward)
    (hgroup : conf.fwder t.view t.name = some (.group addrs)) : t.GoesTo conf x s (.setting addrs)
  | set (hphase : t.phase = .setting []) : t.GoesTo conf x s (.selecting maxRetryCount)
  | pass {addr : String} {todo : List String} (hphase : t.phase = .setting (addr :: todo))
    (hdown : (s.fwders addr).isDown = true) : t.GoesTo conf x s (.setting todo)
  | store {addr : String} {todo : List String} (hphase : t.phase = .setting (addr :: todo)) :
    t.GoesTo conf x s (.storing addr todo)
  | again {tries : ℕ} (hphase : t.phase = .selecting (tries + 1)) :
    t.GoesTo conf x s (.selecting tries)
  | choose {addr : String} {tries : ℕ} (hphase : t.phase = .selecting (tries + 1))
    (hchoice : x.choice = some addr) (hmem : addr ∈ t.candidates conf)
    (hup : (s.fwders addr).isDown = false) : t.GoesTo conf x s (.querying addr tries)
  | down {addr : String} {tries : ℕ} {err : Bool} (hphase : t.phase = .checking addr tries err) :
    t.GoesTo conf x s (.adding addr tries err)

inductive Thread.Moves (conf : Conf) (t : Thread) (x : Input) (s : State) : State → Prop
  | ends : t.Moves conf x s s
  | setStub (hphase : t.phase = .stub) (hok : x.ok = true) : t.Moves conf x s
    ({ s with stubSender := some (conf.querySource t.view) }.put { t with phase := .masters })
  | askMasters (hphase : t.phase = .masters) (masters : List String) : t.Moves conf x s
    { s with readers := s.readers ++ masters.map fun _ => t.view }
  | goesOn {phase : Phase} (hgoes : t.GoesTo conf x s phase) :
    t.Moves conf x s (s.put { t with phase })
  | stored {addr : String} {todo : List String} (hphase : t.phase = .storing addr todo)
    (hok : x.ok = true) : t.Moves conf x s (t.store conf addr todo s)
  | queried {addr source : String} {tries : ℕ} (hphase : t.phase = .querying addr tries)
    (hsource : (s.fwders addr).fwder = some source) : t.Moves conf x s
    ({ s with sent := ⟨t.view, source⟩ :: s.sent }.put { t with phase := .waiting addr tries })
  | replied {addr : String} {tries : ℕ} (hphase : t.phase = .waiting addr tries) :
    t.Moves conf x s ((s.setFwder addr ((s.fwders addr).checkStatus conf.bearableFailInterval x.now
      (!x.ok))).put { t with phase := .checking addr tries (!x.ok) })
  | checked {addr : String} {tries : ℕ} {err : Bool} (hphase : t.phase = .checking addr tries err)
    (hup : (s.fwders addr).isDown = false) : t.Moves conf x s (t.retry tries err s)
  | added {addr : String} {tries : ℕ} {err : Bool} (hphase : t.phase = .adding addr tries err) :
    t.Moves conf x s (t.retry tries err { s with prober := s.prober.addProbe addr })

theorem Thread.moves_of_step {conf : Conf} {t : Thread} {x : Input} {s s' : State}
    (hstep : t.step conf x s = s') : t.Moves conf x s s' := by
  subst hstep
  unfold Thread.step
  cases hphase : t.phase with
  | stub =>
    dsimp only
    split_ifs with hok
    · exact .setStub hphase hok
    · exact .ends
  | masters =>
    dsimp only
    split
    · split
      · next masters _ => exact .askMasters hphase masters
      · split_ifs
        · exact .goesOn (.forward hphase)
        · exact .ends
    · exact .ends
  | forward =>
    dsimp only
    split_ifs
    · split
      · exact .ends
      · next hone => exact .goesOn (.one hphase hone)
      · next hgroup => exact .goesOn (.group hphase hgroup)
    · exact .ends
  | setting todo =>
    cases todo with
    | nil => exact .goesOn (.set hphase)
    | cons addr todo =>
      dsimp only
      split_ifs with hdown
      · exact .goesOn (.pass hphase hdown)
      · exact .goesOn (.store hphase)
  | storing addr todo =>
    dsimp only
    split_ifs with hok
    · exact .stored hphase hok
    · exact .ends
  | selecting tries =>
    cases tries with
    | zero => exact .ends
    | succ tries =>
      dsimp only
      split
      · exact .goesOn (.again hphase)
      · next hchoice =>
        split_ifs with hup
        · obtain ⟨hmem, hup⟩ := Bool.and_eq_true_iff.mp hup
          exact .goesOn (.choose hphase hchoice (by simpa using hmem) (by simpa using hup))
        · exact .goesOn (.again hphase)
  | querying addr tries =>
    dsimp only
    split
    · exact .ends
    · next hsource => exact .queried hphase hsource
  | waiting addr tries => exact .replied hphase
  | checking addr tries err =>
    dsimp only
    split_ifs with hdown
    · exact .goesOn (.down hphase)
    · exact .checked hphase (by simpa using hdown)
  | adding addr tries err => exact .added hphase

def newThread (view : String) (name : Name) : Thread :=
  ⟨view, name, if conf.stub then .stub else .forward, []⟩

end client

inductive Event where
  | resolve (view : String) (name : Name)
  | client (i : ℕ) (x : Input)
  /-- The goroutine of a stub zone with this index sends its query. -/
  | read (i : ℕ)
  /-- `run` takes targets. -/
  | tick
  /-- `run` sends a target to the pool, which takes it or is too busy. -/
  | sendTask (accepted : Bool)
  | probe (i : ℕ) (ok : Bool) (now : ℤ)
  /-- The worker with this index puts its target back or gives it up. -/
  | finish (i : ℕ)
  deriving DecidableEq, Repr

inductive NotEnabled where
  | mk
  deriving DecidableEq, Repr

section step

variable (conf : Conf)

/-- `z.sender.Query` for a client of the view. -/
def State.readSender (s : State) (view : String) : State :=
  match s.stubSender with
  | none => s
  | some source => { s with sent := ⟨view, source⟩ :: s.sent }

/-- `Forward` of a worker. -/
def State.probe (s : State) (addr : String) (ok : Bool) (now : ℤ) : State :=
  let fwder := (s.fwders addr).checkStatus conf.bearableFailInterval now (!ok)
  { s.setFwder addr fwder with prober := { s.prober with
      workers := s.prober.workers ++ [if ok then .restored addr else .failed addr] } }

def State.step (s : State) : Event → Except NotEnabled State
  | .resolve view name =>
    if conf.stub || conf.forwarder then .ok (s.put (newThread conf view name)) else .error .mk
  | .client i x =>
    match s.threads[i]? with
    | none => .error .mk
    | some t => .ok (t.step conf x { s with threads := s.threads.eraseIdx i })
  | .read i =>
    match s.readers[i]? with
    | none => .error .mk
    | some view => .ok ({ s with readers := s.readers.eraseIdx i }.readSender view)
  | .tick =>
    if s.prober.probeTargets = [] then .ok { s with prober := s.prober.take } else .error .mk
  | .sendTask accepted => .ok { s with prober := s.prober.sendTask accepted }
  | .probe i ok now =>
    match s.prober.workers[i]? with
    | some (.probing addr) =>
      .ok ({ s with prober := s.prober.without i }.probe conf addr ok now)
    | _ => .error .mk
  | .finish i =>
    match s.prober.workers[i]? with
    | some (.failed addr) => .ok { s with prober := (s.prober.without i).pushBack addr }
    | some (.restored addr) => .ok { s with prober := (s.prober.without i).remove addr }
    | _ => .error .mk

inductive Moves (s : State) : Event → State → Prop
  | resolve (view : String) (name : Name) (henabled : (conf.stub || conf.forwarder) = true) :
    Moves s (.resolve view name) (s.put (newThread conf view name))
  | client {i : ℕ} {t : Thread} (x : Input) (hi : s.threads[i]? = some t) :
    Moves s (.client i x) (t.step conf x { s with threads := s.threads.eraseIdx i })
  | read {i : ℕ} {view : String} (hi : s.readers[i]? = some view) :
    Moves s (.read i) ({ s with readers := s.readers.eraseIdx i }.readSender view)
  /-- `run` takes targets. -/
  | tick (hempty : s.prober.probeTargets = []) : Moves s .tick { s with prober := s.prober.take }
  /-- `run` sends a target to the pool. -/
  | sendTask (accepted : Bool) :
    Moves s (.sendTask accepted) { s with prober := s.prober.sendTask accepted }
  | probe {i : ℕ} {addr : String} (ok : Bool) (now : ℤ)
    (hi : s.prober.workers[i]? = some (.probing addr)) :
    Moves s (.probe i ok now) ({ s with prober := s.prober.without i }.probe conf addr ok now)
  | failed {i : ℕ} {addr : String} (hi : s.prober.workers[i]? = some (.failed addr)) :
    Moves s (.finish i) { s with prober := (s.prober.without i).pushBack addr }
  | restored {i : ℕ} {addr : String} (hi : s.prober.workers[i]? = some (.restored addr)) :
    Moves s (.finish i) { s with prober := (s.prober.without i).remove addr }

variable {conf}

theorem moves_of_step {s s' : State} {event : Event} (hstep : s.step conf event = .ok s') :
    Moves conf s event s' := by
  cases event with
  | resolve view name =>
    simp only [State.step] at hstep
    split_ifs at hstep with henabled
    cases hstep
    exact .resolve view name henabled
  | client i x =>
    simp only [State.step] at hstep
    split at hstep
    · cases hstep
    · next hi =>
      cases hstep
      exact .client x hi
  | read i =>
    simp only [State.step] at hstep
    split at hstep
    · cases hstep
    · next hi =>
      cases hstep
      exact .read hi
  | tick =>
    simp only [State.step] at hstep
    split_ifs at hstep with hempty
    cases hstep
    exact .tick hempty
  | sendTask accepted =>
    cases hstep
    exact .sendTask accepted
  | probe i ok now =>
    simp only [State.step] at hstep
    split at hstep
    · next hi =>
      cases hstep
      exact .probe ok now hi
    · cases hstep
  | finish i =>
    simp only [State.step] at hstep
    split at hstep
    · next hi =>
      cases hstep
      exact .failed hi
    · next hi =>
      cases hstep
      exact .restored hi
    · cases hstep

end step

end Vanguard.Forwarder
