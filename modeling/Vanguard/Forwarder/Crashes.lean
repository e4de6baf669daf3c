import Vanguard.Forwarder.Closest
import Vanguard.Forwarder.Groups
import Vanguard.Forwarder.Senders

namespace Vanguard.Forwarder.Views

open Library List Option

def ZoneFwder.Stocked (groups : Heap FwderGroup) (z : ZoneFwder) : Prop :=
  z.matchType = .exception ∨ ∀ p, z.fwderGroup = .group p →
    p < groups.next ∧ (groups.load p).selector.getFwders ≠ []

theorem ZoneFwder.Stocked.of_keeps {groups groups' : Heap FwderGroup} {z : ZoneFwder}
    (hz : z.Stocked groups) (hkeeps : Keeps groups groups') : z.Stocked groups' := by
  refine hz.imp_right fun hgroup p hp => ?_
  obtain ⟨hlt, hne⟩ := hgroup p hp
  exact ⟨lt_of_lt_of_le hlt hkeeps.next_le, ne_nil_of_perm (hkeeps.perm p hlt) hne⟩

def ForwardZoneParam.Harmless (z : ForwardZoneParam) : Prop :=
  z.forwardStyle = fwderMatchException ∨ z.forwarders ≠ []

instance ForwardZoneParam.decidableHarmless (z : ForwardZoneParam) : Decidable z.Harmless :=
  inferInstanceAs (Decidable (_ ∨ _))

@[simp] theorem getFwders_createSelector (policy : FwdSelectPolicy) (fwders : List String) :
    (createSelector policy fwders).getFwders = fwders := by
  cases policy <;> rfl

section

variable (groups : Heap FwderGroup) (style : String) (forwarders : List String)

theorem newZoneForwarder_keeps : Keeps groups (newZoneForwarder groups style forwarders).1 := by
  unfold newZoneForwarder
  dsimp only
  split
  · exact .refl _
  · exact .of_extends (groups.extends_alloc _)

theorem matchType_newZoneForwarder :
    (newZoneForwarder groups style forwarders).2.matchType =
      if style = fwderMatchException then .exception else .subdomain := by
  unfold newZoneForwarder
  dsimp only
  split <;> rfl

end

theorem newZoneForwarder_group {groups : Heap FwderGroup} {style : String}
    {forwarders : List String} {p : Ptr}
    (hp : (newZoneForwarder groups style forwarders).2.fwderGroup = .group p) :
    p < (newZoneForwarder groups style forwarders).1.next ∧
      ((newZoneForwarder groups style forwarders).1.load p).selector.getFwders = forwarders := by
  unfold newZoneForwarder at hp ⊢
  dsimp only at hp ⊢
  split at hp
  · cases hp
  · cases hp
    rw [Heap.load_alloc, getFwders_createSelector]
    exact ⟨Nat.lt_succ_self _, rfl⟩

theorem stocked_newZoneForwarder (groups : Heap FwderGroup) {style : String}
    {forwarders : List String} (h : style = fwderMatchException ∨ forwarders ≠ []) :
    (newZoneForwarder groups style forwarders).2.Stocked
      (newZoneForwarder groups style forwarders).1 := by
  rcases h with rfl | hne
  · refine .inl ?_
    rw [matchType_newZoneForwarder, if_pos rfl]
  · refine .inr fun p hp => ?_
    obtain ⟨hlt, hfwders⟩ := newZoneForwarder_group hp
    rw [hfwders]
    exact ⟨hlt, hne⟩

section zones

variable {B T : Type} [NameTree T ZoneFwder] {nameFromString : String → Except String Name}

def ViewFwderMgr.Stocked (mgr : ViewFwderMgr T) : Prop :=
  ∀ view zones, mgr.fwders view = some zones → ∀ name z, NameTree.get zones name = some z →
    z.Stocked mgr.groups

variable {mgr : ViewFwderMgr T} {sort : ℕ → SortProgram}

theorem ViewFwderMgr.Stocked.update (hmgr : mgr.Stocked) {view : String} {zones zones' : T}
    {groups : Heap FwderGroup} (hview : mgr.fwders view = some zones)
    (hkeeps : Keeps mgr.groups groups)
    (hnew : ∀ m w, NameTree.get zones' m = some w →
      NameTree.get zones m = some w ∨ w.Stocked groups) :
    ViewFwderMgr.Stocked ⟨Function.update mgr.fwders view (some zones'), groups⟩ := by
  intro v zs hv m w hget
  dsimp only at hv
  by_cases hvv : v = view
  · subst hvv
    rw [Function.update_self] at hv
    cases hv
    exact (hnew m w hget).elim (fun hold => (hmgr v zones hview m w hold).of_keeps hkeeps) id
  · rw [Function.update_of_ne hvv] at hv
    exact (hmgr v zs hv m w hget).of_keeps hkeeps

theorem ViewFwderMgr.Stocked.of_keeps (hmgr : mgr.Stocked) {groups : Heap FwderGroup}
    (hkeeps : Keeps mgr.groups groups) : ViewFwderMgr.Stocked { mgr with groups } :=
  fun view zones hview name z hget => (hmgr view zones hview name z hget).of_keeps hkeeps

theorem get_of_deleteZoneFwder [ErasableNameTree T ZoneFwder] [LawfulErasableNameTree T ZoneFwder]
    {zones zones' : T} {name : String} (hok : deleteZoneFwder nameFromString zones name = .ok zones')
    {m : Name} {w : ZoneFwder} (hget : NameTree.get zones' m = some w) :
    NameTree.get zones m = some w := by
  unfold deleteZoneFwder at hok
  cases hname : nameFromString name with
  | error e => simp [hname, Except.map] at hok
  | ok dname =>
    rw [hname] at hok
    cases hok
    rw [LawfulErasableNameTree.get_delete] at hget
    split_ifs at hget
    exact hget

variable [LawfulNameTree T ZoneFwder]

theorem getFwder_eq_some {zones : T} {name : Name} {fwder : SafeFwder}
    (hget : getFwder zones name = some fwder) :
    ∃ zone z, NameTree.get zones zone = some z ∧ z.target = some fwder := by
  rw [getFwder_eq_longestSuffix] at hget
  obtain ⟨zone, -, hzone⟩ := bind_eq_some_iff.mp hget
  obtain ⟨z, hz, htarget⟩ := bind_eq_some_iff.mp hzone
  exact ⟨zone, z, hz, htarget⟩

theorem getFwder_of_closest {zones : T} {zone name : Name} {z : ZoneFwder}
    (hget : NameTree.get zones zone = some z) (htype : z.matchType ≠ .exact) (hle : zone <:+ name)
    (hcloser : ∀ m, zone <:+ m → m <:+ name → m ≠ zone → NameTree.get zones m = none) :
    getFwder zones name = z.target := by
  have hstop : longestSuffix (stopsAt zones (NameTree.get zones name).isSome) name = some zone := by
    refine longestSuffix_eq_some.mpr ⟨hle, by simp [stopsAt, hget, htype], fun k hk hstops => ?_⟩
    rcases suffix_or_suffix_of_suffix hk hle with hsub | hsub
    · exact hsub
    · by_cases hkz : k = zone
      · rw [hkz]
      · rw [stopsAt, hcloser k hsub hk hkz] at hstops
        cases hstops
  rw [getFwder_eq_longestSuffix, hstop, bind_some, hget, bind_some]

theorem get_of_addZoneFwder {zones zones' : T} {name : String} {z : ZoneFwder}
    (hok : addZoneFwder nameFromString zones name z = .ok zones') {m : Name} {w : ZoneFwder}
    (hget : NameTree.get zones' m = some w) : NameTree.get zones m = some w ∨ w = z := by
  unfold addZoneFwder at hok
  split at hok
  · cases hok
  · next dname hname =>
    split_ifs at hok with hsome
    cases hok
    rw [NameTree.get_insert] at hget
    split_ifs at hget with hm
    · rw [not_isSome_iff_eq_none.mp hsome] at hget
      exact .inr (Option.some.inj hget).symm
    · exact .inl hget

theorem ViewFwderMgr.Stocked.add (hmgr : mgr.Stocked) {z : ForwardZoneParam} (hz : z.Harmless)
    {zones zones' : T} (hview : mgr.fwders z.view = some zones)
    (hok : addZoneFwder nameFromString zones z.name
      (newZoneForwarder mgr.groups z.forwardStyle z.forwarders).2 = .ok zones') :
    ViewFwderMgr.Stocked ⟨Function.update mgr.fwders z.view (some zones'),
      (newZoneForwarder mgr.groups z.forwardStyle z.forwarders).1⟩ := by
  refine hmgr.update hview (newZoneForwarder_keeps _ _ _) fun m w hget => ?_
  exact (get_of_addZoneFwder hok hget).imp_right fun hw => by
    rw [hw]
    exact stocked_newZoneForwarder _ hz

section

variable {zs : List ForwardZoneParam} (hmgr : mgr.Stocked) (hzs : ∀ z ∈ zs, z.Harmless)

include hmgr hzs

theorem ViewFwderMgr.Stocked.addForwardZone : (mgr.addForwardZone nameFromString zs).1.Stocked := by
  induction zs generalizing mgr with
  | nil => exact hmgr
  | cons z zs ih =>
    unfold ViewFwderMgr.addForwardZone
    split
    · exact hmgr
    · next zones hview =>
      dsimp only
      split
      · exact hmgr.of_keeps (newZoneForwarder_keeps _ _ _)
      · next zones' hok =>
        exact ih (hmgr.add (hzs z mem_cons_self) hview hok) fun w hw => hzs w (mem_cons_of_mem _ hw)

theorem ViewFwderMgr.Stocked.loadZones {mgr' : ViewFwderMgr T}
    (hload : mgr.loadZones nameFromString zs = some mgr') : mgr'.Stocked := by
  induction zs generalizing mgr with
  | nil =>
    cases hload
    exact hmgr
  | cons z zs ih =>
    unfold ViewFwderMgr.loadZones at hload
    split at hload
    · cases hload
    · next zones hview =>
      dsimp only at hload
      split at hload
      · cases hload
      · next zones' hok =>
        exact ih (hmgr.add (hzs z mem_cons_self) hview hok)
          (fun w hw => hzs w (mem_cons_of_mem _ hw)) hload

end

def Event.zones : Event B → List ForwardZoneParam
  | .reloadConfig _ zones => zones
  | .addForwardZone zones => zones
  | .updateForwardZone zone => [zone]
  | .deleteForwardZone _ _ => []
  | .query _ => []

theorem ViewFwderMgr.Stocked.query (hsort : Sorts Time sort) (hmgr : mgr.Stocked)
    (r : Request B) : ∃ result, processRequest sort mgr r = .ok result ∧ result.1.Stocked := by
  have hgroup : ∀ p, mgr.getFwder r.view r.name = some (.group p) →
      (mgr.groups.load p).selector.getFwders ≠ [] := by
    intro p hp
    obtain ⟨zones, hview, hget⟩ := bind_eq_some_iff.mp hp
    obtain ⟨zone, z, hz, htarget⟩ := getFwder_eq_some hget
    unfold ZoneFwder.target at htarget
    split_ifs at htarget with hexception
    exact ((hmgr _ zones hview zone z hz).resolve_left hexception p (Option.some.inj htarget)).2
  obtain ⟨result, hok, hfwders, hkeeps⟩ := processRequest_returns hsort hgroup
  refine ⟨result, hok, ?_⟩
  have hkept := hmgr.of_keeps hkeeps
  rw [← hfwders] at hkept
  exact hkept

variable [ErasableNameTree T ZoneFwder]

theorem add_then_query_iff (hsort : Sorts Time sort) (mgr : ViewFwderMgr T) {zones : T}
    {text style : String} {forwarders : List String} {dname : Name} {r : Request B}
    (hview : mgr.fwders r.view = some zones) (hname : nameFromString text = .ok dname)
    (hle : dname <:+ r.name)
    (hcloser : ∀ m, dname <:+ m → m <:+ r.name → NameTree.get zones m = none) :
    (∀ p, run (ViewFwderMgr.step nameFromString sort) mgr
      [.addForwardZone [⟨r.view, text, forwarders, style⟩], .query r] ≠ .error (.panic p)) ↔
      style = fwderMatchException ∨ forwarders ≠ [] := by
  have hnone := hcloser dname suffix_rfl hle
  have htype := matchType_newZoneForwarder mgr.groups style forwarders
  have hdecides : getFwder (NameTree.insert zones dname
      (newZoneForwarder mgr.groups style forwarders).2) r.name =
        (newZoneForwarder mgr.groups style forwarders).2.target := by
    have hself : NameTree.get (NameTree.insert zones dname
        (newZoneForwarder mgr.groups style forwarders).2) dname =
        some (newZoneForwarder mgr.groups style forwarders).2 := by
      rw [NameTree.get_insert, if_pos rfl, hnone, getD_none]
    refine getFwder_of_closest hself ?_ hle fun m hm hmr hne => ?_
    · rw [htype]
      split_ifs <;> simp
    · rw [NameTree.get_insert, if_neg hne]
      exact hcloser m hm hmr
  obtain ⟨added, hadded, hget, hgroups⟩ : ∃ added, mgr.step nameFromString sort
      (.addForwardZone [⟨r.view, text, forwarders, style⟩] : Event B) = .ok added ∧
      added.getFwder r.view r.name = (newZoneForwarder mgr.groups style forwarders).2.target ∧
      added.groups = (newZoneForwarder mgr.groups style forwarders).1 := by
    refine ⟨_, rfl, ?_⟩
    simp [ViewFwderMgr.addForwardZone, hview, addZoneFwder, hname, hnone, ViewFwderMgr.getFwder,
      hdecides]
  simp only [run, hadded]
  constructor
  · intro hsafe
    by_contra hbad
    obtain ⟨hstyle, hnil⟩ := not_or.mp hbad
    obtain rfl := not_not.mp hnil
    have hgroup : (newZoneForwarder mgr.groups style []).2.fwderGroup =
        .group mgr.groups.next := rfl
    rw [ZoneFwder.target, htype, if_neg hstyle, if_neg (by simp), hgroup] at hget
    have hempty : (added.groups.load mgr.groups.next).selector.getFwders = [] := by
      rw [hgroups]
      exact (newZoneForwarder_group hgroup).2
    obtain ⟨panic, hpanic⟩ := processRequest_panics hsort hget hempty
    exact hsafe panic (by simp only [ViewFwderMgr.step, hpanic])
  · intro hgood p hrun
    have hgroup : ∀ q, added.getFwder r.view r.name = some (.group q) →
        (added.groups.load q).selector.getFwders ≠ [] := by
      intro q hq
      rw [hget] at hq
      unfold ZoneFwder.target at hq
      split_ifs at hq with hexception
      rw [hgroups]
      exact ((stocked_newZoneForwarder mgr.groups hgood).resolve_left hexception q
        (Option.some.inj hq)).2
    obtain ⟨result, hok, -⟩ := processRequest_returns hsort hgroup
    simp only [ViewFwderMgr.step, hok] at hrun
    cases hrun

variable [LawfulErasableNameTree T ZoneFwder]

theorem ViewFwderMgr.Stocked.updateForwardZone {z : ForwardZoneParam} (hmgr : mgr.Stocked)
    (hz : z.Harmless) : (mgr.updateForwardZone nameFromString z).1.Stocked := by
  have hkeeps := newZoneForwarder_keeps mgr.groups z.forwardStyle z.forwarders
  unfold ViewFwderMgr.updateForwardZone
  split
  · exact hmgr
  · next zones hview =>
    dsimp only
    split
    · exact hmgr.of_keeps hkeeps
    · next zones' hdelete =>
      split
      · exact hmgr.update hview hkeeps fun m w hget => .inl (get_of_deleteZoneFwder hdelete hget)
      · next zones'' hadd =>
        refine hmgr.update hview hkeeps fun m w hget => ?_
        rcases get_of_addZoneFwder hadd hget with hold | hw
        · exact .inl (get_of_deleteZoneFwder hdelete hold)
        · rw [hw]
          exact .inr (stocked_newZoneForwarder _ hz)

theorem ViewFwderMgr.Stocked.step (hsort : Sorts Time sort) {mgr' : ViewFwderMgr T} {e : Event B}
    (hmgr : mgr.Stocked) (he : ∀ z ∈ e.zones, z.Harmless)
    (hstep : mgr.step nameFromString sort e = .ok mgr') : mgr'.Stocked := by
  cases e with
  | reloadConfig views zones =>
    simp only [ViewFwderMgr.step] at hstep
    split at hstep
    · cases hstep
    · next hload =>
      cases hstep
      refine ViewFwderMgr.Stocked.loadZones ?_ he hload
      intro view zones hview name z hget
      dsimp only at hview
      split_ifs at hview
      cases hview
      rw [NameTree.get_newDomainTree] at hget
      cases hget
  | addForwardZone zones =>
    cases hstep
    exact hmgr.addForwardZone he
  | deleteForwardZone view name =>
    cases hstep
    unfold ViewFwderMgr.deleteForwardZone
    split
    · exact hmgr
    · next hview =>
      split
      · exact hmgr
      · next hdelete =>
        exact hmgr.update hview (.refl _) fun m w hget =>
          .inl (get_of_deleteZoneFwder hdelete hget)
  | updateForwardZone zone =>
    cases hstep
    exact hmgr.updateForwardZone (he zone (by simp [Event.zones]))
  | query r =>
    obtain ⟨result, hok, hstocked⟩ := hmgr.query hsort r
    simp only [ViewFwderMgr.step, hok] at hstep
    cases hstep
    exact hstocked

theorem run_harmless (hsort : Sorts Time sort) {events : List (Event B)}
    (hevents : ∀ e ∈ events, ∀ z ∈ e.zones, z.Harmless) (p : Panic) :
    run (ViewFwderMgr.step nameFromString sort) (.init : ViewFwderMgr T) events ≠
      .error (.panic p) := by
  intro hrun
  have hinit : (.init : ViewFwderMgr T).Stocked := by
    intro view zones hview
    cases hview
  obtain ⟨mgr, e, hreached, he, hstep⟩ := run_eq_error hrun
  have hmgr : mgr.Stocked :=
    reached_induction ViewFwderMgr.Stocked
      (fun _ i _ hs hi hstep => hs.step hsort (hevents i hi) hstep) (along_mem _ _ _) hinit hreached
  cases e with
  | reloadConfig views zones =>
    simp only [ViewFwderMgr.step] at hstep
    split at hstep <;> cases hstep
  | addForwardZone zones | deleteForwardZone view name | updateForwardZone zone => cases hstep
  | query r =>
    obtain ⟨result, hok, -⟩ := hmgr.query hsort r
    simp only [ViewFwderMgr.step, hok] at hstep
    cases hstep

end zones

/-- A query panics exactly if it meets a zone without forwarders that is no exception, and runs
without such zones do not. -/
theorem processRequest_panics_iff {B T : Type} [NameTree T ZoneFwder] [LawfulNameTree T ZoneFwder]
    [ErasableNameTree T ZoneFwder] [LawfulErasableNameTree T ZoneFwder]
    (nameFromString : String → Except String Name) {sort : ℕ → SortProgram}
    (hsort : Sorts Time sort) :
    (∀ (mgr : ViewFwderMgr T) (zones : T) (text style : String) (forwarders : List String)
      (dname : Name) (r : Request B), mgr.fwders r.view = some zones →
      nameFromString text = .ok dname → dname <:+ r.name →
      (∀ m, dname <:+ m → m <:+ r.name → NameTree.get zones m = none) →
      ((∀ p, run (ViewFwderMgr.step nameFromString sort) mgr
        [.addForwardZone [⟨r.view, text, forwarders, style⟩], .query r] ≠ .error (.panic p)) ↔
        style = fwderMatchException ∨ forwarders ≠ [])) ∧
    (∀ events : List (Event B), (∀ e ∈ events, ∀ z ∈ e.zones, z.Harmless) → ∀ p,
      run (ViewFwderMgr.step nameFromString sort) (.init : ViewFwderMgr T) events ≠
        .error (.panic p)) ∧
    ∀ (conf : Conf) (events : List Forwarder.Event) (s : State),
      Reached (State.step conf) .init events s → ∀ t ∈ s.threads, ∀ addr tries,
        t.phase = .querying addr tries → HasSender s.fwders addr := by
  refine ⟨?_, ?_, ?_⟩
  · intro mgr zones text style forwarders dname r hview hname hle hcloser
    exact add_then_query_iff hsort mgr hview hname hle hcloser
  · intro events hevents p
    exact run_harmless hsort hevents p
  · intro conf events s hreached t ht addr tries hphase
    exact hasSender_of_querying conf events hreached ht hphase

def wwwRequest : Request ℕ :=
  ⟨"default", ["www", "example"], fun _ => false, fun _ => false,
    fun _ => ⟨fun _ => false, fun _ => 0, fun _ => .ok 7⟩⟩

def parseExample (text : String) : Except String Name :=
  if text = "example." then .ok ["example"] else .error "no such name"

/-- The zone `example.` is added to the view `default` with these forwarders, and a query comes. -/
def forwardExample (style : String) (forwarders : List String) : List (Event ℕ) :=
  [.reloadConfig ["default"] [], .addForwardZone [⟨"default", "example.", forwarders, style⟩],
    .query wwwRequest]

def runExample (style : String) (forwarders : List String) :
    Except Stop (ViewFwderMgr (NameTable ZoneFwder)) :=
  run (ViewFwderMgr.step parseExample insertionSort) .init (forwardExample style forwarders)

/-- Every policy crashes with an empty list of forwarders. -/
theorem example_empty_forwarders_panic :
    runExample "round_robin" [] = .error (.panic .divideByZero) ∧
      runExample "fixed_order" [] = .error (.panic .indexOutOfRange) ∧
      runExample "rtt" [] = .error (.panic .indexOutOfRange) :=
  ⟨rfl, rfl, rfl⟩

/-- With two forwarders the query does not panic, and neither does it for an exception. -/
theorem example_two_forwarders_survive :
    (∀ p, runExample "round_robin" ["a", "b"] ≠ .error (.panic p)) ∧
      ∀ p, runExample "no" [] ≠ .error (.panic p) := by
  obtain ⟨-, hruns, -⟩ := processRequest_panics_iff (B := ℕ) (T := NameTable ZoneFwder)
    parseExample sorts_insertionSort
  constructor
  · exact hruns (forwardExample "round_robin" ["a", "b"])
      (by simp [forwardExample, Event.zones, ForwardZoneParam.Harmless])
  · exact hruns (forwardExample "no" [])
      (by simp [forwardExample, Event.zones, ForwardZoneParam.Harmless, fwderMatchException])

end Vanguard.Forwarder.Views
