import Vanguard.Cache.HttpError
import Vanguard.Library.Runs
import Vanguard.Library.Sorting
import Vanguard.Query.Selector

/-!
# The order of the views

`updateViewPriority` writes the new priorities one by one and sorts at the end; a view that is not
mentioned stops it in between. A later call writes all of them again before it sorts.
-/

namespace Vanguard.ViewSelector

open Library List
open Cache (HttpError errUnknownView)

structure ViewAcls where
  name : String
  acls : List String
  priority : ℕ
  deriving DecidableEq, Repr

def anyView : String := "any"

def errModifyInnerView : HttpError := ⟨502, "update inner view"⟩

def reloadConfig (conf : List (String × List String)) : List ViewAcls :=
  conf.mapIdx fun i viewAcl => ⟨viewAcl.1, viewAcl.2, i⟩

def viewForQuery (find : String → List UInt8 → Bool) (views : List ViewAcls)
    (clientIP : List UInt8) : Option String :=
  (views.find? fun viewAcl => viewAcl.acls.any fun aclName => find aclName clientIP).map
    ViewAcls.name

def getViews (views : List ViewAcls) : List String := views.map ViewAcls.name

/-- The loop of `updateView`. -/
def setAcls (name : String) (acls : List String) : List ViewAcls → List ViewAcls
  | [] => []
  | v :: views => if v.name = name then { v with acls } :: views else v :: setAcls name acls views

def updateView (toLower : String → String) (views : List ViewAcls) (name : String)
    (acls : List String) : List ViewAcls × Option HttpError :=
  if toLower name = anyView then (views, some errModifyInnerView)
  else (setAcls (toLower name) acls views, none)

def viewPriorities : List String → ℕ → (String → Option ℕ) → String → Option ℕ
  | [], _, priorities => priorities
  | view :: orders, i, priorities =>
    viewPriorities orders (i + 1) (Function.update priorities view (some i))

/-- The loop of `updateViewPriority`. A view that is not mentioned gets 0. -/
def setPriorities (priorities : String → Option ℕ) :
    List ViewAcls → List ViewAcls × Option HttpError
  | [] => ([], none)
  | v :: views =>
    match priorities v.name with
    | none => ({ v with priority := 0 } :: views, some (errUnknownView.addDetail v.name))
    | some priority =>
      let (views, e) := setPriorities priorities views
      ({ v with priority } :: views, e)

def viewByPriority : SortInterface (List ViewAcls) where
  less views := keys.less (views.map ViewAcls.priority)
  swap := swapAt

def updateViewPriority (program : ℕ → SortProgram) (views : List ViewAcls) (orders : List String) :
    Except Fault (List ViewAcls × Option HttpError) :=
  match setPriorities (viewPriorities orders 0 fun _ => none) views with
  | (views, some e) => .ok (views, some e)
  | (views, none) =>
    match (program views.length).run viewByPriority views with
    | none => .error .indexOutOfRange
    | some views => .ok (views, none)

inductive Call where
  | updateView (name : String) (acls : List String)
  | updateViewPriority (orders : List String)

def step (toLower : String → String) (program : ℕ → SortProgram) (views : List ViewAcls) :
    Call → Except Fault (List ViewAcls)
  | .updateView name acls => .ok (updateView toLower views name acls).1
  | .updateViewPriority orders => (updateViewPriority program views orders).map Prod.fst

def observe (views : List ViewAcls) : List (String × List String) :=
  views.map fun v => (v.name, v.acls)

def LastAt (orders : List String) (view : String) (i : ℕ) : Prop :=
  orders[i]? = some view ∧ ∀ j, orders[j]? = some view → j ≤ i

section observation

variable {views views' : List ViewAcls}

theorem getViews_eq (views : List ViewAcls) : getViews views = (observe views).map Prod.fst := by
  simp [getViews, observe]

theorem viewForQuery_observe (find : String → List UInt8 → Bool) (views : List ViewAcls)
    (ip : List UInt8) :
    viewForQuery find views ip =
      ((observe views).find? fun v => v.2.any fun acl => find acl ip).map Prod.fst := by
  simp [viewForQuery, observe, find?_map, Function.comp_def]

theorem observe_cons (v : ViewAcls) (views : List ViewAcls) :
    observe (v :: views) = (v.name, v.acls) :: observe views := rfl

theorem observe_setAcls_congr (name : String) (acls : List String)
    (heq : observe views = observe views') :
    observe (setAcls name acls views) = observe (setAcls name acls views') := by
  induction views generalizing views' with
  | nil =>
    obtain rfl : views' = [] := by simpa [observe] using heq.symm
    rfl
  | cons v views ih =>
    obtain ⟨v', views', rfl⟩ : ∃ v' l, views' = v' :: l := by
      cases views' with
      | nil => cases heq
      | cons v' l => exact ⟨v', l, rfl⟩
    rw [observe_cons, observe_cons, List.cons.injEq, Prod.mk.injEq] at heq
    obtain ⟨⟨hname, hacls⟩, hrest⟩ := heq
    rw [setAcls, setAcls, ← hname]
    split_ifs
    · rw [observe_cons, observe_cons, hname, hrest]
    · rw [observe_cons, observe_cons, hname, hacls, ih hrest]

variable (priorities : String → Option ℕ)

variable (views : List ViewAcls)

theorem observe_setPriorities : observe (setPriorities priorities views).1 = observe views := by
  induction views with
  | nil => rfl
  | cons v views ih =>
    rw [setPriorities]
    cases priorities v.name with
    | none => rfl
    | some priority => exact congrArg (List.cons _) ih

theorem error_setPriorities :
    (setPriorities priorities views).2 =
      ((observe views).find? fun v => (priorities v.1).isNone).map fun v =>
        errUnknownView.addDetail v.1 := by
  induction views with
  | nil => rfl
  | cons v views ih =>
    rw [setPriorities, observe_cons]
    cases hpriority : priorities v.name with
    | none => simp [hpriority]
    | some priority => simpa [hpriority] using ih

theorem setPriorities_eq (hnone : (setPriorities priorities views).2 = none) :
    (setPriorities priorities views).1 =
      (observe views).map fun v => ⟨v.1, v.2, (priorities v.1).getD 0⟩ := by
  induction views with
  | nil => rfl
  | cons v views ih =>
    rw [setPriorities] at hnone ⊢
    cases hpriority : priorities v.name with
    | none => simp [hpriority] at hnone
    | some priority =>
      rw [hpriority] at hnone
      simp [observe_cons, hpriority, ih hnone]

end observation

section positions

variable {orders : List String}

theorem lastAt_cons_succ {v view : String} {i : ℕ} :
    LastAt (v :: orders) view (i + 1) ↔ LastAt orders view i := by
  refine and_congr (by simp) ⟨fun h j hj => ?_, fun h j hj => ?_⟩
  · exact Nat.le_of_succ_le_succ (h (j + 1) (by simpa using hj))
  · cases j with
    | zero => exact Nat.zero_le _
    | succ j => exact Nat.succ_le_succ (h j (by simpa using hj))

theorem lastAt_cons_zero {v view : String} :
    LastAt (v :: orders) view 0 ↔ v = view ∧ view ∉ orders := by
  refine and_congr (by simp) ⟨fun h hmem => ?_, fun h j hj => ?_⟩
  · obtain ⟨j, hj⟩ := mem_iff_getElem?.mp hmem
    exact absurd (h (j + 1) (by simpa using hj)) (Nat.not_succ_le_zero j)
  · cases j with
    | zero => exact le_rfl
    | succ j => exact absurd (mem_of_getElem? (by simpa using hj)) h

variable {priorities : String → Option ℕ}

theorem viewPriorities_eq_some {i k : ℕ} {view : String} :
    viewPriorities orders i priorities view = some k ↔
      (∃ j, LastAt orders view j ∧ k = i + j) ∨ view ∉ orders ∧ priorities view = some k := by
  induction orders generalizing i priorities with
  | nil => simp [viewPriorities, LastAt]
  | cons v orders ih =>
    rw [viewPriorities, ih]
    constructor
    · rintro (⟨j, hj, hk⟩ | ⟨hnot, hk⟩)
      · exact .inl ⟨j + 1, lastAt_cons_succ.mpr hj, by omega⟩
      · by_cases hview : view = v
        · subst hview
          exact .inl ⟨0, lastAt_cons_zero.mpr ⟨rfl, hnot⟩, by simpa [eq_comm] using hk⟩
        · exact .inr ⟨by simp [hview, hnot], by simpa [hview] using hk⟩
    · rintro (⟨j, hj, hk⟩ | ⟨hnot, hk⟩)
      · cases j with
        | zero =>
          obtain ⟨rfl, hnot⟩ := lastAt_cons_zero.mp hj
          exact .inr ⟨hnot, by simp [hk]⟩
        | succ j => exact .inl ⟨j, lastAt_cons_succ.mp hj, by omega⟩
      · obtain ⟨hview, hnot⟩ := not_or.mp (mt mem_cons.mpr hnot)
        exact .inr ⟨hnot, by simpa [hview] using hk⟩

theorem isSome_viewPriorities {i : ℕ} {view : String} :
    (viewPriorities orders i priorities view).isSome ↔
      view ∈ orders ∨ (priorities view).isSome := by
  induction orders generalizing i priorities with
  | nil => simp [viewPriorities]
  | cons v orders ih =>
    rw [viewPriorities, ih]
    by_cases hview : view = v
    · simp [hview]
    · simp [hview]

end positions

section calls

variable {toLower : String → String} {program : ℕ → SortProgram} {views views' : List ViewAcls}

theorem error_setPriorities_eq_none (views : List ViewAcls) (orders : List String) :
    (setPriorities (viewPriorities orders 0 fun _ => none) views).2 = none ↔
      ∀ v ∈ views, v.name ∈ orders := by
  have hisSome (view : String) :
      ¬viewPriorities orders 0 (fun _ => none) view = none ↔ view ∈ orders := by
    rw [← ne_eq, ← Option.isSome_iff_ne_none, isSome_viewPriorities]
    simp
  rw [error_setPriorities, Option.map_eq_none_iff, find?_eq_none, observe]
  simp [hisSome]

theorem consistent_viewByPriority :
    Consistent viewByPriority fun views => views.map ViewAcls.priority where
  less_eq _ _ _ := rfl
  view_swap views i j := (swapAt_map ViewAcls.priority views i j).symm

theorem run_viewByPriority (hsorts : Sorts ℕ program) (views : List ViewAcls) :
    ∃ views', (program views.length).run viewByPriority views = some views' ∧
      views'.Perm views ∧ views'.Pairwise fun v w => v.priority ≤ w.priority := by
  obtain ⟨views', hrun, hsorted⟩ := hsorts.run consistent_viewByPriority views
  rw [length_map] at hrun
  refine ⟨views', hrun, ?_, pairwise_map.mp hsorted⟩
  exact SortProgram.run_induction (fun l => l.Perm views)
    (fun l i j l' hl hswap => (swapAt_perm hswap).trans hl) hrun (.refl _)

theorem updateViewPriority_spec (hsorts : Sorts ℕ program) (views : List ViewAcls)
    (orders : List String) :
    ∃ views' e, updateViewPriority program views orders = .ok (views', e) ∧
      (e = none ↔ ∀ v ∈ views, v.name ∈ orders) ∧
      (e ≠ none → observe views' = observe views) ∧
      (e = none → (observe views').Perm (observe views) ∧
        ((getViews views).Nodup → (getViews views').Pairwise fun a b =>
          ∀ i j, LastAt orders a i → LastAt orders b j → i < j)) := by
  have hobserve := observe_setPriorities (viewPriorities orders 0 fun _ => none) views
  have heq := setPriorities_eq (viewPriorities orders 0 fun _ => none) views
  have hnone := error_setPriorities_eq_none views orders
  rw [updateViewPriority]
  cases hset : setPriorities (viewPriorities orders 0 fun _ => none) views with
  | mk set e =>
    rw [hset] at hobserve heq hnone
    cases e with
    | some e => exact ⟨set, some e, rfl, hnone, fun _ => hobserve, fun h => by cases h⟩
    | none =>
      obtain ⟨views', hrun, hperm, hsorted⟩ := run_viewByPriority hsorts set
      have hseen : (observe views').Perm (observe views) := hobserve ▸ hperm.map _
      refine ⟨views', none, by simp [hrun], hnone, fun h => absurd rfl h, fun _ => ⟨hseen, ?_⟩⟩
      intro hnodup
      have hdistinct : (getViews views').Nodup := by
        rw [getViews_eq] at hnodup ⊢
        exact (hseen.map Prod.fst).nodup_iff.mpr hnodup
      have hpriority (v : ViewAcls) (hv : v ∈ views') (i : ℕ) (hi : LastAt orders v.name i) :
          v.priority = i := by
        have hmem : v ∈ (set, (none : Option HttpError)).1 := hperm.mem_iff.mp hv
        rw [heq rfl] at hmem
        obtain ⟨seen, -, rfl⟩ := mem_map.mp hmem
        simp [viewPriorities_eq_some.mpr (.inl ⟨i, hi, (Nat.zero_add i).symm⟩)]
      rw [getViews, pairwise_map]
      refine (hsorted.and (pairwise_map.mp hdistinct)).imp_of_mem fun hv hw h i j hi hj => ?_
      obtain ⟨hle, hne⟩ := h
      rw [hpriority _ hv i hi, hpriority _ hw j hj] at hle
      refine lt_of_le_of_ne hle fun hij => hne ?_
      subst hij
      exact Option.some.inj (hi.1.symm.trans hj.1)

section

variable (toLower : String → String) (program : ℕ → SortProgram)
  (heq : observe views = observe views')

include heq

theorem step_congr (call : Call) :
    (step toLower program views call).map observe =
      (step toLower program views' call).map observe := by
  cases call with
  | updateView name acls =>
    rw [step, step, updateView, updateView]
    split_ifs
    · exact congrArg Except.ok heq
    · exact congrArg Except.ok (observe_setAcls_congr _ acls heq)
  | updateViewPriority orders =>
    rw [step, step, updateViewPriority, updateViewPriority]
    generalize viewPriorities orders 0 (fun _ => none) = priorities
    have hseen : observe (setPriorities priorities views).1 =
        observe (setPriorities priorities views').1 := by
      rw [observe_setPriorities, observe_setPriorities, heq]
    have herror : (setPriorities priorities views).2 = (setPriorities priorities views').2 := by
      rw [error_setPriorities, error_setPriorities, heq]
    have hset := setPriorities_eq priorities views
    have hset' := setPriorities_eq priorities views'
    rw [← heq] at hset'
    generalize setPriorities priorities views = r at hseen herror hset ⊢
    generalize setPriorities priorities views' = r' at hseen herror hset' ⊢
    obtain ⟨set, e⟩ := r
    obtain ⟨set', e'⟩ := r'
    obtain rfl : e = e' := herror
    cases e with
    | some e => exact congrArg Except.ok hseen
    | none =>
      -- Every priority is new, so the two slices are the same when they are sorted.
      obtain rfl : set = set' := (hset rfl).trans (hset' rfl).symm
      rfl

theorem run_congr (calls : List Call) :
    (run (step toLower program) views calls).map observe =
      (run (step toLower program) views' calls).map observe := by
  induction calls generalizing views views' with
  | nil => exact congrArg Except.ok heq
  | cons call calls ih =>
    have hstep := step_congr toLower program heq call
    rw [run, run]
    cases hfirst : step toLower program views call with
    | error f =>
      cases hsecond : step toLower program views' call with
      | error f' => simpa [hfirst, hsecond, Except.map] using hstep
      | ok mid' => simp [hfirst, hsecond, Except.map] at hstep
    | ok mid =>
      cases hsecond : step toLower program views' call with
      | error f' => simp [hfirst, hsecond, Except.map] at hstep
      | ok mid' => exact ih (by simpa [hfirst, hsecond, Except.map] using hstep)

end

theorem getViews_setAcls (name : String) (acls : List String) (views : List ViewAcls) :
    getViews (setAcls name acls views) = getViews views := by
  induction views with
  | nil => rfl
  | cons v views ih =>
    rw [setAcls]
    split_ifs
    · rfl
    · exact congrArg (List.cons v.name) ih

theorem step_total (hsorts : Sorts ℕ program) (views : List ViewAcls) (call : Call) :
    ∃ views', step toLower program views call = .ok views' ∧
      (getViews views').Perm (getViews views) := by
  cases call with
  | updateView name acls =>
    refine ⟨_, rfl, ?_⟩
    rw [updateView]
    split_ifs
    · exact .refl _
    · rw [getViews_setAcls]
  | updateViewPriority orders =>
    obtain ⟨views', e, hok, -, hfailed, hdone⟩ := updateViewPriority_spec hsorts views orders
    refine ⟨views', by rw [step, hok]; rfl, ?_⟩
    rw [getViews_eq, getViews_eq]
    by_cases he : e = none
    · exact (hdone he).1.map Prod.fst
    · rw [hfailed he]

theorem run_calls_total (hsorts : Sorts ℕ program) (views : List ViewAcls) (calls : List Call) :
    ∃ views', run (step toLower program) views calls = .ok views' ∧
      (getViews views').Perm (getViews views) := by
  refine run_total (fun l => (getViews l).Perm (getViews views)) (fun l call hl _ => ?_)
    (along_mem (step toLower program) views calls) (.refl _)
  obtain ⟨l', hl', hperm⟩ := step_total hsorts l call
  exact ⟨l', hl', hperm.trans hl⟩

end calls

theorem getViews_reloadConfig (conf : List (String × List String)) :
    getViews (reloadConfig conf) = conf.map Prod.fst := by
  refine ext_getElem? fun i => ?_
  rw [getViews, reloadConfig, getElem?_map, getElem?_mapIdx, getElem?_map, Option.map_map]
  rfl

/-- The views are reordered exactly if all are mentioned, and a failed call is never seen. -/
theorem views_reordered (toLower : String → String) {program : ℕ → SortProgram}
    (hsorts : Sorts ℕ program) {conf : List (String × List String)}
    (hnodup : (conf.map Prod.fst).Nodup) {calls : List Call} {views : List ViewAcls}
    (hrun : run (step toLower program) (reloadConfig conf) calls = .ok views)
    (orders : List String) :
    ∃ views' e, updateViewPriority program views orders = .ok (views', e) ∧
      (e = none ↔ ∀ view ∈ conf.map Prod.fst, view ∈ orders) ∧
      (e = none → (observe views').Perm (observe views) ∧
        (getViews views').Pairwise fun a b =>
          ∀ i j, LastAt orders a i → LastAt orders b j → i < j) ∧
      (e ≠ none → ∀ later, ∃ t t', run (step toLower program) views later = .ok t ∧
        run (step toLower program) views' later = .ok t' ∧ getViews t' = getViews t ∧
        ∀ find ip, viewForQuery find t' ip = viewForQuery find t ip) := by
  obtain ⟨last, hlast, hperm⟩ := run_calls_total hsorts (reloadConfig conf) calls
  obtain rfl : last = views := Except.ok.inj (hlast.symm.trans hrun)
  rw [getViews_reloadConfig] at hperm
  obtain ⟨views', e, hok, hiff, hfailed, hdone⟩ := updateViewPriority_spec hsorts last orders
  refine ⟨views', e, hok, ?_, fun he => ?_, fun he later => ?_⟩
  · rw [hiff]
    constructor
    · intro hall view hview
      obtain ⟨v, hv, rfl⟩ := mem_map.mp (hperm.mem_iff.mpr hview)
      exact hall v hv
    · exact fun hall v hv => hall v.name (hperm.mem_iff.mp (mem_map_of_mem hv))
  · exact ⟨(hdone he).1, (hdone he).2 (hperm.nodup_iff.mpr hnodup)⟩
  · obtain ⟨t, ht, -⟩ := run_calls_total hsorts last later
    obtain ⟨t', ht', -⟩ := run_calls_total hsorts views' later
    have hsame := run_congr toLower program (hfailed he) later
    rw [ht, ht'] at hsame
    have hseen : observe t' = observe t := Except.ok.inj hsame
    exact ⟨t, t', ht, ht', by rw [getViews_eq, getViews_eq, hseen],
      fun find ip => by rw [viewForQuery_observe, viewForQuery_observe, hseen]⟩

/-- Two views change places. -/
theorem example_views_swapped :
    ∃ views', updateViewPriority insertionSort (reloadConfig [("v1", ["a1"]), ("v2", ["a2"])])
        ["v2", "v1"] = .ok (views', none) ∧
      (getViews views').Pairwise fun a b =>
        ∀ i j, LastAt ["v2", "v1"] a i → LastAt ["v2", "v1"] b j → i < j := by
  obtain ⟨views', e, hok, hiff, hdone, -⟩ := views_reordered id sorts_insertionSort
    (show ([("v1", ["a1"]), ("v2", ["a2"])].map Prod.fst).Nodup by decide)
    (show run (step id insertionSort) _ [] = .ok _ from rfl) ["v2", "v1"]
  obtain rfl : e = none := hiff.mpr (by decide)
  exact ⟨views', hok, (hdone rfl).2⟩

end Vanguard.ViewSelector
