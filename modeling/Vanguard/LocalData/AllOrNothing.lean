import Vanguard.LocalData.Removals

namespace Vanguard.LocalData

open List
open Query (Client)

variable {P : Type} [NameTree P LocalPolicy] [LawfulNameTree P LocalPolicy]
  [ErasableNameTree P LocalPolicy] [LawfulErasableNameTree P LocalPolicy]

section

variable (parsers : Parsers) (policies : Policies P)

def TakesAway (oldData : LocalPolicyData) : Prop :=
  ∃ name p oldp, buildLocalPolicy parsers oldData.policy oldData.data = .ok (name, p) ∧
    policyAt (tables policies) oldData.view name = some oldp ∧
    ¬(oldp.typ = .localRRset ∧ (p.typ ≠ .localRRset ∨ p.Disjoint oldp))

theorem weight_addPolicies (view : String) (typ : LocalPolicyType) (datas : List String)
    (v : String) (m : Name) :
    weight (policyAt (tables policies) v m) ≤
      weight (policyAt (tables (addPolicies parsers policies view typ datas).1) v m) := by
  induction datas generalizing policies with
  | nil => exact le_rfl
  | cons data datas ih =>
    rcases addPolicies_cons parsers policies view typ data datas with ⟨-, -, hsame, -⟩ |
      ⟨name, p, hbuild, ⟨-, hsame, -⟩ | ⟨hok, policies', htables, heq⟩⟩
    · rw [hsame]
    · rw [hsame]
    · rw [heq]
      refine le_trans ?_ (ih policies')
      rw [htables, policyAt_setPolicy]
      split_ifs with hat
      · rw [hat.1, hat.2]
        exact (weight_addTo (single_of_build hbuild).2 hok).le
      · exact le_rfl

theorem addPolicies_one_eq_nil_iff (view : String) (typ : LocalPolicyType) (data : String) :
    (addPolicies parsers policies view typ [data]).2 = .nil ↔
      ∃ name p, buildLocalPolicy parsers typ data = .ok (name, p) ∧
        (p.addTo (policyAt (tables policies) view name)).2 = true := by
  rcases addPolicies_cons parsers policies view typ data [] with ⟨e, hbuild, -, hne⟩ |
    ⟨name, p, hbuild, ⟨hrefused, -, e, he⟩ | ⟨hok, policies', -, heq⟩⟩
  · refine iff_of_false hne ?_
    rintro ⟨name, p, hok, -⟩
    cases hbuild.symm.trans hok
  · rw [he]
    refine iff_of_false (by simp) ?_
    rintro ⟨name', p', hok, haccepted⟩
    cases hbuild.symm.trans hok
    rw [hrefused] at haccepted
    cases haccepted
  · rw [heq]
    exact iff_of_true rfl ⟨name, p, hbuild, hok⟩

end

variable {policies after : Policies P}

theorem addPolicies_error_iff {parsers : Parsers} {view : String} {typ : LocalPolicyType}
    {datas : List String} {e : Cache.HttpError}
    (herror : addPolicies parsers policies view typ datas = (after, .error e)) :
    tables after = tables policies ↔
      (addPolicies parsers policies view typ (datas.take 1)).2 ≠ .nil := by
  cases datas with
  | nil => cases herror
  | cons data datas =>
    rw [take_succ_cons, take_zero, ne_eq, addPolicies_one_eq_nil_iff]
    rcases addPolicies_cons parsers policies view typ data datas with ⟨_, hbuild, hsame, -⟩ |
      ⟨name, p, hbuild, ⟨hrefused, hsame, -⟩ | ⟨hok, policies', htables, heq⟩⟩
    · rw [herror] at hsame
      refine iff_of_true (congrArg tables hsame) ?_
      rintro ⟨name, p, hok, -⟩
      cases hbuild.symm.trans hok
    · rw [herror] at hsame
      refine iff_of_true hsame ?_
      rintro ⟨name', p', hok, haccepted⟩
      cases hbuild.symm.trans hok
      rw [hrefused] at haccepted
      cases haccepted
    · refine iff_of_false (fun hsame => ?_) (not_not.mpr ⟨name, p, hbuild, hok⟩)
      -- The first line has added something, and the lines after it take nothing away.
      have hmore := weight_addTo (single_of_build hbuild).2 hok
      have hrest := weight_addPolicies parsers policies' view typ datas view name
      rw [← heq, herror, hsame, htables, policyAt_setPolicy, if_pos ⟨rfl, rfl⟩] at hrest
      omega

theorem removePolicies_one_iff (parsers : Parsers) (hwf : WellFormed (tables policies))
    (oldData : LocalPolicyData) :
    tables (removePolicies parsers policies oldData.view oldData.policy [oldData.data]).1 =
        tables policies ↔ ¬TakesAway parsers policies oldData := by
  rcases removePolicies_cons parsers hwf oldData.view oldData.policy oldData.data [] with
    ⟨e, hbuild, hsame⟩ | ⟨name, p, hbuild, ⟨hview, hsame⟩ | ⟨hview, policies', htables, heq⟩⟩
  · refine iff_of_true (congrArg tables hsame) ?_
    rintro ⟨name, p, oldp, hok, -⟩
    cases hbuild.symm.trans hok
  · refine iff_of_true (congrArg tables hsame) ?_
    rintro ⟨name', p', oldp, -, hold, -⟩
    simp [policyAt, hview] at hold
  · have hremoved : tables (removePolicies parsers policies oldData.view oldData.policy
        [oldData.data]).1 = setPolicy (tables policies) oldData.view name
          ((policyAt (tables policies) oldData.view name).bind p.removeFrom) := by
      rw [heq]
      exact htables
    rw [hremoved, setPolicy_eq_self_iff hview]
    have htakes : TakesAway parsers policies oldData ↔
        ∃ oldp, policyAt (tables policies) oldData.view name = some oldp ∧
          ¬(oldp.typ = .localRRset ∧ (p.typ ≠ .localRRset ∨ p.Disjoint oldp)) := by
      simp [TakesAway, hbuild]
    rw [htakes]
    cases hold : policyAt (tables policies) oldData.view name with
    | none => simp
    | some oldp =>
      rw [Option.bind_some, eq_comm, removeFrom_eq_self_iff (single_of_build hbuild).2
        (hwf oldData.view name oldp hold)]
      constructor
      · rintro hkept ⟨oldp', hold', hnot⟩
        cases hold'
        exact hnot hkept
      · intro hnone
        by_contra hnot
        exact hnone ⟨oldp, rfl, hnot⟩

theorem updateLocalData_error_iff {parsers : Parsers} (hwf : WellFormed (tables policies))
    {oldData newData : LocalPolicyData} {e : Cache.HttpError}
    (herror : updateLocalData parsers policies oldData newData = (after, .error e)) :
    tables after = tables policies ↔ ¬TakesAway parsers policies oldData := by
  rw [← removePolicies_one_iff parsers hwf oldData]
  rcases hremove : removePolicies parsers policies oldData.view oldData.policy [oldData.data] with
    ⟨mid, outcome⟩
  have hadd : addPolicies parsers mid newData.view newData.policy [newData.data] =
      (after, .error e) := by
    unfold updateLocalData at herror
    rw [hremove] at herror
    cases outcome with
    | nil | error e' => exact herror
    | panic => cases herror
  have hsame : tables after = tables mid := by
    refine (addPolicies_error_iff hadd).mpr ?_
    rw [take_succ_cons, take_zero, hadd]
    simp
  rw [hsame]

end Vanguard.LocalData
