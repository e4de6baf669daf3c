import Vanguard.LocalData.Lines
import Vanguard.LocalData.Lookup

namespace Vanguard.LocalData

def WellFormed (ts : Tables) : Prop := ∀ view name p, policyAt ts view name = some p → p.WellFormed

section commands

variable {P : Type} [NameTree P LocalPolicy] [LawfulNameTree P LocalPolicy]
  [ErasableNameTree P LocalPolicy] [LawfulErasableNameTree P LocalPolicy]
  {policies : Policies P} {view : String} {name : Name} {p : LocalPolicy}

/-- The policy is added to what is stored under the name, or the stored one is kept. -/
theorem addPolicy_spec (parsers : Parsers) (policies : Policies P) (view : String) (name : Name)
    (p : LocalPolicy) :
    tables (addPolicy parsers policies view name p).1 = setPolicy (tables policies) view name
        (some (p.addTo (policyAt (tables policies) view name)).1) ∧
      if (p.addTo (policyAt (tables policies) view name)).2 = true then
        (addPolicy parsers policies view name p).2 = .nil
      else ∃ e, (addPolicy parsers policies view name p).2 = .error e := by
  unfold addPolicy setPolicy
  dsimp only
  rw [stored_eq, policyAt_getD]
  cases hold : NameTree.get ((policies view).getD NameTree.newDomainTree) name with
  | none =>
    dsimp only
    rw [tables_update, get_insert_of_none hold]
    exact ⟨rfl, rfl⟩
  | some oldp =>
    by_cases hjoin : oldp.typ = .localRRset ∧ p.typ = .localRRset
    · obtain ⟨rrsets, hkind⟩ := typ_eq_localRRset.mp hjoin.1
      obtain ⟨news, hnew⟩ := typ_eq_localRRset.mp hjoin.2
      simp only [addTo_redirect hkind hnew, hkind, hnew, tables_update, get_put, true_and]
      split_ifs
      · rfl
      · exact ⟨_, rfl⟩
    · have hkept : Function.update (NameTree.get ((policies view).getD NameTree.newDomainTree)) name
          (some oldp) = NameTree.get ((policies view).getD NameTree.newDomainTree) := by
        rw [← hold, Function.update_eq_self]
      rw [addTo_refused hjoin, hkept, if_neg (by simp)]
      dsimp only
      split
      · next hkind hnew => exact absurd (by simp [LocalPolicy.typ, hkind, hnew]) hjoin
      · exact ⟨tables_update .., _, rfl⟩

theorem tables_removePolicy (hwf : WellFormed (tables policies))
    (hview : (policies view).isSome = true) (name : Name) (p : LocalPolicy) :
    tables (removePolicy policies view name p).1 = setPolicy (tables policies) view name
        ((policyAt (tables policies) view name).bind p.removeFrom) ∧
      (removePolicy policies view name p).2 = .nil := by
  obtain ⟨ps, hps⟩ := Option.isSome_iff_exists.mp hview
  have hself : (tables policies view).isSome = true := by simp [tables, hps]
  have hget : policyAt (tables policies) view = NameTree.get ps := policyAt_tables hps
  have hsame : setPolicy (tables policies) view name (NameTree.get ps name) = tables policies :=
    (setPolicy_eq_self_iff hself).mpr (congrFun hget name)
  unfold removePolicy
  simp only [hps, stored_eq]
  rw [hget]
  cases hold : NameTree.get ps name with
  | none =>
    rw [hold] at hsame
    exact ⟨hsame.symm, rfl⟩
  | some oldp =>
    rw [hold] at hsame
    rw [Option.bind_some]
    dsimp only
    split
    · next rrsets gone hkind hgone =>
      obtain ⟨-, hunique, -⟩ := hwf view name oldp (by rw [hget, hold]) rrsets hkind
      rw [removeFrom_redirect hkind hgone, foldlM_deleteRRset gone hunique]
      cases hleft : gone.foldl dropRRset rrsets with
      | nil => simp [setPolicy, hget, tables_update, get_delete]
      | cons r rest => simp [setPolicy, hget, tables_update, get_put]
    · next hkind hgone =>
      rw [removeFrom_kept (typ_eq_localRRset.mpr ⟨_, hkind⟩)
        fun htyp => (typ_eq_localRRset.mp htyp).elim fun gone h => hgone gone h]
      exact ⟨hsame.symm, rfl⟩
    · next hkind _ =>
      rw [removeFrom_gone fun htyp => (typ_eq_localRRset.mp htyp).elim fun rrsets h =>
        hkind rrsets h]
      simp [setPolicy, hget, tables_update, get_delete]

/-- A line without a policy, one that is refused, or one that is accepted. -/
theorem addPolicies_cons (parsers : Parsers) (policies : Policies P) (view : String)
    (typ : LocalPolicyType) (data : String) (datas : List String) :
    (∃ e, buildLocalPolicy parsers typ data = .error e ∧
      (addPolicies parsers policies view typ (data :: datas)).1 = policies ∧
      (addPolicies parsers policies view typ (data :: datas)).2 ≠ .nil) ∨
    ∃ name p, buildLocalPolicy parsers typ data = .ok (name, p) ∧
      ((p.addTo (policyAt (tables policies) view name)).2 = false ∧
        tables (addPolicies parsers policies view typ (data :: datas)).1 = tables policies ∧
        (∃ e, (addPolicies parsers policies view typ (data :: datas)).2 = .error e) ∨
      (p.addTo (policyAt (tables policies) view name)).2 = true ∧ ∃ policies' : Policies P,
        tables policies' = setPolicy (tables policies) view name
          (some (p.addTo (policyAt (tables policies) view name)).1) ∧
        addPolicies parsers policies view typ (data :: datas) =
          addPolicies parsers policies' view typ datas) := by
  cases hbuild : buildLocalPolicy parsers typ data with
  | error e =>
    refine .inl ⟨e, rfl, ?_⟩
    cases e <;> simp [addPolicies, hbuild]
  | ok result =>
    obtain ⟨name, p⟩ := result
    obtain ⟨-, hp⟩ := single_of_build hbuild
    refine .inr ⟨name, p, rfl, ?_⟩
    obtain ⟨htables, houtcome⟩ := addPolicy_spec parsers policies view name p
    cases hadd : (p.addTo (policyAt (tables policies) view name)).2 with
    | false =>
      rw [hadd, if_neg (by simp)] at houtcome
      obtain ⟨e, he⟩ := houtcome
      have heq : addPolicies parsers policies view typ (data :: datas) =
          ((addPolicy parsers policies view name p).1, .error e) := by
        have hpair : addPolicy parsers policies view name p =
            ((addPolicy parsers policies view name p).1, .error e) := Prod.ext rfl he
        simp only [addPolicies, hbuild]
        rw [hpair]
      have hslot := addTo_of_refused hp hadd
      have hview : (tables policies view).isSome = true := by
        cases hview : tables policies view with
        | some t => rfl
        | none => simp [policyAt, hview] at hslot
      refine .inl ⟨rfl, ?_, e, by rw [heq]⟩
      rw [heq, htables, hslot]
      exact (setPolicy_eq_self_iff hview).mpr rfl
    | true =>
      rw [hadd, if_pos rfl] at houtcome
      have hpair : addPolicy parsers policies view name p =
          ((addPolicy parsers policies view name p).1, .nil) := Prod.ext rfl houtcome
      refine .inr ⟨rfl, (addPolicy parsers policies view name p).1, htables, ?_⟩
      simp only [addPolicies, hbuild]
      rw [hpair]

variable {policies : Policies P}

/-- A line without a policy, one without a view, or one that is removed. -/
theorem removePolicies_cons (parsers : Parsers) (hwf : WellFormed (tables policies)) (view : String)
    (typ : LocalPolicyType) (data : String) (datas : List String) :
    (∃ e, buildLocalPolicy parsers typ data = .error e ∧
      (removePolicies parsers policies view typ (data :: datas)).1 = policies) ∨
    ∃ name p, buildLocalPolicy parsers typ data = .ok (name, p) ∧
      (tables policies view = none ∧
        (removePolicies parsers policies view typ (data :: datas)).1 = policies ∨
      (tables policies view).isSome = true ∧ ∃ policies' : Policies P,
        tables policies' = setPolicy (tables policies) view name
          ((policyAt (tables policies) view name).bind p.removeFrom) ∧
        removePolicies parsers policies view typ (data :: datas) =
          removePolicies parsers policies' view typ datas) := by
  cases hbuild : buildLocalPolicy parsers typ data with
  | error e =>
    refine .inl ⟨e, rfl, ?_⟩
    cases e <;> simp [removePolicies, hbuild]
  | ok result =>
    obtain ⟨name, p⟩ := result
    refine .inr ⟨name, p, rfl, ?_⟩
    cases hview : policies view with
    | none =>
      refine .inl ⟨by simp [tables, hview], ?_⟩
      simp [removePolicies, hbuild, removePolicy, hview]
    | some ps =>
      obtain ⟨htables, hnil⟩ := tables_removePolicy hwf (by rw [hview]; rfl) name p
      have hpair : removePolicy policies view name p =
          ((removePolicy policies view name p).1, .nil) := Prod.ext rfl hnil
      refine .inr ⟨by simp [tables, hview], (removePolicy policies view name p).1, htables, ?_⟩
      simp only [removePolicies, hbuild]
      rw [hpair]

theorem WellFormed.setPolicy {ts : Tables} (hts : WellFormed ts) {view : String} {name : Name}
    {slot : Option LocalPolicy} (hslot : ∀ p, slot = some p → p.WellFormed) :
    WellFormed (setPolicy ts view name slot) := by
  intro v m p hp
  rw [policyAt_setPolicy] at hp
  split_ifs at hp
  · exact hslot p hp
  · exact hts v m p hp

theorem WellFormed.addPolicies (parsers : Parsers) (hwf : WellFormed (tables policies))
    (view : String) (typ : LocalPolicyType) (datas : List String) :
    WellFormed (tables (addPolicies parsers policies view typ datas).1) := by
  induction datas generalizing policies with
  | nil => exact hwf
  | cons data datas ih =>
    rcases addPolicies_cons parsers policies view typ data datas with ⟨-, -, hsame, -⟩ |
      ⟨name, p, hbuild, ⟨-, hsame, -⟩ | ⟨-, policies', htables, heq⟩⟩
    · rwa [hsame]
    · rwa [hsame]
    · rw [heq]
      refine ih ?_
      rw [htables]
      refine hwf.setPolicy fun q hq => ?_
      cases hq
      exact .addTo (single_of_build hbuild).2 fun oldp hold => hwf view name oldp hold

theorem WellFormed.removePolicies (parsers : Parsers) (hwf : WellFormed (tables policies))
    (view : String) (typ : LocalPolicyType) (datas : List String) :
    WellFormed (tables (removePolicies parsers policies view typ datas).1) := by
  induction datas generalizing policies with
  | nil => exact hwf
  | cons data datas ih =>
    rcases removePolicies_cons parsers hwf view typ data datas with ⟨-, -, hsame⟩ |
      ⟨name, p, -, ⟨-, hsame⟩ | ⟨-, policies', htables, heq⟩⟩
    · rwa [hsame]
    · rwa [hsame]
    · rw [heq]
      refine ih ?_
      rw [htables]
      refine hwf.setPolicy fun q hq => ?_
      obtain ⟨oldp, hold, hleft⟩ := Option.bind_eq_some_iff.mp hq
      exact (hwf view name oldp hold).removeFrom hleft

theorem wellFormed_performAll (parsers : Parsers) (calls : List Call) :
    WellFormed (tables (performAll parsers calls : Policies P)) := by
  have hcalls (policies : Policies P) (hwf : WellFormed (tables policies)) :
      WellFormed (tables (calls.foldl (Call.perform parsers) policies)) := by
    induction calls generalizing policies with
    | nil => exact hwf
    | cons call calls ih =>
      refine ih _ ?_
      cases call with
      | add view typ datas => exact hwf.addPolicies parsers view typ datas
      | remove view typ datas => exact hwf.removePolicies parsers view typ datas
  refine hcalls _ fun view name p hp => ?_
  simp [policyAt, tables] at hp

end commands

end Vanguard.LocalData
