import Vanguard.LocalData.Policies
import Vanguard.LocalData.Shielding

namespace Vanguard.LocalData

open Query (Client)

abbrev Tables := String → Option PolicyTable

def policyAt (ts : Tables) (view : String) (name : Name) : Option LocalPolicy :=
  (ts view).bind fun t => t name

def respond (ts : Tables) (client : Client) : Except Fault (Client × Bool) :=
  match ts client.view with
  | none => .ok (client, false)
  | some t =>
    match realQueryName client.question (client.response.map fun r => r.message) with
    | .error f => .error f
    | .ok qname =>
      match t.answer qname client.question.typ with
      | none => .ok (client, false)
      | some answer => .ok ({ client with response := some (answer.message client) }, true)

theorem policyAt_of_some {ts : Tables} {view : String} {t : PolicyTable} (hview : ts view = some t) :
    policyAt ts view = t := by
  funext m
  simp [policyAt, hview]

theorem respond_congr {ts ts' : Tables} {client : Client}
    (hview : (ts client.view).isSome = (ts' client.view).isSome)
    (hpolicies : ∀ qname,
      realQueryName client.question (client.response.map fun r => r.message) = .ok qname →
      ∀ m, m <:+ qname → policyAt ts client.view m = policyAt ts' client.view m) :
    respond ts client = respond ts' client := by
  unfold respond
  cases ht : ts client.view with
  | none =>
    rw [ht, Option.isSome_none, eq_comm, Option.isSome_eq_false_iff, Option.isNone_iff_eq_none]
      at hview
    rw [hview]
  | some t =>
    rw [ht, Option.isSome_some, eq_comm] at hview
    obtain ⟨t', ht'⟩ := Option.isSome_iff_exists.mp hview
    rw [ht']
    dsimp only
    cases hqname : realQueryName client.question (client.response.map fun r => r.message) with
    | error f => rfl
    | ok qname =>
      have hsame : ∀ m, m <:+ qname → t m = t' m := by
        intro m hm
        rw [← policyAt_of_some ht, ← policyAt_of_some ht', hpolicies qname hqname m hm]
      dsimp only
      rw [PolicyTable.answer_congr (hsame qname List.suffix_rfl) fun m hm => by rw [hsame m hm]]

section

variable (ts : Tables) (view : String) (name : Name) (p : Option LocalPolicy)

def setPolicy : Tables :=
  Function.update ts view (some (Function.update (policyAt ts view) name p))

theorem policyAt_setPolicy (v : String) (m : Name) :
    policyAt (setPolicy ts view name p) v m =
      if v = view ∧ m = name then p else policyAt ts v m := by
  unfold policyAt setPolicy
  by_cases hv : v = view
  · subst hv
    by_cases hm : m = name
    · simp [hm]
    · simp [hm, policyAt]
  · simp [hv]

end

theorem setPolicy_eq_self_iff {ts : Tables} {view : String} (hview : (ts view).isSome = true)
    {name : Name} {p : Option LocalPolicy} :
    setPolicy ts view name p = ts ↔ policyAt ts view name = p := by
  constructor
  · intro hsame
    rw [← hsame, policyAt_setPolicy, if_pos ⟨rfl, rfl⟩]
  · rintro rfl
    obtain ⟨t, ht⟩ := Option.isSome_iff_exists.mp hview
    rw [setPolicy, Function.update_eq_self, policyAt_of_some ht, ← ht, Function.update_eq_self]

section

variable {P : Type} [NameTree P LocalPolicy]

def tables (policies : Policies P) : Tables := fun view => (policies view).map NameTree.get

theorem policyAt_tables {policies : Policies P} {view : String} {ps : P}
    (hview : policies view = some ps) : policyAt (tables policies) view = NameTree.get ps :=
  policyAt_of_some (by rw [tables, hview, Option.map_some])

theorem tables_update (policies : Policies P) (view : String) (ps : P) :
    tables (Function.update policies view (some ps)) =
      Function.update (tables policies) view (some (NameTree.get ps)) := by
  funext v
  by_cases hv : v = view
  · simp [tables, hv]
  · simp [tables, hv]

variable [LawfulNameTree P LocalPolicy]

theorem responseWithLocalData_eq (policies : Policies P) (client : Client) :
    responseWithLocalData policies client = respond (tables policies) client := by
  unfold responseWithLocalData respond tables
  cases policies client.view with
  | none => rfl
  | some ps =>
    cases realQueryName client.question (client.response.map fun r => r.message) with
    | error f => rfl
    | ok qname =>
      cases hanswer : PolicyTable.answer (NameTree.get ps) qname client.question.typ with
      | none | some answer => simp [findAnswer_eq, hanswer]

theorem policyAt_getD (policies : Policies P) (view : String) :
    policyAt (tables policies) view =
      NameTree.get ((policies view).getD NameTree.newDomainTree) := by
  cases hview : policies view with
  | some ps => exact policyAt_tables hview
  | none =>
    funext m
    simp [policyAt, tables, hview, NameTree.get_newDomainTree]

theorem stored_eq (ps : P) (name : Name) : stored ps name = NameTree.get ps name := by
  unfold stored
  cases hget : NameTree.get ps name with
  | some p =>
    obtain ⟨above, habove⟩ := NameTree.parents_of_some hget
    rw [NameTree.searchParents_of_some hget, habove]
    rfl
  | none =>
    rw [NameTree.searchParents_of_none hget]
    split_ifs <;> rfl

theorem get_insert_of_none {ps : P} {name : Name} (hnone : NameTree.get ps name = none)
    (p : LocalPolicy) :
    NameTree.get (NameTree.insert ps name p) = Function.update (NameTree.get ps) name (some p) := by
  funext m
  rw [NameTree.get_insert, hnone, Option.getD_none, Function.update_apply]

variable [ErasableNameTree P LocalPolicy] [LawfulErasableNameTree P LocalPolicy]

omit [LawfulNameTree P LocalPolicy] in
theorem get_delete (ps : P) (name : Name) :
    NameTree.get (ErasableNameTree.delete ps name) =
      Function.update (NameTree.get ps) name none := by
  funext m
  rw [LawfulErasableNameTree.get_delete, Function.update_apply]

theorem get_put (ps : P) (name : Name) (p : LocalPolicy) :
    NameTree.get (put ps name p) = Function.update (NameTree.get ps) name (some p) := by
  have hnone : NameTree.get (ErasableNameTree.delete ps name) name = none := by
    rw [get_delete, Function.update_self]
  rw [put, get_insert_of_none hnone, get_delete, Function.update_idem]

end

end Vanguard.LocalData
