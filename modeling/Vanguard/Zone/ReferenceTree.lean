import Vanguard.Zone.DomainTree

namespace Vanguard.Zone

open Library List

variable {D : Type}

structure ReferenceTree (D : Type) where
  nodes : List (Name × Node D)

namespace ReferenceTree

section

variable (t : ReferenceTree D)

def get (n : Name) : Option (Node D) := t.nodes.lookup n

def put (n : Name) (nd : Node D) : ReferenceTree D := ⟨(n, nd) :: t.nodes⟩

def drop (n : Name) : ReferenceTree D := ⟨t.nodes.filter (fun e => e.1 ≠ n)⟩

def names : List Name := t.nodes.map Prod.fst

end

def divergence (n m : Name) : Name := (longestSuffix (fun k => decide (k <:+ m)) n).getD []

section

variable (t : ReferenceTree D)

def splitPoints (n : Name) : List Name :=
  (t.names.map (divergence n)).filter (fun m => t.names.any (fun k => decide (k <:+ m)))

def putFresh (n : Name) : ReferenceTree D :=
  if (t.get n).isSome then t else t.put n Node.fresh

def prunable (n m : Name) : Bool :=
  t.names.all (fun k => !decide (m <:+ k) ||
    (decide (k <:+ n) && ((t.get k).bind Node.data).isNone))

def hasBelow (n : Name) : Bool :=
  t.names.any (fun k => decide (k ≠ n) && decide (n <:+ k))

def find (n : Name) : Name × SearchResult :=
  match longestSuffix (fun m => (t.get m).isSome) n with
  | some m => (m, if m = n then .exactMatch else .partialMatch)
  | none => ([], .notFound)

def clear (n : Name) : ReferenceTree D :=
  match t.get n with
  | none => t
  | some nd =>
    let emptied := t.put n { nd with data := none }
    (n.tails.filter (emptied.prunable n)).foldl drop emptied

end

def flaggedWalk {σ ε : Type} (t : ReferenceTree D)
    (callback : Node D → σ → Except ε (Bool × σ)) (n : Name) (s : σ) :
    Except ε (Option Name × σ) :=
  walk callback ((properSuffixes n).filterMap (fun m => (t.get m).map (fun nd => (m, nd)))) s

instance : DomainTree (ReferenceTree D) D where
  newDomainTree := ⟨[]⟩
  node := get
  setNode t n nd := if (t.get n).isSome then t.put n nd else t
  insert t n := (n :: t.splitPoints n).foldl putFresh t
  remove := clear
  clone f t := ⟨t.nodes.map (fun e => (e.1, { e.2 with data := e.2.data.map f }))⟩
  isNodeNonTerminal := hasBelow
  superDomain := hasBelow
  search := find
  searchExt t n callback s :=
    match t.flaggedWalk callback n s with
    | .ok (some m, s') => .ok (⟨m, .partialMatch, false⟩, s')
    | .ok (none, s') => .ok (⟨(t.find n).1, (t.find n).2, t.hasBelow n⟩, s')
    | .error e => .error e

theorem get_put (t : ReferenceTree D) (n : Name) (nd : Node D) (m : Name) :
    (t.put n nd).get m = if m = n then some nd else t.get m := by
  by_cases hm : m = n
  · simp [get, put, hm]
  · have hbeq : (m == n) = false := by simpa using hm
    simp [get, put, lookup_cons, hm, hbeq]

theorem get_drop (t : ReferenceTree D) (n m : Name) :
    (t.drop n).get m = if m = n then none else t.get m := by
  obtain ⟨nodes⟩ := t
  simp only [get, drop]
  induction nodes with
  | nil => simp
  | cons e nodes ih =>
    obtain ⟨k, nd⟩ := e
    by_cases hk : k = n
    · subst hk
      rw [filter_cons_of_neg (by simp), ih, lookup_cons]
      by_cases hm : m = k
      · simp [hm]
      · have hbeq : (m == k) = false := by simpa using hm
        simp [hm, hbeq]
    · rw [filter_cons_of_pos (by simpa using hk), lookup_cons, lookup_cons, ih]
      by_cases hmk : m = k
      · subst hmk
        simp [hk]
      · have hbeq : (m == k) = false := by simpa using hmk
        simp [hbeq]

variable {t : ReferenceTree D} {n : Name}

theorem mem_names : n ∈ t.names ↔ (t.get n).isSome = true := by
  obtain ⟨nodes⟩ := t
  simp only [names, get]
  induction nodes with
  | nil => simp
  | cons e nodes ih =>
    obtain ⟨k, nd⟩ := e
    rw [map_cons, mem_cons, ih, lookup_cons]
    by_cases hn : n = k
    · simp [hn]
    · have hbeq : (n == k) = false := by simpa using hn
      simp [hn, hbeq]

theorem get_foldl_putFresh (ns : List Name) (t : ReferenceTree D) (m : Name) :
    (ns.foldl putFresh t).get m =
      if (t.get m).isSome then t.get m else if m ∈ ns then some Node.fresh else none := by
  induction ns generalizing t with
  | nil => cases hm : t.get m <;> simp [hm]
  | cons n ns ih =>
    rw [foldl_cons, ih]
    unfold putFresh
    by_cases hn : (t.get n).isSome = true
    · rw [if_pos hn]
      by_cases hmn : m = n
      · simp [hmn, hn]
      · simp [hmn]
    · rw [if_neg hn, get_put]
      by_cases hmn : m = n
      · simp [hmn, hn]
      · simp [hmn]

theorem get_foldl_drop (ns : List Name) (t : ReferenceTree D) (m : Name) :
    (ns.foldl drop t).get m = if m ∈ ns then none else t.get m := by
  induction ns generalizing t with
  | nil => simp
  | cons n ns ih =>
    rw [foldl_cons, ih, get_drop]
    by_cases hmn : m = n
    · simp [hmn]
    · simp [hmn]

theorem divergence_suffix (n m : Name) : divergence n m <:+ n ∧ divergence n m <:+ m := by
  unfold divergence
  cases hfind : longestSuffix (fun k => decide (k <:+ m)) n with
  | none => simp
  | some k =>
    obtain ⟨hk, hdec, _⟩ := longestSuffix_eq_some.mp hfind
    exact ⟨hk, of_decide_eq_true hdec⟩

theorem prunable_eq_true {n m : Name} : t.prunable n m = true ↔
      ∀ k, (t.get k).isSome = true → m <:+ k → k <:+ n ∧ (t.get k).bind Node.data = none := by
  simp only [prunable, all_eq_true, mem_names, Bool.or_eq_true, Bool.not_eq_true',
    decide_eq_false_iff_not, Bool.and_eq_true, decide_eq_true_eq, Option.isNone_iff_eq_none]
  constructor
  · intro h k hk hmk
    exact (h k hk).resolve_left (fun hnot => hnot hmk)
  · intro h k hk
    by_cases hmk : m <:+ k
    · exact .inr (h k hk hmk)
    · exact .inl hmk

theorem get_clear {nd : Node D} (hn : t.get n = some nd) (m : Name) : (t.clear n).get m =
      if m <:+ n ∧ (t.put n { nd with data := none }).prunable n m = true then none
      else (t.put n { nd with data := none }).get m := by
  simp only [clear, hn, get_foldl_drop, mem_filter, mem_tails]

theorem hasBelow_eq_true : t.hasBelow n = true ↔ HasNodeBelow t n := by
  simp only [hasBelow, any_eq_true, mem_names, Bool.and_eq_true, decide_eq_true_eq, HasNodeBelow]
  constructor
  · rintro ⟨m, hm, hne, hnm⟩
    exact ⟨m, hne, hnm, hm⟩
  · rintro ⟨m, hne, hnm, hm⟩
    exact ⟨m, hm, hne, hnm⟩

theorem get_clone (f : D → D) (t : ReferenceTree D) (n : Name) :
    (clone f t).get n = (t.get n).map (fun nd => { nd with data := nd.data.map f }) := by
  obtain ⟨nodes⟩ := t
  simp only [clone, get]
  induction nodes with
  | nil => rfl
  | cons e nodes ih =>
    obtain ⟨k, nd⟩ := e
    rw [map_cons, lookup_cons, lookup_cons, ih]
    cases n == k <;> rfl

instance : LawfulDomainTree (ReferenceTree D) D where
  node_newDomainTree _ := rfl
  node_setNode t n nd m := by
    change (if (t.get n).isSome then t.put n nd else t).get m = _
    change _ = if m = n then (t.get n).map (fun _ => nd) else t.get m
    cases hn : t.get n with
    | none =>
      by_cases hm : m = n
      · simp [hm, hn]
      · simp [hm]
    | some old => simp [get_put]
  node_insert_self t n := by
    change ((n :: t.splitPoints n).foldl putFresh t).get n = some ((t.get n).getD Node.fresh)
    rw [get_foldl_putFresh]
    cases hn : t.get n <;> simp
  node_insert_of_some t n m nd hm := by
    change ((n :: t.splitPoints n).foldl putFresh t).get m = some nd
    have hm' : t.get m = some nd := hm
    rw [get_foldl_putFresh, hm']
    simp
  node_insert_of_none t n m hne hm := by
    have hm' : t.get m = none := hm
    have hget : node (insert t n) m =
        if m ∈ n :: t.splitPoints n then some Node.fresh else none := by
      change ((n :: t.splitPoints n).foldl putFresh t).get m = _
      rw [get_foldl_putFresh, hm']
      simp
    by_cases hmem : m ∈ t.splitPoints n
    · right
      refine ⟨by simpa [hmem] using hget, ?_⟩
      obtain ⟨hpoint, _⟩ := mem_filter.mp hmem
      obtain ⟨k, hk, rfl⟩ := mem_map.mp hpoint
      obtain ⟨hleft, hright⟩ := divergence_suffix n k
      exact ⟨hleft, k, hright, mem_names.mp hk⟩
    · left
      simpa [hmem, hne] using hget
  node_remove_of_none t n m hm := by
    change (t.clear n).get m = none
    have hm' : t.get m = none := hm
    cases hn : t.get n with
    | none => simpa [clear, hn] using hm'
    | some nd =>
      have hmn : m ≠ n := by
        rintro rfl
        rw [hm'] at hn
        cases hn
      rw [get_clear hn, get_put, if_neg hmn, hm']
      simp
  node_remove_inner t n nd hn hbelow := by
    change (t.clear n).get n = _
    have hn' : t.get n = some nd := hn
    obtain ⟨k, hkn, hnk, hk⟩ := hbelow
    have hk' : (t.get k).isSome = true := hk
    rw [get_clear hn', if_neg, get_put, if_pos rfl]
    rintro ⟨_, hprunable⟩
    have hkept := prunable_eq_true.mp hprunable k (by rw [get_put, if_neg hkn]; exact hk') hnk
    exact hkn (suffix_antisymm hkept.1 hnk)
  node_remove_leaf t n hleaf := by
    change (t.clear n).get n = none
    cases hn : t.get n with
    | none => simp [clear, hn]
    | some nd =>
      rw [get_clear hn, if_pos]
      refine ⟨suffix_rfl, prunable_eq_true.mpr fun k hk hnk => ?_⟩
      by_cases hkn : k = n
      · subst hkn
        exact ⟨suffix_rfl, by simp [get_put]⟩
      · rw [get_put, if_neg hkn] at hk
        exact absurd ⟨k, hkn, hnk, hk⟩ hleaf
  node_remove_of_ne t n m nd hne hm := by
    change (t.clear n).get m = some nd ∨ (_ ∧ (t.clear n).get m = none ∧ _)
    have hm' : t.get m = some nd := hm
    cases hn : t.get n with
    | none => exact .inl (by simpa [clear, hn] using hm')
    | some old =>
      have hput : (t.put n { old with data := none }).get m = some nd := by
        rw [get_put, if_neg hne, hm']
      by_cases hpruned : m <:+ n ∧ (t.put n { old with data := none }).prunable n m = true
      · right
        have hall := prunable_eq_true.mp hpruned.2
        refine ⟨?_, by rw [get_clear hn, if_pos hpruned], ?_⟩
        · have hdata := (hall m (by simp [hput]) suffix_rfl).2
          simpa [hput] using hdata
        · rintro ⟨k, hkm, hmk, hk⟩
          change ((t.clear n).get k).isSome = true at hk
          rw [get_clear hn] at hk
          by_cases hcond : k <:+ n ∧ (t.put n { old with data := none }).prunable n k = true
          · simp [hcond] at hk
          · rw [if_neg hcond] at hk
            apply hcond
            refine ⟨(hall k hk hmk).1, prunable_eq_true.mpr fun j hj hkj => ?_⟩
            exact hall j hj (hmk.trans hkj)
      · left
        rw [get_clear hn, if_neg hpruned, hput]
  node_clone f t n := get_clone f t n
  isNodeNonTerminal_iff _ _ := hasBelow_eq_true
  superDomain_iff _ _ _ := hasBelow_eq_true
  search_eq _ _ := rfl
  searchExt_eq _ _ _ _ := rfl

theorem mem_nodes_of_dataAt {d : D} (hdata : dataAt t n = some d) :
    ∃ nd, (n, nd) ∈ t.nodes ∧ nd.data = some d := by
  obtain ⟨nd, hnode, hnd⟩ := Option.bind_eq_some_iff.mp hdata
  have hget : t.nodes.lookup n = some nd := hnode
  obtain ⟨before, after, heq, _⟩ := lookup_eq_some_iff.mp hget
  exact ⟨nd, by simp [heq], hnd⟩

end ReferenceTree

end Vanguard.Zone
