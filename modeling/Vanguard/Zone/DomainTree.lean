import Vanguard.Dns.Name

namespace Vanguard.Zone

open Library Option

/-- `domaintree.Node`: its data, nil for an empty node, and the two flags the zone uses. -/
structure Node (D : Type) where
  data : Option D
  callback : Bool
  /-- `NF_USER1`, which the zone calls `wildcardMark`. -/
  wildcardMark : Bool
  deriving DecidableEq

/-- A node as `Insert` creates it. -/
def Node.fresh {D : Type} : Node D := ⟨none, false, false⟩

inductive SearchResult where
  | exactMatch
  | partialMatch
  | notFound
  deriving DecidableEq, Repr

/-- The node, the outcome, and whether the last comparison was `SUPERDOMAIN`. -/
structure SearchOut where
  node : Name
  result : SearchResult
  /-- `LastComparison().Relation == SUPERDOMAIN`. -/
  superDomain : Bool
  deriving DecidableEq, Repr

/-- The operations of `g53/domaintree`. `setNode` is a write through a node pointer. -/
class DomainTree (T : Type) (D : outParam Type) where
  newDomainTree : T
  node : T → Name → Option (Node D)
  setNode : T → Name → Node D → T
  insert : T → Name → T
  remove : T → Name → T
  clone : (D → D) → T → T
  isNodeNonTerminal : T → Name → Bool
  superDomain : T → Name → Bool
  search : T → Name → Name × SearchResult
  searchExt {σ ε : Type} : T → Name → (Node D → σ → Except ε (Bool × σ)) → σ →
    Except ε (SearchOut × σ)

export DomainTree (newDomainTree node setNode insert remove clone isNodeNonTerminal superDomain
  search searchExt)

section

variable {T D : Type} [DomainTree T D]

/-- The nodes strictly above a name, in the order a descent meets them. -/
def pathTo (t : T) (n : Name) : List (Name × Node D) :=
  (properSuffixes n).filterMap (fun m => (node t m).map (fun nd => (m, nd)))

/-- Call the callback on the flagged nodes of a path until it asks to stop. -/
def walk {σ ε : Type} (callback : Node D → σ → Except ε (Bool × σ)) :
    List (Name × Node D) → σ → Except ε (Option Name × σ)
  | [], s => .ok (none, s)
  | (n, nd) :: rest, s =>
    if nd.callback then
      match callback nd s with
      | .ok (true, s') => .ok (some n, s')
      | .ok (false, s') => walk callback rest s'
      | .error e => .error e
    else walk callback rest s

def HasNodeBelow (t : T) (n : Name) : Prop := ∃ m, m ≠ n ∧ n <:+ m ∧ (node t m).isSome

end

/-- What the zone relies on in `g53/domaintree`. -/
class LawfulDomainTree (T : Type) (D : outParam Type) [DomainTree T D] : Prop where
  node_newDomainTree : ∀ n, node (newDomainTree : T) n = none
  node_setNode : ∀ (t : T) n nd m,
    node (setNode t n nd) m = if m = n then (node t n).map (fun _ => nd) else node t m
  node_insert_self : ∀ (t : T) n, node (insert t n) n = some ((node t n).getD Node.fresh)
  node_insert_of_some : ∀ (t : T) n m nd, node t m = some nd → node (insert t n) m = some nd
  /-- Besides the inserted name, only a point where it diverges from a stored name gets a node. -/
  node_insert_of_none : ∀ (t : T) n m, m ≠ n → node t m = none →
    node (insert t n) m = none ∨
      (node (insert t n) m = some Node.fresh ∧ m <:+ n ∧ ∃ k, m <:+ k ∧ (node t k).isSome)
  node_remove_of_none : ∀ (t : T) n m, node t m = none → node (remove t n) m = none
  /-- A removed name with nodes below it keeps its node and its flags, emptied. -/
  node_remove_inner : ∀ (t : T) n nd, node t n = some nd → HasNodeBelow t n →
    node (remove t n) n = some { nd with data := none }
  node_remove_leaf : ∀ (t : T) n, ¬HasNodeBelow t n → node (remove t n) n = none
  /-- Any other node is kept, unless it is empty and nothing is left below it. -/
  node_remove_of_ne : ∀ (t : T) n m nd, m ≠ n → node t m = some nd →
    node (remove t n) m = some nd ∨
      (nd.data = none ∧ node (remove t n) m = none ∧ ¬HasNodeBelow (remove t n) m)
  node_clone : ∀ (f : D → D) (t : T) n,
    node (clone f t) n = (node t n).map (fun nd => { nd with data := nd.data.map f })
  isNodeNonTerminal_iff : ∀ (t : T) n, isNodeNonTerminal t n = true ↔ HasNodeBelow t n
  /-- A search for a name without node ends with `SUPERDOMAIN` when there are nodes below it. -/
  superDomain_iff : ∀ (t : T) n, node t n = none → (superDomain t n = true ↔ HasNodeBelow t n)
  /-- A search returns the node of the name, else the deepest node above it. -/
  search_eq : ∀ (t : T) n, search t n =
    match longestSuffix (fun m => (node t m).isSome) n with
    | some m => (m, if m = n then .exactMatch else .partialMatch)
    | none => ([], .notFound)
  /-- The callback sees the flagged nodes above the name, from the top, until it stops. -/
  searchExt_eq : ∀ {σ ε : Type} (t : T) n (callback : Node D → σ → Except ε (Bool × σ)) s,
    searchExt t n callback s =
      match walk callback (pathTo t n) s with
      | .ok (some m, s') => .ok (⟨m, .partialMatch, false⟩, s')
      | .ok (none, s') => .ok (⟨(search t n).1, (search t n).2, superDomain t n⟩, s')
      | .error e => .error e

export LawfulDomainTree (node_newDomainTree node_setNode node_insert_self node_insert_of_some
  node_insert_of_none node_remove_of_none node_remove_inner node_remove_leaf node_remove_of_ne
  node_clone isNodeNonTerminal_iff superDomain_iff search_eq searchExt_eq)

section

variable {T D : Type} [DomainTree T D]

section

variable (t : T) (n : Name)

def dataAt : Option D := (node t n).bind Node.data

/-- Whether the name has a node that carries `NF_CALLBACK`. -/
def callbackAt : Bool := ((node t n).map Node.callback).getD false

def markAt : Bool := ((node t n).map Node.wildcardMark).getD false

def modifyNode (f : Node D → Node D) : T :=
  match node t n with
  | some nd => setNode t n (f nd)
  | none => t

def setData (d : D) : T := modifyNode t n (fun nd => { nd with data := some d })

/-- `SetFlag(NF_CALLBACK, b)`. -/
def setCallback (b : Bool) : T :=
  modifyNode t n (fun nd => { nd with callback := b })

/-- `SetFlag(wildcardMark, b)`. -/
def setMark (b : Bool) : T :=
  modifyNode t n (fun nd => { nd with wildcardMark := b })

end

variable {t : T} {n : Name}

theorem isSome_node_of_dataAt {d : D} (hd : dataAt t n = some d) : (node t n).isSome = true := by
  cases hn : node t n with
  | none => simp [dataAt, hn] at hd
  | some nd => rfl

theorem isSome_node_of_markAt (hmark : markAt t n = true) : (node t n).isSome = true := by
  cases hn : node t n with
  | none => simp [markAt, hn] at hmark
  | some nd => rfl

variable [LawfulDomainTree T D]

@[simp] theorem dataAt_newDomainTree (n : Name) : dataAt (newDomainTree : T) n = none := by
  simp [dataAt, node_newDomainTree]

@[simp] theorem callbackAt_newDomainTree (n : Name) :
    callbackAt (newDomainTree : T) n = false := by
  simp [callbackAt, node_newDomainTree]

@[simp] theorem markAt_newDomainTree (n : Name) : markAt (newDomainTree : T) n = false := by
  simp [markAt, node_newDomainTree]

theorem node_modifyNode (t : T) (n : Name) (f : Node D → Node D) (m : Name) :
    node (modifyNode t n f) m = if m = n then (node t n).map f else node t m := by
  unfold modifyNode
  cases hn : node t n with
  | none =>
    by_cases hm : m = n
    · simp [hm, hn]
    · simp [hm]
  | some nd => simp [node_setNode, hn]

theorem attr_node_modifyNode {β : Type} (attr : Option (Node D) → β) {f : Node D → Node D}
    (hattr : ∀ nd, attr (some (f nd)) = attr (some nd)) (t : T) (n m : Name) :
    attr (node (modifyNode t n f) m) = attr (node t m) := by
  rw [node_modifyNode]
  by_cases hm : m = n
  · subst hm
    cases hn : node t m with
    | none => simp
    | some nd => simp [hattr]
  · rw [if_neg hm]

section

variable (t : T) (n m : Name)

theorem node_insert :
    node (insert t n) m = node t m ∨ (node t m = none ∧ node (insert t n) m = some Node.fresh) := by
  cases hm : node t m with
  | some nd => exact .inl (node_insert_of_some t n m nd hm)
  | none =>
    by_cases hmn : m = n
    · subst hmn
      right
      rw [node_insert_self, hm]
      exact ⟨rfl, rfl⟩
    · rcases node_insert_of_none t n m hmn hm with hnone | ⟨hfresh, _⟩
      · exact .inl hnone
      · exact .inr ⟨rfl, hfresh⟩

@[simp] theorem dataAt_insert : dataAt (insert t n) m = dataAt t m := by
  rcases node_insert t n m with h | ⟨hnone, hfresh⟩
  · simp only [dataAt, h]
  · simp [dataAt, hnone, hfresh, Node.fresh]

@[simp] theorem callbackAt_insert : callbackAt (insert t n) m = callbackAt t m := by
  rcases node_insert t n m with h | ⟨hnone, hfresh⟩
  · simp only [callbackAt, h]
  · simp [callbackAt, hnone, hfresh, Node.fresh]

@[simp] theorem markAt_insert : markAt (insert t n) m = markAt t m := by
  rcases node_insert t n m with h | ⟨hnone, hfresh⟩
  · simp only [markAt, h]
  · simp [markAt, hnone, hfresh, Node.fresh]

end

@[simp] theorem isSome_node_insert_self (t : T) (n : Name) :
    (node (insert t n) n).isSome = true := by
  simp [node_insert_self]

theorem isSome_node_insert {m : Name} (hm : (node t m).isSome = true) (n : Name) :
    (node (insert t n) m).isSome = true := by
  obtain ⟨nd, hnd⟩ := isSome_iff_exists.mp hm
  rw [node_insert_of_some t n m nd hnd]
  rfl

theorem dataAt_setData (hn : (node t n).isSome = true) (d : D) (m : Name) :
    dataAt (setData t n d) m = if m = n then some d else dataAt t m := by
  obtain ⟨nd, hnd⟩ := isSome_iff_exists.mp hn
  by_cases hm : m = n <;> simp [dataAt, setData, node_modifyNode, hm, hnd]

section

variable (t : T) (n : Name)

@[simp] theorem callbackAt_setData (d : D) (m : Name) :
    callbackAt (setData t n d) m = callbackAt t m := by
  refine attr_node_modifyNode (fun nd => (nd.map Node.callback).getD false) ?_ t n m
  exact fun _ => rfl

@[simp] theorem markAt_setData (d : D) (m : Name) : markAt (setData t n d) m = markAt t m := by
  refine attr_node_modifyNode (fun nd => (nd.map Node.wildcardMark).getD false) ?_ t n m
  exact fun _ => rfl

@[simp] theorem isSome_node_modifyNode (f : Node D → Node D) (m : Name) :
    (node (modifyNode t n f) m).isSome = (node t m).isSome := by
  by_cases hm : m = n <;> simp [node_modifyNode, hm]

@[simp] theorem dataAt_setCallback (b : Bool) (m : Name) :
    dataAt (setCallback t n b) m = dataAt t m := by
  refine attr_node_modifyNode (fun nd => nd.bind Node.data) ?_ t n m
  exact fun _ => rfl

end

theorem callbackAt_setCallback (hn : (node t n).isSome = true) (b : Bool) (m : Name) :
    callbackAt (setCallback t n b) m = if m = n then b else callbackAt t m := by
  obtain ⟨nd, hnd⟩ := isSome_iff_exists.mp hn
  by_cases hm : m = n <;> simp [callbackAt, setCallback, node_modifyNode, hm, hnd]

section

variable (t : T) (n : Name) (b : Bool) (m : Name)

@[simp] theorem markAt_setCallback : markAt (setCallback t n b) m = markAt t m := by
  refine attr_node_modifyNode (fun nd => (nd.map Node.wildcardMark).getD false) ?_ t n m
  exact fun _ => rfl

@[simp] theorem dataAt_setMark : dataAt (setMark t n b) m = dataAt t m := by
  refine attr_node_modifyNode (fun nd => nd.bind Node.data) ?_ t n m
  exact fun _ => rfl

@[simp] theorem callbackAt_setMark : callbackAt (setMark t n b) m = callbackAt t m := by
  refine attr_node_modifyNode (fun nd => (nd.map Node.callback).getD false) ?_ t n m
  exact fun _ => rfl

end

theorem markAt_setMark (hn : (node t n).isSome = true) (b : Bool) (m : Name) :
    markAt (setMark t n b) m = if m = n then b else markAt t m := by
  obtain ⟨nd, hnd⟩ := isSome_iff_exists.mp hn
  by_cases hm : m = n <;> simp [markAt, setMark, node_modifyNode, hm, hnd]

theorem markAt_setMark_false (t : T) (n m : Name) :
    markAt (setMark t n false) m = if m = n then false else markAt t m := by
  by_cases hm : m = n
  · subst hm
    cases hn : node t m <;> simp [markAt, setMark, node_modifyNode, hn]
  · simp [markAt, setMark, node_modifyNode, hm]

theorem dataAt_remove (t : T) (n m : Name) :
    dataAt (remove t n) m = if m = n then none else dataAt t m := by
  by_cases hm : m = n
  · subst hm
    rw [if_pos rfl]
    by_cases hbelow : HasNodeBelow t m
    · cases hnode : node t m with
      | none => simp [dataAt, node_remove_of_none t m m hnode]
      | some nd => simp [dataAt, node_remove_inner t m nd hnode hbelow]
    · simp [dataAt, node_remove_leaf t m hbelow]
  · rw [if_neg hm]
    cases hnode : node t m with
    | none => simp [dataAt, hnode, node_remove_of_none t n m hnode]
    | some nd =>
      rcases node_remove_of_ne t n m nd hm hnode with hkept | ⟨hdata, hgone, _⟩
      · simp [dataAt, hnode, hkept]
      · simp [dataAt, hnode, hgone, hdata]

theorem node_remove_flags {n m : Name} {nd : Node D} (h : node (remove t n) m = some nd) :
    ∃ old, node t m = some old ∧ nd.callback = old.callback ∧
      nd.wildcardMark = old.wildcardMark := by
  cases hnode : node t m with
  | none =>
    rw [node_remove_of_none t n m hnode] at h
    cases h
  | some old =>
    refine ⟨old, rfl, ?_⟩
    by_cases hm : m = n
    · subst hm
      by_cases hbelow : HasNodeBelow t m
      · rw [node_remove_inner t m old hnode hbelow] at h
        cases h
        exact ⟨rfl, rfl⟩
      · rw [node_remove_leaf t m hbelow] at h
        cases h
    · rcases node_remove_of_ne t n m old hm hnode with hkept | ⟨_, hgone, _⟩
      · rw [hkept] at h
        cases h
        exact ⟨rfl, rfl⟩
      · rw [hgone] at h
        cases h

theorem markAt_of_remove {n m : Name} (h : markAt (remove t n) m = true) : markAt t m = true := by
  cases hnode : node (remove t n) m with
  | none => simp [markAt, hnode] at h
  | some nd =>
    obtain ⟨old, hold, _, hflag⟩ := node_remove_flags hnode
    simp only [markAt, hnode, map_some, getD_some] at h
    simp [markAt, hold, ← hflag, h]

theorem isSome_node_remove {n m : Name} (hm : (node t m).isSome = true)
    (hbelow : HasNodeBelow (remove t n) m) : (node (remove t n) m).isSome = true := by
  obtain ⟨nd, hnd⟩ := isSome_iff_exists.mp hm
  by_cases hmn : m = n
  · subst hmn
    have hbefore : HasNodeBelow t m := by
      obtain ⟨k, hk, hmk, hsome⟩ := hbelow
      refine ⟨k, hk, hmk, ?_⟩
      cases hnode : node t k with
      | none => simp [node_remove_of_none t m k hnode] at hsome
      | some _ => rfl
    rw [node_remove_inner t m nd hnd hbefore]
    rfl
  · rcases node_remove_of_ne t n m nd hmn hnd with hkept | ⟨_, _, hnone⟩
    · rw [hkept]
      rfl
    · exact absurd hbelow hnone

theorem flags_remove {n m : Name} (h : (node (remove t n) m).isSome = true) :
    callbackAt (remove t n) m = callbackAt t m ∧ markAt (remove t n) m = markAt t m := by
  obtain ⟨nd, hnd⟩ := isSome_iff_exists.mp h
  obtain ⟨old, hold, hcallback, hmark⟩ := node_remove_flags hnd
  simp [callbackAt, markAt, hnd, hold, hcallback, hmark]

section

variable (f : D → D) (t : T) (n : Name)

theorem dataAt_clone : dataAt (clone f t) n = (dataAt t n).map f := by
  cases hn : node t n <;> simp [dataAt, node_clone, hn]

@[simp] theorem callbackAt_clone : callbackAt (clone f t) n = callbackAt t n := by
  cases hn : node t n <;> simp [callbackAt, node_clone, hn]

@[simp] theorem markAt_clone : markAt (clone f t) n = markAt t n := by
  cases hn : node t n <;> simp [markAt, node_clone, hn]

end

theorem search_exactMatch_iff (t : T) (n : Name) :
    (search t n).2 = .exactMatch ↔ (node t n).isSome = true := by
  rw [search_eq]
  cases hfind : longestSuffix (fun m => (node t m).isSome) n with
  | none =>
    have hnone := longestSuffix_eq_none.mp hfind n List.suffix_rfl
    simp [hnone]
  | some m =>
    obtain ⟨hm, hsome, hmax⟩ := longestSuffix_eq_some.mp hfind
    by_cases hmn : m = n
    · subst hmn
      simp [hsome]
    · have hnone : (node t n).isSome ≠ true := fun h =>
        hmn (suffix_antisymm hm (hmax n List.suffix_rfl h))
      simp [hmn, hnone]

theorem search_of_dataAt {t : T} {n : Name} {d : D} (hdata : dataAt t n = some d) :
    ∃ m, search t n = (m, .exactMatch) :=
  ⟨_, Prod.ext rfl ((search_exactMatch_iff t n).mpr (isSome_node_of_dataAt hdata))⟩

end

end Vanguard.Zone
