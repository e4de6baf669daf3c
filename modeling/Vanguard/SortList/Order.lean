import Vanguard.Library.Runs
import Vanguard.SortList.Sorter

namespace Vanguard.SortList

open Library List

section trees

variable {g : Addresses}

section

variable (g : Addresses) (l : List String)

def placeOf (n : Network) : Option ℕ :=
  l.findIdx? fun text => (g.network text).toOption = some n

def BestMatch (host : List UInt8) (i : ℕ) : Prop :=
  ∃ n, placeOf g l n = some i ∧ n <:+ g.bits host ∧
    ∀ m, m <:+ g.bits host → (placeOf g l m).isSome → m <:+ n

def Precedes (x y : List UInt8) : Prop :=
  ∃ i, BestMatch g l x i ∧ ∀ j, BestMatch g l y j → i < j

end

theorem placeOf_cons (text : String) (l : List String) (n : Network) :
    placeOf g (text :: l) n =
      if (g.network text).toOption = some n then some 0 else (placeOf g l n).map (· + 1) := by
  simp [placeOf, findIdx?_cons]

theorem value_add (t : Tree ℕ) (text : String) (i : ℕ) (n : Network) :
    ((t.add g text i).toOption.getD t).value n =
      (t.value n).or (if (g.network text).toOption = some n then some i else none) := by
  unfold Tree.add
  cases g.network text with
  | error e => simp [Except.toOption, bind, Except.bind]
  | ok m =>
    by_cases hm : m = n
    · subst hm
      cases hold : t.value m with
      | some v => simp [Except.toOption, bind, Except.bind, hold]
      | none => simp [Except.toOption, bind, Except.bind, pure, Except.pure, hold]
    · by_cases hbusy : (t.value m).isSome
      · simp [Except.toOption, bind, Except.bind, hbusy, hm]
      · simp [Except.toOption, bind, Except.bind, pure, Except.pure, hbusy, hm, Ne.symm hm]

theorem value_addOrders (l : List String) (i : ℕ) (t : Tree ℕ) (n : Network) :
    (addOrders g l i t).value n = (t.value n).or ((placeOf g l n).map (· + i)) := by
  induction l generalizing i t with
  | nil => simp [addOrders, placeOf]
  | cons text l ih =>
    rw [addOrders, ih, value_add, placeOf_cons, Option.or_assoc]
    split_ifs
    · simp
    · simp [Option.map_map, Function.comp_def, Nat.add_left_comm, Nat.add_comm]

theorem value_newOrderTree (l : List String) (n : Network) :
    (newOrderTree g l).value n = placeOf g l n := by
  rw [newOrderTree, value_addOrders]
  simp [Tree.newNetRadixTree]

variable {l : List String}

theorem searchBest_newOrderTree {host : List UInt8} {i : ℕ} :
    (newOrderTree g l).searchBest g host = some i ↔ BestMatch g l host i := by
  simp only [Tree.searchBest, value_newOrderTree, Option.bind_eq_some_iff, longestSuffix_eq_some,
    BestMatch]
  constructor
  · rintro ⟨n, ⟨hn, -, hmax⟩, hi⟩
    exact ⟨n, hi, hn, hmax⟩
  · rintro ⟨n, hi, hn, hmax⟩
    exact ⟨n, ⟨hn, by simp [hi], hmax⟩, hi⟩

theorem BestMatch.lt_length {host : List UInt8} {i : ℕ} (h : BestMatch g l host i) :
    i < l.length := by
  obtain ⟨n, hi, -⟩ := h
  exact (findIdx?_eq_some_iff_getElem.mp hi).1

def order (g : Addresses) (tree : Tree ℕ) (host : List UInt8) : ℕ :=
  (tree.searchBest g host).getD maxOrderCnt

theorem order_lt (hlen : l.length ≤ maxOrderCnt) {x y : List UInt8} (h : Precedes g l x y) :
    order g (newOrderTree g l) x < order g (newOrderTree g l) y := by
  obtain ⟨i, hi, hlt⟩ := h
  rw [order, searchBest_newOrderTree.mpr hi, Option.getD_some, order]
  cases hy : (newOrderTree g l).searchBest g y with
  | none => exact lt_of_lt_of_le hi.lt_length hlen
  | some j => exact hlt j (searchBest_newOrderTree.mp hy)

end trees

section sorting

variable {g : Addresses} {h h' : Objects} {typ : RRType} {rdatas : List Ptr}

def hostAt (h : Objects) (typ : RRType) (rdata : Ptr) : List UInt8 :=
  (Cache.hostOf typ (h.rdatas.load rdata)).getD []

theorem rrOrders_eq (g : Addresses) (tree : Tree ℕ)
    (hhosts : ∀ d ∈ rdatas, (Cache.hostOf typ (h.rdatas.load d)).isSome) (rrOrder : Ptr → ℕ) :
    ∃ rrOrder', rrOrders g h tree typ rdatas rrOrder = .ok rrOrder' ∧
      ∀ d, rrOrder' d = if d ∈ rdatas then order g tree (hostAt h typ d) else rrOrder d := by
  induction rdatas generalizing rrOrder with
  | nil => exact ⟨rrOrder, rfl, by simp⟩
  | cons rdata rdatas ih =>
    obtain ⟨host, hhost⟩ := Option.isSome_iff_exists.mp (hhosts rdata mem_cons_self)
    obtain ⟨rrOrder', hok, heq⟩ := ih (fun d hd => hhosts d (mem_cons_of_mem _ hd))
      (Function.update rrOrder rdata (order g tree host))
    refine ⟨rrOrder', by rw [rrOrders, hhost]; exact hok, fun d => ?_⟩
    rw [heq]
    by_cases hmem : d ∈ rdatas
    · simp [hmem]
    · by_cases hd : d = rdata
      · simp [hd, hostAt, hhost]
      · simp [hmem, hd]

theorem consistent_rrsetSortWrapper (priorities : Ptr → ℕ) (rrset : Ptr) :
    Consistent (rrsetSortWrapper priorities rrset)
      fun h => (h.rrsets.load rrset).rdatas.map priorities where
  less_eq _ _ _ := rfl
  view_swap h i j := by
    simp only [rrsetSortWrapper, swapAt_map, Option.map_map]
    exact Option.map_congr fun rdatas _ => by simp

structure Permuted (h h' : Objects) (rrset : Ptr) : Prop where
  rdatas_eq : h'.rdatas = h.rdatas
  next_eq : h'.rrsets.next = h.rrsets.next
  load_eq : ∀ p ≠ rrset, h'.rrsets.load p = h.rrsets.load p
  perm : ((h'.rrsets.load rrset).rdatas).Perm (h.rrsets.load rrset).rdatas
  rrset_eq : h'.rrsets.load rrset =
    { h.rrsets.load rrset with rdatas := (h'.rrsets.load rrset).rdatas }

theorem permuted_run {priorities : Ptr → ℕ} {rrset : Ptr} {program : SortProgram}
    (hrun : program.run (rrsetSortWrapper priorities rrset) h = some h') :
    Permuted h h' rrset := by
  refine SortProgram.run_induction (fun h' => Permuted h h' rrset) ?_ hrun
    ⟨rfl, rfl, fun _ _ => rfl, .refl _, rfl⟩
  rintro mid i j last hmid hswap
  obtain ⟨rdatas, hrdatas, rfl⟩ := Option.map_eq_some_iff.mp hswap
  refine ⟨hmid.rdatas_eq, hmid.next_eq, fun p hp => ?_, ?_, ?_⟩
  · exact (Heap.load_write_of_ne hp _).trans (hmid.load_eq p hp)
  · simpa using (swapAt_perm hrdatas).trans hmid.perm
  · rw [Heap.load_write_self, hmid.rrset_eq]

structure Reordered (h : Objects) (rrset : Ptr) (h' : Objects) (q : Ptr) : Prop where
  extends_eq : h.Extends h'
  perm : (h'.rrsets.load q).rdatas.Perm (h.rrsets.load rrset).rdatas
  rrset_eq : h'.rrsets.load q = { h.rrsets.load rrset with rdatas := (h'.rrsets.load q).rdatas }

variable {program : ℕ → SortProgram}

theorem sort_clone (hsorts : Sorts ℕ program) (priorities : Ptr → ℕ) (rrset : Ptr) :
    ∃ h', (program (h.rrsets.load rrset).rdatas.length).run
        (rrsetSortWrapper priorities h.rrsets.next)
        (h.allocRRset (h.rrsets.load rrset)).1 = some h' ∧
      Reordered h rrset h' h.rrsets.next ∧
      (h'.rrsets.load h.rrsets.next).rdatas.Pairwise fun d e => priorities d ≤ priorities e := by
  have hclone : (h.allocRRset (h.rrsets.load rrset)).1.rrsets.load h.rrsets.next =
      h.rrsets.load rrset := Heap.load_alloc h.rrsets (h.rrsets.load rrset)
  obtain ⟨h', hrun, hsorted⟩ := hsorts.run (consistent_rrsetSortWrapper priorities h.rrsets.next)
    (h.allocRRset (h.rrsets.load rrset)).1
  rw [hclone, length_map] at hrun
  have hpermuted := permuted_run hrun
  refine ⟨h', hrun, ⟨⟨⟨?_, fun p hp => ?_⟩, hpermuted.rdatas_eq⟩, ?_, ?_⟩, pairwise_map.mp hsorted⟩
  · rw [hpermuted.next_eq]
    exact Nat.le_succ _
  · rw [hpermuted.load_eq p (Nat.ne_of_lt hp)]
    exact Heap.load_alloc_of_ne (Nat.ne_of_lt hp) _
  · exact hclone ▸ hpermuted.perm
  · exact hclone ▸ hpermuted.rrset_eq

theorem sort_spec (hsorts : Sorts ℕ program) (s : Sorter) (view : String) (sourceIP : List UInt8)
    {rrset : Ptr} (htyp : (h.rrsets.load rrset).typ = .a ∨ (h.rrsets.load rrset).typ = .aaaa)
    (hhosts : ∀ d ∈ (h.rrsets.load rrset).rdatas,
      (Cache.hostOf (h.rrsets.load rrset).typ (h.rdatas.load d)).isSome) :
    ∃ h' q, sort g program s view sourceIP h rrset = .ok (h', q) ∧ Reordered h rrset h' q ∧
      (orderTree g s view sourceIP = none → h' = h ∧ q = rrset) ∧
      ∀ tree, orderTree g s view sourceIP = some tree →
        (h'.rrsets.load q).rdatas.Pairwise fun d e =>
          order g tree (hostAt h (h.rrsets.load rrset).typ d) ≤
            order g tree (hostAt h (h.rrsets.load rrset).typ e) := by
  have hself : Reordered h rrset h rrset := ⟨.refl h, .refl _, rfl⟩
  have hnot : ¬((h.rrsets.load rrset).typ ≠ .a ∧ (h.rrsets.load rrset).typ ≠ .aaaa) := by
    rw [← not_or, not_not]
    exact htyp
  unfold sort
  by_cases hshort : (h.rrsets.load rrset).rdatas.length < 2
  · refine ⟨h, rrset, if_pos (.inl hshort), hself, fun _ => ⟨rfl, rfl⟩, fun tree _ => ?_⟩
    generalize (h.rrsets.load rrset).rdatas = rdatas at hshort
    match rdatas, hshort with
    | [], _ => exact .nil
    | [d], _ => exact pairwise_singleton _ d
  · cases htree : orderTree g s view sourceIP with
    | none =>
      refine ⟨h, rrset, ?_, hself, fun _ => ⟨rfl, rfl⟩, by simp⟩
      simp [hshort, hnot]
    | some tree =>
      obtain ⟨rrOrder, hrrOrder, horder⟩ := rrOrders_eq g tree hhosts fun _ => 0
      obtain ⟨h', hrun, hreordered, hsorted⟩ := sort_clone (h := h) hsorts rrOrder rrset
      refine ⟨h', h.rrsets.next, ?_, hreordered, by simp, fun tree' htree' => ?_⟩
      · simp [hshort, hnot, hrrOrder, hrun]
      · cases htree'
        refine hsorted.imp_of_mem fun hd he hle => ?_
        rw [horder, horder, if_pos (hreordered.perm.mem_iff.mp hd),
          if_pos (hreordered.perm.mem_iff.mp he)] at hle
        exact hle

end sorting

section states

variable {g : Addresses} {V : Type} {t t' : Tree V} {text : String}

theorem value_of_add {v w : V} {n : Network} (hok : t.add g text v = .ok t')
    (hw : t'.value n = some w) : w = v ∨ t.value n = some w := by
  obtain ⟨m, -, hrest⟩ := bind_eq_ok hok
  split_ifs at hrest
  cases hrest
  by_cases hn : n = m
  · subst hn
    exact .inl (by simpa using hw.symm)
  · exact .inr (by simpa [hn] using hw)

theorem value_of_delete {w : V} {n : Network} (hok : t.delete g text = .ok t')
    (hw : t'.value n = some w) : t.value n = some w := by
  obtain ⟨m, -, hrest⟩ := bind_eq_ok hok
  split_ifs at hrest
  cases hrest
  by_cases hn : n = m
  · subst hn
    simp at hw
  · simpa [hn] using hw

def MadeOfLists (g : Addresses) (t : Tree (Tree ℕ)) : Prop :=
  ∀ n tree, t.value n = some tree → ∃ l, tree = newOrderTree g l

def Prepared (g : Addresses) (s : Sorter) : Prop := ∀ view t, s view = some t → MadeOfLists g t

variable {t t' : Tree (Tree ℕ)}

theorem madeOfLists_add (h : MadeOfLists g t) {l : List String}
    (hok : t.add g text (newOrderTree g l) = .ok t') : MadeOfLists g t' := by
  intro n tree htree
  rcases value_of_add hok htree with hnew | hold
  · exact ⟨l, hnew⟩
  · exact h n tree hold

theorem madeOfLists_delete (h : MadeOfLists g t) (hok : t.delete g text = .ok t') :
    MadeOfLists g t' :=
  fun n tree htree => h n tree (value_of_delete hok htree)

variable {s s' : Sorter} {view : String}

theorem Prepared.update (h : Prepared g s) (ht : MadeOfLists g t) :
    Prepared g (Function.update s view (some t)) := by
  intro view' t' ht'
  by_cases hview : view' = view
  · subst hview
    obtain rfl : t = t' := by simpa using ht'
    exact ht
  · exact h view' t' (by simpa [hview] using ht')

theorem Prepared.addSorter (h : Prepared g s) (view sourceIp : String)
    (preferedIps : List String) :
    Prepared g (SortList.addSorter g s view sourceIp preferedIps).1 := by
  have htree : MadeOfLists g ((s view).getD .newNetRadixTree) := by
    cases hview : s view with
    | none => exact fun n tree htree => by simp [Tree.newNetRadixTree] at htree
    | some t => exact h view t hview
  unfold SortList.addSorter
  cases hadd : Tree.add g ((s view).getD .newNetRadixTree) sourceIp (newOrderTree g preferedIps) with
  | error e => simpa [hadd] using h.update htree
  | ok t => simpa [hadd] using h.update (madeOfLists_add htree hadd)

theorem Prepared.loadSorters {conf : List (String × String × List String)} (h : Prepared g s)
    (hok : SortList.loadSorters g conf s = .ok s') : Prepared g s' := by
  induction conf generalizing s with
  | nil =>
    cases hok
    exact h
  | cons c conf ih =>
    have hadded := h.addSorter c.1 c.2.1 c.2.2
    rw [SortList.loadSorters] at hok
    cases hresult : SortList.addSorter g s c.1 c.2.1 c.2.2 with
    | mk added e =>
      rw [hresult] at hok hadded
      cases e with
      | some e => cases hok
      | none => exact ih hadded hok

theorem Prepared.step (h : Prepared g s) (call : Call)
    (hok : SortList.step g s call = .ok s') : Prepared g s' := by
  cases call with
  | reloadConfig conf => exact Prepared.loadSorters (fun _ _ hview => by cases hview) hok
  | addSorter view sourceIp preferedIps =>
    cases hok
    exact h.addSorter view sourceIp preferedIps
  | deleteSorter view sourceIp =>
    cases hok
    unfold deleteSorter
    cases hview : s view with
    | none => exact h
    | some t =>
      cases hdelete : t.delete g sourceIp with
      | error e => simpa [hdelete] using h
      | ok t' => simpa [hdelete] using h.update (madeOfLists_delete (h view t hview) hdelete)
  | updateSorter view sourceIp preferedIps =>
    cases hok
    unfold updateSorter
    cases hview : s view with
    | none => exact h
    | some t =>
      cases hdelete : t.delete g sourceIp with
      | error e => simpa [hdelete] using h
      | ok t' =>
        have ht' := madeOfLists_delete (h view t hview) hdelete
        cases hadd : t'.add g sourceIp (newOrderTree g preferedIps) with
        | error e => simpa [hdelete, hadd] using h.update ht'
        | ok t'' => simpa [hdelete, hadd] using h.update (madeOfLists_add ht' hadd)

end states

def bitsOf (host : List UInt8) : List Bool :=
  (host.flatMap fun b => (List.range 8).map fun i => b.toNat.testBit (7 - i)).reverse

def exampleAddresses : Addresses where
  network
    | "192.0.2.0/24" => .ok (bitsOf [192, 0, 2])
    | "10.0.0.0/8" => .ok (bitsOf [10])
    | _ => .error "invalid"
  bits := bitsOf
  nodeBusy := "busy"
  notFound := "not found"

def exampleObjects : Objects :=
  .ofLists [⟨["www"], .a, .internet, 60, [0, 1]⟩] [.a [203, 0, 113, 1], .a [10, 0, 0, 1]]

/-- A sort list in which so many entries come before the last network. -/
def exampleList (n : ℕ) : List String := List.replicate n "192.0.2.0/24" ++ ["10.0.0.0/8"]

theorem newOrderTree_exampleList (n : ℕ) :
    newOrderTree exampleAddresses (exampleList (n + 1)) = ⟨fun m =>
      if bitsOf [192, 0, 2] = m then some 0
      else if bitsOf [10] = m then some (n + 1) else none⟩ := by
  have hfirst : exampleAddresses.network "192.0.2.0/24" = .ok (bitsOf [192, 0, 2]) := rfl
  have hlast : exampleAddresses.network "10.0.0.0/8" = .ok (bitsOf [10]) := rfl
  refine congrArg Tree.mk (funext fun m => (value_newOrderTree (exampleList (n + 1)) m).trans ?_)
  rw [placeOf, exampleList, findIdx?_append, findIdx?_replicate]
  simp only [hfirst, hlast, Except.toOption, Option.some.injEq, findIdx?_cons]
  split_ifs <;> simp_all

end Vanguard.SortList
