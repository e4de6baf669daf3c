import Vanguard.Filter.AccessRecords
import Vanguard.Library.Lru
import Vanguard.Net.Address

/-!
# The records of the addresses

`IPAccessRecordStore` keeps its records in a list in the order of their last use and finds them with
two maps. Every operation chooses the map anew, by the form of the address.
-/

namespace Vanguard.Filter

open Library Net

/-- `[16]byte`. -/
abbrev V6Key := Vector UInt8 16

/-- `ipToV6Key`, all zero if the address has no form of 16 bytes. -/
def ipToV6Key (ip : IP) : V6Key := Vector.ofFn fun i => ((to16 ip).getD []).getD i 0

open List

/-- `binary.LittleEndian.Uint32`. -/
def littleEndian (b : List UInt8) : UInt32 :=
  UInt32.ofNat (b.foldr (fun byte n => byte.toNat + 256 * n) 0)

structure IPAccessRecordStore where
  maxCount : ℤ
  ll : LinkedList IPAccessRecord
  v4Records : UInt32 → Option (Element IPAccessRecord)
  v6Records : V6Key → Option (Element IPAccessRecord)

namespace IPAccessRecordStore

def newIPAccessRecordStore (maxCount : ℤ) : IPAccessRecordStore :=
  ⟨maxCount, .new, fun _ => none, fun _ => none⟩

variable (c : IPAccessRecordStore)

def getElem (ip : IP) : Option (Element IPAccessRecord) :=
  match to4 ip with
  | some ip4 => c.v4Records (littleEndian ip4)
  | none => c.v6Records (ipToV6Key ip)

/-- The assignment to one of the maps in `Add`, and with none the `delete` in `removeElement`. -/
def setElem (ip : IP) (elem : Option (Element IPAccessRecord)) : IPAccessRecordStore :=
  match to4 ip with
  | some ip4 => { c with v4Records := Function.update c.v4Records (littleEndian ip4) elem }
  | none => { c with v6Records := Function.update c.v6Records (ipToV6Key ip) elem }

def removeElement (e : Element IPAccessRecord) : IPAccessRecordStore :=
  { c with ll := c.ll.remove e }.setElem e.value.ip none

def removeOldest : IPAccessRecordStore :=
  match c.ll.back with
  | some ele => c.removeElement ele
  | none => c

def add (r : IPAccessRecord) : IPAccessRecordStore :=
  match c.getElem r.ip with
  | some elem =>
    { c with
      ll := (c.ll.moveToFront elem).setValue elem r
      v4Records := setValues c.v4Records elem r
      v6Records := setValues c.v6Records elem r }
  | none =>
    let (ll, elem) := c.ll.pushFront r
    let c := { c with ll }.setElem r.ip (some elem)
    if c.maxCount ≠ 0 ∧ c.maxCount < c.ll.len then c.removeOldest else c

def get (ip : IP) : Option IPAccessRecord × IPAccessRecordStore :=
  match c.getElem ip with
  | some elem => (some elem.value, { c with ll := c.ll.moveToFront elem })
  | none => (none, c)

def remove (ip : IP) : IPAccessRecordStore :=
  match c.getElem ip with
  | some elem => c.removeElement elem
  | none => c

def len : ℕ := c.ll.len

end IPAccessRecordStore

inductive StoreCall where
  | add (r : IPAccessRecord)
  | get (ip : IP)
  | remove (ip : IP)

def StoreCall.ip : StoreCall → IP
  | .add r => r.ip
  | .get ip => ip
  | .remove ip => ip

/-- The key in one of the two maps. -/
abbrev RecordKey := UInt32 ⊕ V6Key

def keyOf (ip : IP) : RecordKey :=
  match to4 ip with
  | some ip4 => .inl (littleEndian ip4)
  | none => .inr (ipToV6Key ip)

/-- The two maps as one. -/
def IPAccessRecordStore.index (c : IPAccessRecordStore) :
    RecordKey → Option (Element IPAccessRecord) :=
  Sum.elim c.v4Records c.v6Records

/-- There is no room for a new record. -/
def IPAccessRecordStore.Full (c : IPAccessRecordStore) : Prop := c.maxCount ≠ 0 ∧ c.maxCount ≤ c.len

/-- The store and what was added and fetched, the last first. -/
structure StoreRun where
  store : IPAccessRecordStore
  log : List (Effect RecordKey IPAccessRecord)

namespace StoreRun

def start (maxCount : ℤ) : StoreRun := ⟨.newIPAccessRecordStore maxCount, []⟩

def step (s : StoreRun) : StoreCall → StoreRun
  | .add r => ⟨s.store.add r, .added (keyOf r.ip) r :: s.log⟩
  | .get ip =>
    match s.store.get ip with
    | (some _, store) => ⟨store, .hit (keyOf ip) :: s.log⟩
    | (none, store) => { s with store }
  | .remove ip => { s with store := s.store.remove ip }

/-- List and maps have the same elements, and an address in either form leads to its record. -/
structure InBijection (s : StoreRun) : Prop where
  nodup : (s.store.ll.elems.map Element.id).Nodup
  find : ∀ k e, s.store.index k = some e ↔ e ∈ s.store.ll.elems ∧ keyOf e.value.ip = k
  canonical : ∀ ip e, Valid ip →
    (s.store.getElem ip = some e ↔ e ∈ s.store.ll.elems ∧ to16 e.value.ip = to16 ip)

/-- Only one key is dropped, if the store is full, and the others were used later. -/
def DropsOldest (s : StoreRun) (r : IPAccessRecord) : Prop :=
  ∀ k, k = keyOf r.ip ∨ s.store.index k ≠ none → (s.step (.add r)).store.index k = none →
    s.store.Full ∧
    (∀ k', k' = keyOf r.ip ∨ s.store.index k' ≠ none →
      (s.step (.add r)).store.index k' = none → k' = k) ∧
    ∀ k', (s.step (.add r)).store.index k' ≠ none → MoreRecent (s.step (.add r)).log k' k

structure Inv (maxCount : ℤ) (s : StoreRun) : Prop where
  lru : Lru s.store.index s.store.ll (fun r => keyOf r.ip) s.log
  valid : ∀ e ∈ s.store.ll.elems, Valid e.value.ip
  maxCount_eq : s.store.maxCount = maxCount
  bounded : maxCount ≠ 0 → (s.store.len : ℤ) ≤ max maxCount 0

end StoreRun

theorem toNat_littleEndian {b : List UInt8} (hb : b.length = 4) :
    (littleEndian b).toNat = b.foldr (fun byte n => byte.toNat + 256 * n) 0 := by
  have hlt : b.foldr (fun byte n => byte.toNat + 256 * n) 0 < 256 ^ b.length := by
    clear hb
    induction b with
    | nil => simp
    | cons x b ih =>
      have hx := x.toNat_lt
      rw [foldr_cons, length_cons, Nat.pow_succ]
      omega
  rw [hb] at hlt
  exact UInt32.toNat_ofNat_of_lt' hlt

theorem littleEndian_inj {a b : List UInt8} (ha : a.length = 4) (hb : b.length = 4)
    (h : littleEndian a = littleEndian b) : a = b := by
  have hnat := congrArg UInt32.toNat h
  rw [toNat_littleEndian ha, toNat_littleEndian hb] at hnat
  have hlen : a.length = b.length := ha.trans hb.symm
  clear ha hb h
  induction a generalizing b with
  | nil => exact (length_eq_zero_iff.mp hlen.symm).symm
  | cons x a ih =>
    cases b with
    | nil => cases hlen
    | cons y b =>
      simp only [foldr_cons] at hnat
      have hx := x.toNat_lt
      have hy := y.toNat_lt
      rw [UInt8.toNat_inj.mp (by omega : x.toNat = y.toNat), ih (by omega) (Nat.succ.inj hlen)]

theorem keyOf_eq_iff {ip ip' : IP} (h : Valid ip) (h' : Valid ip') :
    keyOf ip = keyOf ip' ↔ to16 ip = to16 ip' := by
  unfold keyOf
  cases h4 : to4 ip with
  | some a =>
    cases h4' : to4 ip' with
    | some b =>
      have hinj : littleEndian a = littleEndian b ↔ a = b :=
        ⟨littleEndian_inj (length_of_to4 h4) (length_of_to4 h4'), congrArg _⟩
      simp [to16_of_to4 h4, to16_of_to4 h4', hinj]
    | none =>
      obtain ⟨h16, -, hplain⟩ := to16_of_to4_eq_none h' h4'
      simp only [to16_of_to4 h4, h16, reduceCtorEq, false_iff, Option.some.injEq]
      rintro rfl
      exact hplain rfl
  | none =>
    obtain ⟨h16, hlen, hplain⟩ := to16_of_to4_eq_none h h4
    cases h4' : to4 ip' with
    | some b =>
      simp only [to16_of_to4 h4', h16, reduceCtorEq, false_iff, Option.some.injEq]
      rintro rfl
      exact hplain rfl
    | none =>
      obtain ⟨h16', hlen', -⟩ := to16_of_to4_eq_none h' h4'
      simp only [h16, h16', Sum.inr.injEq, Option.some.injEq]
      constructor
      · intro hkey
        refine ext_getElem (hlen.trans hlen'.symm) fun i hi hi' => ?_
        have hbyte := congrArg (fun key => key[i]?) hkey
        have hi16 : i < 16 := hlen ▸ hi
        simpa [ipToV6Key, h16, h16', hi16, hi, hi'] using hbyte
      · rintro rfl
        rfl

namespace IPAccessRecordStore

variable {c : IPAccessRecordStore}

theorem getElem_eq (ip : IP) : c.getElem ip = c.index (keyOf ip) := by
  unfold getElem keyOf
  split <;> rfl

theorem index_setElem (ip : IP) (elem : Option (Element IPAccessRecord)) :
    (c.setElem ip elem).index = Function.update c.index (keyOf ip) elem := by
  unfold setElem keyOf index
  split
  · exact Sum.update_elim_inl.symm
  · exact Sum.update_elim_inr.symm

theorem setElem_eq (ip : IP) (elem : Option (Element IPAccessRecord)) :
    (c.setElem ip elem).ll = c.ll ∧ (c.setElem ip elem).maxCount = c.maxCount := by
  unfold setElem
  split <;> exact ⟨rfl, rfl⟩

theorem index_setValues (elem : Element IPAccessRecord) (r : IPAccessRecord) :
    Sum.elim (setValues c.v4Records elem r) (setValues c.v6Records elem r) =
      setValues c.index elem r := by
  funext k
  cases k with
  | inl k => rfl
  | inr k => rfl

/-- The record is placed, and if it is new to a full store the oldest one is removed. -/
theorem add_cases (c : IPAccessRecordStore) (r : IPAccessRecord) :
    (c.add r).maxCount = c.maxCount ∧
    ((c.add r).index = (place c.index c.ll (keyOf r.ip) r).1 ∧
        (c.add r).ll = (place c.index c.ll (keyOf r.ip) r).2 ∧
        (c.index (keyOf r.ip) = none → ¬c.Full) ∨
      c.Full ∧ c.index (keyOf r.ip) = none ∧
        ∃ last, (place c.index c.ll (keyOf r.ip) r).2.back = some last ∧
          (c.add r).index = Function.update (place c.index c.ll (keyOf r.ip) r).1
            (keyOf last.value.ip) none ∧
          (c.add r).ll = (place c.index c.ll (keyOf r.ip) r).2.remove last) := by
  rw [← getElem_eq, place, ← getElem_eq, add]
  cases c.getElem r.ip with
  | some elem =>
    exact ⟨rfl, .inl ⟨index_setValues elem r, rfl, fun h => absurd h (Option.some_ne_none elem)⟩⟩
  | none =>
    obtain ⟨hll, hmax⟩ := setElem_eq (c := { c with ll := (c.ll.pushFront r).1 }) r.ip
      (some (c.ll.pushFront r).2)
    have hindex := index_setElem (c := { c with ll := (c.ll.pushFront r).1 }) r.ip
      (some (c.ll.pushFront r).2)
    have hlen : ((c.ll.pushFront r).1.len : ℤ) = c.len + 1 := rfl
    simp only [hmax, hll, hlen, Int.lt_add_one_iff]
    split_ifs with hfull
    · obtain ⟨last, hlast⟩ : ∃ last, (c.ll.pushFront r).1.back = some last := ⟨_, getLast?_cons⟩
      simp only [removeOldest, hll, hlast, removeElement]
      obtain ⟨hll', hmax'⟩ := setElem_eq (c := { setElem _ r.ip (some (c.ll.pushFront r).2) with
        ll := (c.ll.pushFront r).1.remove last }) last.value.ip none
      refine ⟨hmax'.trans hmax, .inr ⟨hfull, trivial, last, rfl, ?_, hll'⟩⟩
      refine (index_setElem _ _).trans ?_
      rw [index] at hindex ⊢
      rw [hindex]
      rfl
    · exact ⟨hmax, .inl ⟨hindex, hll, fun _ => hfull⟩⟩

end IPAccessRecordStore

namespace StoreRun

open IPAccessRecordStore

variable {maxCount : ℤ} {s : StoreRun}

theorem Inv.start (maxCount : ℤ) : Inv maxCount (start maxCount) := by
  have hindex : (newIPAccessRecordStore maxCount).index = fun _ => none := by
    funext k
    cases k with
    | inl k => rfl
    | inr k => rfl
  refine ⟨?_, fun _ he => absurd he not_mem_nil, rfl, fun _ => le_max_right _ _⟩
  rw [StoreRun.start, hindex]
  exact .new _

variable (h : Inv maxCount s)

include h

theorem Inv.add {r : IPAccessRecord} (hvalid : Valid r.ip) : Inv maxCount (s.step (.add r)) := by
  have hlru := h.lru.place (v := r) (rfl : (Effect.added (keyOf r.ip) r).touches = _)
  have hlen := len_place s.store.index s.store.ll (keyOf r.ip) r
  obtain ⟨new, hvalue, helems, -⟩ := place_spec h.lru.wf h.lru.indexes r
  have hall : ∀ e ∈ (place s.store.index s.store.ll (keyOf r.ip) r).2.elems, Valid e.value.ip := by
    intro e he
    rw [helems] at he
    rcases mem_cons.mp he with rfl | he
    · exact hvalue ▸ hvalid
    · exact h.valid e (mem_filter.mp he).1
  obtain ⟨hmax, ⟨hindex, hll, hroom⟩ | ⟨-, hnone, last, hlast, hindex, hll⟩⟩ := add_cases s.store r
  · refine ⟨?_, ?_, hmax.trans h.maxCount_eq, fun hne => ?_⟩
    · rw [step, hindex, hll]
      exact hlru
    · rwa [step, hll]
    · have hbounded := h.bounded hne
      rw [Full, h.maxCount_eq] at hroom
      rw [step, len, hll]
      cases hold : s.store.index (keyOf r.ip) with
      | none =>
        have hfew := hroom hold
        have hgrown := hlen.trans (by rw [hold]; rfl : _ = s.store.len + 1)
        omega
      | some old =>
        rw [hlen.trans (by rw [hold]; rfl : _ = s.store.len)]
        exact hbounded
  · refine ⟨?_, fun e he => ?_, hmax.trans h.maxCount_eq, fun hne => ?_⟩
    · rw [step, hindex, hll]
      exact hlru.remove (mem_of_getLast? hlast)
    · rw [step, hll] at he
      exact hall e (mem_filter.mp he).1
    · have hcut := congrArg List.length (hlru.wf.remove_back hlast)
      rw [length_dropLast] at hcut
      rw [hnone] at hlen
      have hlen' : (s.store.add r).len = s.store.len := by
        rw [len, hll, LinkedList.len, hcut]
        exact congrArg (· - 1) hlen
      rw [step, hlen']
      exact h.bounded hne

theorem Inv.removeElement {e : Element IPAccessRecord} (he : e ∈ s.store.ll.elems) :
    Inv maxCount { s with store := s.store.removeElement e } := by
  obtain ⟨hll, hmax⟩ := setElem_eq (c := { s.store with ll := s.store.ll.remove e }) e.value.ip none
  refine ⟨?_, fun x hx => ?_, hmax.trans h.maxCount_eq, fun hne => ?_⟩
  · simp only [IPAccessRecordStore.removeElement, hll, index_setElem]
    exact h.lru.remove he
  · simp only [IPAccessRecordStore.removeElement, hll] at hx
    exact h.valid x (mem_filter.mp hx).1
  · have hle : (s.store.removeElement e).len ≤ s.store.len := by
      simp only [IPAccessRecordStore.removeElement, len, hll]
      exact length_filter_le _ _
    have hbounded := h.bounded hne
    show ((s.store.removeElement e).len : ℤ) ≤ _
    omega

theorem Inv.step {call : StoreCall} (hvalid : Valid call.ip) : Inv maxCount (s.step call) := by
  cases call with
  | add r => exact h.add hvalid
  | get ip =>
    simp only [StoreRun.step, IPAccessRecordStore.get, getElem_eq]
    cases hget : s.store.index (keyOf ip) with
    | none => exact h
    | some elem =>
      obtain ⟨hmem, hkey⟩ := (h.lru.indexes _ elem).mp hget
      have hperm := s.store.ll.moveToFront_perm elem
      refine ⟨h.lru.hit hmem (congrArg some hkey.symm), fun e he => h.valid e (hperm.mem_iff.mp he),
        h.maxCount_eq, fun hne => ?_⟩
      simp only [len, LinkedList.len, hperm.length_eq]
      exact h.bounded hne
  | remove ip =>
    simp only [StoreRun.step, IPAccessRecordStore.remove, getElem_eq]
    cases hget : s.store.index (keyOf ip) with
    | none => exact h
    | some elem => exact h.removeElement ((h.lru.indexes _ elem).mp hget).1

theorem Inv.run {calls : List StoreCall} (hcalls : ∀ call ∈ calls, Valid call.ip) :
    Inv maxCount (calls.foldl StoreRun.step s) :=
  List.foldlRecOn calls _ h fun _ hs call hcall => hs.step (hcalls call hcall)

theorem Inv.inBijection : s.InBijection := by
  refine ⟨h.lru.wf.nodup, h.lru.indexes, fun ip e hvalid => ?_⟩
  rw [getElem_eq, h.lru.indexes]
  exact and_congr_right fun he => keyOf_eq_iff (h.valid e he) hvalid

theorem Inv.dropsOldest (r : IPAccessRecord) : s.DropsOldest r := by
  intro k hk hgone
  obtain ⟨new, -, -, hplace, -⟩ := place_spec h.lru.wf h.lru.indexes r
  have hpresent : ∀ k, k = keyOf r.ip ∨ s.store.index k ≠ none →
      (place s.store.index s.store.ll (keyOf r.ip) r).1 k ≠ none := by
    intro k hk
    rw [hplace]
    by_cases hkey : k = keyOf r.ip
    · simp [hkey]
    · rw [Function.update_of_ne hkey]
      exact hk.resolve_left hkey
  obtain ⟨-, ⟨hindex, -⟩ | ⟨hfull, -, last, hlast, hindex, -⟩⟩ := add_cases s.store r
  · rw [StoreRun.step, hindex] at hgone
    exact absurd hgone (hpresent k hk)
  have honly : ∀ k, k = keyOf r.ip ∨ s.store.index k ≠ none →
      (s.step (.add r)).store.index k = none → k = keyOf last.value.ip := by
    intro k hk hnone
    by_contra hne
    rw [StoreRun.step, hindex, Function.update_of_ne hne] at hnone
    exact hpresent k hk hnone
  obtain rfl := honly k hk hgone
  refine ⟨hfull, honly, fun k' hleft => ?_⟩
  rw [StoreRun.step, hindex] at hleft
  exact (h.lru.place rfl).moreRecent_back hlast hleft

end StoreRun

/-- List and maps stay in bijection, a nonzero `MaxCount` bounds them, and the oldest is dropped. -/
theorem store_consistent (maxCount : ℤ) (calls : List StoreCall)
    (hcalls : ∀ call ∈ calls, Valid call.ip) :
    let s := calls.foldl StoreRun.step (.start maxCount)
    s.InBijection ∧ (maxCount ≠ 0 → (s.store.len : ℤ) ≤ max maxCount 0) ∧
      ∀ r, s.DropsOldest r := by
  intro s
  have hinv : StoreRun.Inv maxCount s := (StoreRun.Inv.start maxCount).run hcalls
  exact ⟨hinv.inBijection, hinv.bounded, hinv.dropsOldest⟩

/-- The mapped form of an address leads to the record that was added in the short form. -/
theorem example_mapped_address_found :
    let s := StoreRun.step (.start 1) (.add ⟨[10, 0, 0, 1], 1, 0⟩)
    (s.store.len : ℤ) ≤ 1 ∧ ∃ e, s.store.getElem (v4InV6Prefix ++ [10, 0, 0, 1]) = some e := by
  intro s
  have hconsistent := store_consistent 1 [.add ⟨[10, 0, 0, 1], 1, 0⟩]
    (forall_mem_singleton.mpr (by decide))
  refine ⟨hconsistent.2.1 one_ne_zero, ⟨0, ⟨[10, 0, 0, 1], 1, 0⟩⟩, ?_⟩
  exact (hconsistent.1.canonical _ _ (by decide)).mpr ⟨mem_singleton_self _, by decide⟩

/-- A negative `MaxCount` is not zero, and the empty store exceeds it. -/
theorem example_negative_maxCount :
    ¬∀ (maxCount : ℤ) (calls : List StoreCall), (∀ call ∈ calls, Valid call.ip) → maxCount ≠ 0 →
      ((calls.foldl StoreRun.step (.start maxCount)).store.len : ℤ) ≤ maxCount := by
  intro h
  exact absurd (h (-1) [] (fun _ hmem => absurd hmem not_mem_nil) (by decide)) (by decide)

end Vanguard.Filter
