import Vanguard.Net.Address

/-!
# Networks

`net.ParseCIDR` and `Contains` of Go 1.13. Numbers may have leading zeros. The reader of IPv6
addresses is a parameter.
-/

namespace Vanguard.Net

open List Option

/-- `CIDRMask(ones, 8*len)`. -/
def cidrMask : ℕ → ℕ → List UInt8
  | _, 0 => []
  | ones, len + 1 =>
    if 8 ≤ ones then 255 :: cidrMask (ones - 8) len
    else ~~~(255 >>> ones.toUInt8) :: cidrMask 0 len

/-- `Mask`, with the mask of as many bytes as the address. -/
def mask (ones : ℕ) (ip : IP) : IP := List.zipWith (· &&& ·) ip (cidrMask ones ip.length)

/-- A network whose mask is `CIDRMask(ones, 8*len(ip))`, so `Mask.Size` gives `ones`. -/
structure IPNet where
  ip : IP
  ones : ℕ
  deriving DecidableEq, Repr

def IPNet.contains (n : IPNet) (ip : IP) : Bool :=
  let nn := (to4 n.ip).getD n.ip
  let m := (cidrMask n.ones n.ip.length).drop (n.ip.length - nn.length)
  let x := (to4 ip).getD ip
  x.length = nn.length ∧ List.zipWith (· &&& ·) nn m = List.zipWith (· &&& ·) x m

def big : ℕ := 0xFFFFFF

/-- The loop of `dtoi`. It returns the number and the text after it. -/
def dtoiLoop (n : ℕ) : List Char → Option (ℕ × List Char)
  | [] => some (n, [])
  | c :: s =>
    if c.isDigit then
      let n := n * 10 + (c.toNat - '0'.toNat)
      if big ≤ n then none else dtoiLoop n s
    else some (n, c :: s)

/-- `dtoi`, whose first round cannot reach `big`. -/
def dtoi : List Char → Option (ℕ × List Char)
  | [] => none
  | c :: s => if c.isDigit then dtoiLoop (c.toNat - '0'.toNat) s else none

def parseField (s : List Char) : Option (UInt8 × List Char) := do
  let n ← dtoi s
  if 255 < n.1 then none else some (n.1.toUInt8, n.2)

/-- The rounds of `parseIPv4` after the first one, which expect a dot. -/
def parseFields : ℕ → List Char → Option IP
  | 0, s => if s = [] then some [] else none
  | _ + 1, [] => none
  | k + 1, c :: s =>
    if c = '.' then do
      let field ← parseField s
      let ip ← parseFields k field.2
      some (field.1 :: ip)
    else none

/-- `parseIPv4`, in the form of 4 bytes that `Mask` gives its result. -/
def parseIPv4 (s : List Char) : Option IP := do
  let field ← parseField s
  let ip ← parseFields 3 field.2
  some (field.1 :: ip)

def parseCIDR (parseIPv6 : List Char → Option IP) (s : List Char) : Option IPNet :=
  match s.dropWhile (· ≠ '/') with
  | [] => none
  | _ :: size => do
    let addr := s.takeWhile (· ≠ '/')
    let ip ← (parseIPv4 addr).or (parseIPv6 addr)
    let n ← dtoi size
    if n.2 = [] ∧ n.1 ≤ 8 * ip.length then some ⟨mask n.1 ip, n.1⟩ else none

def decimal (b : UInt8) : String := Nat.repr b.toNat

/-- A text of one digit or more. -/
def Digits (s : List Char) : Prop := s ≠ [] ∧ ∀ c ∈ s, c.isDigit = true

theorem Digits.not_mem_dot {s : List Char} (h : Digits s) : '.' ∉ s :=
  fun hmem => absurd (h.2 '.' hmem) (by decide)

theorem digits_decimal (b : UInt8) : Digits (decimal b).toList := by
  rw [decimal, Nat.toList_repr]
  exact ⟨Nat.toDigits_ne_nil, fun _ hc => Nat.isDigit_of_mem_toDigits (by decide) (by decide) hc⟩

theorem dtoiLoop_eq_some {s rest : List Char} {m n : ℕ} (h : dtoiLoop m s = some (n, rest)) :
    ∃ digits, (∀ c ∈ digits, c.isDigit = true) ∧ s = digits ++ rest := by
  induction s generalizing m with
  | nil =>
    cases h
    exact ⟨[], fun _ hc => absurd hc not_mem_nil, rfl⟩
  | cons c s ih =>
    simp only [dtoiLoop] at h
    split_ifs at h with hdigit hbig
    · obtain ⟨digits, hdigits, rfl⟩ := ih h
      exact ⟨c :: digits, forall_mem_cons.mpr ⟨hdigit, hdigits⟩, rfl⟩
    · cases h
      exact ⟨[], fun _ hc => absurd hc not_mem_nil, rfl⟩

theorem parseField_eq_some {s rest : List Char} {b : UInt8} (h : parseField s = some (b, rest)) :
    ∃ digits, Digits digits ∧ s = digits ++ rest := by
  obtain ⟨n, hn, h⟩ := bind_eq_some_iff.mp h
  split_ifs at h
  cases h
  cases s with
  | nil => cases hn
  | cons c s =>
    simp only [dtoi] at hn
    split_ifs at hn with hdigit
    obtain ⟨digits, hdigits, rfl⟩ := dtoiLoop_eq_some hn
    exact ⟨c :: digits, ⟨cons_ne_nil _ _, forall_mem_cons.mpr ⟨hdigit, hdigits⟩⟩, rfl⟩

theorem parseFields_succ {k : ℕ} {s : List Char} {ip : IP} (h : parseFields (k + 1) s = some ip) :
    ∃ digits rest b ip', Digits digits ∧ s = '.' :: (digits ++ rest) ∧ ip = b :: ip' ∧
      parseFields k rest = some ip' := by
  cases s with
  | nil => cases h
  | cons c s =>
    rw [parseFields] at h
    split_ifs at h with hdot
    obtain ⟨field, hfield, hfields⟩ := bind_eq_some_iff.mp h
    obtain ⟨ip', hip', heq⟩ := bind_eq_some_iff.mp hfields
    obtain ⟨digits, hdigits, rfl⟩ := parseField_eq_some hfield
    exact ⟨digits, field.2, field.1, ip', hdigits, by rw [hdot], (Option.some.inj heq).symm, hip'⟩

theorem parseIPv4_eq_some {s : List Char} {ip : IP} (h : parseIPv4 s = some ip) :
    ip.length = 4 ∧ ∃ a b c d, Digits a ∧ Digits b ∧ Digits c ∧
      s = a ++ '.' :: (b ++ '.' :: (c ++ '.' :: d)) := by
  obtain ⟨field, hfield, hfields⟩ := bind_eq_some_iff.mp h
  obtain ⟨_, hthree, heq⟩ := bind_eq_some_iff.mp hfields
  cases heq
  obtain ⟨a, ha, rfl⟩ := parseField_eq_some hfield
  obtain ⟨b, _, _, _, hb, hrest, rfl, htwo⟩ := parseFields_succ hthree
  obtain ⟨c, _, _, _, hc, rfl, rfl, hone⟩ := parseFields_succ htwo
  obtain ⟨d, rest, _, _, -, rfl, rfl, hend⟩ := parseFields_succ hone
  unfold parseFields at hend
  split_ifs at hend with hempty
  cases hend
  exact ⟨rfl, a, b, c, d ++ rest, ha, hb, hc, by rw [hrest]⟩

variable {parseIPv6 : List Char → Option IP} {s : List Char} {net : IPNet}

/-- What the text of a network looks like. -/
theorem parseCIDR_eq_some (h : parseCIDR parseIPv6 s = some net) :
    ∃ addr rest ip, s = addr ++ rest ∧ net.ip = mask net.ones ip ∧
      (parseIPv4 addr = some ip ∨ parseIPv6 addr = some ip) := by
  unfold parseCIDR at h
  split at h
  · cases h
  · obtain ⟨ip, hip, hsize⟩ := bind_eq_some_iff.mp h
    obtain ⟨n, -, hnet⟩ := bind_eq_some_iff.mp hsize
    split_ifs at hnet
    cases hnet
    refine ⟨_, _, ip, (takeWhile_append_dropWhile (p := (· ≠ '/'))).symm, rfl, ?_⟩
    exact (or_eq_some_iff.mp hip).imp_right And.right

theorem length_cidrMask (ones len : ℕ) : (cidrMask ones len).length = len := by
  induction len generalizing ones with
  | zero => rfl
  | succ len ih =>
    unfold cidrMask
    split_ifs <;> simp [ih]

theorem length_mask (ones : ℕ) (ip : IP) : (mask ones ip).length = ip.length := by
  simp [mask, length_cidrMask]

theorem IPNet.contains_self (n : IPNet) : n.contains n.ip = true := by simp [contains]

theorem take_of_zipWith_cidrMask {k : ℕ} {l l' : IP} (hlen : l'.length = l.length)
    (h : List.zipWith (· &&& ·) l (cidrMask (8 * k) l.length) =
      List.zipWith (· &&& ·) l' (cidrMask (8 * k) l.length)) : l'.take k = l.take k := by
  induction k generalizing l l' with
  | zero => rfl
  | succ k ih =>
    cases l with
    | nil => rw [length_eq_zero_iff.mp hlen]
    | cons b l =>
      cases l' with
      | nil => cases hlen
      | cons b' l' =>
        have hall (b : UInt8) : b &&& 255 = b := UInt8.toBitVec_inj.mp BitVec.and_allOnes
        rw [length_cons, cidrMask, if_pos (by omega), Nat.mul_succ, Nat.add_sub_cancel,
          zipWith_cons_cons, zipWith_cons_cons, hall, hall] at h
        obtain ⟨hb, hrest⟩ := List.cons.inj h
        rw [take_succ_cons, take_succ_cons, hb, ih (Nat.succ.inj hlen) hrest]

/-- The addresses of an IPv4 network with a mask of whole bytes. -/
theorem IPNet.take_of_contains {n : IPNet} {k : ℕ} {ip : IP} (hlen : n.ip.length = 4)
    (hones : n.ones = 8 * k) (h : n.contains ip = true) :
    ∃ ip4, to4 ip = some ip4 ∧ ip4.take k = n.ip.take k := by
  have hn : to4 n.ip = some n.ip := by rw [to4, if_pos hlen]
  simp only [contains, hn, getD_some, Nat.sub_self, drop_zero, hones,
    decide_eq_true_eq] at h
  obtain ⟨hsame, hbytes⟩ := h
  have hlen4 := hsame.trans hlen
  have h4 : to4 ip = some ((to4 ip).getD ip) := by
    cases hto : to4 ip with
    | some ip4 => rfl
    | none =>
      rw [hto, getD_none] at hlen4
      rw [to4, if_pos hlen4] at hto
      cases hto
  exact ⟨_, h4, take_of_zipWith_cidrMask hsame hbytes⟩

end Vanguard.Net
