import Mathlib.Data.List.OfFn
import Vanguard.Cache.Handlers
import Vanguard.Cache.HttpError
import Vanguard.Library.Runs
import Vanguard.Util.Strings

/-!
# IPv6 addresses that carry an IPv4 address

A converter is read from a text such as `64:ff9b::/96` or `2001:db8::/40 ::`. It puts an IPv4
address behind its prefix, around the ninth octet, and fills up with its suffix.
-/

namespace Vanguard.Dns64

open List
open Cache (HttpError)

/-- The 16 bytes that `net.ParseIP` returns for either kind of address. -/
abbrev IP := Fin 16 → UInt8

def validPrefixes : List ℤ := [32, 40, 48, 56, 64, 96]

def maxPrefixLen : ℤ := 96

structure Dns64Converter where
  pre : IP
  suffix : Option IP
  prefixLen : ℤ

def errBadDns64Prefix : HttpError := ⟨1200, "dns64 prefix should be a ipv6 addr"⟩

def errInvalidDns64Prefix : HttpError := ⟨1201, "invalid dns64 prefix netmask"⟩

def errBadDns64Suffix : HttpError := ⟨1205, "dns64 suffix should be a ipv6 addr"⟩

def errInvalidDns64Suffix : HttpError := ⟨1206, "invalid dns64 suffix"⟩

/-- The part of `converterFromString` that reads the suffix. -/
def suffixFrom (parseIP : String → Option IP) (preAndSuffix : List String) (prefixLen : ℤ) :
    Except HttpError (Option IP) :=
  if prefixLen ≠ maxPrefixLen then
    match preAndSuffix with
    | [_, text] =>
      match parseIP text with
      | none => .error errBadDns64Suffix
      | some suffix => .ok (some suffix)
    | _ => .error errInvalidDns64Suffix
  else .ok none

def converterFromString (parseIP : String → Option IP) (s : String) :
    Except HttpError Dns64Converter :=
  let preAndSuffix := Util.split ' ' s
  match Util.split '/' (preAndSuffix.headD "") with
  | [address, len] =>
    match parseIP address with
    | none => .error errBadDns64Prefix
    | some pre =>
      match Util.atoi len with
      | none => .error errInvalidDns64Prefix
      | some prefixLen =>
        if prefixLen ∈ validPrefixes then do
          let suffix ← suffixFrom parseIP preAndSuffix prefixLen
          return ⟨pre, suffix, prefixLen⟩
        else .error errInvalidDns64Prefix
  | _ => .error errInvalidDns64Prefix

section

variable (l : List UInt8) (i : ℕ)

/-- `l[0:i]`, none if it panics. -/
def sliceTo : Option (List UInt8) :=
  if i ≤ l.length then some (l.take i) else none

def sliceFrom : Option (List UInt8) :=
  if i ≤ l.length then some (l.drop i) else none

def copyAt (src : List UInt8) : List UInt8 :=
  l.take i ++ src.take (l.length - i) ++ l.drop (i + src.length)

end

/-- The loop of `synthesisAddr`, with `room = 16 - copyedByte`, none if out of range. -/
def copyOctets (v4 : List UInt8) : (room v4Index : ℕ) → (v6 : List UInt8) → Option (List UInt8 × ℕ)
  | 0, _, v6 => some (v6, 16)
  | room + 1, v4Index, v6 =>
    let copyedByte := 15 - room
    if v4Index < 4 then
      if copyedByte ≠ 8 then
        v4[v4Index]?.bind fun octet => copyOctets v4 room (v4Index + 1) (v6.set copyedByte octet)
      else copyOctets v4 room v4Index v6
    else some (v6, copyedByte)

namespace Dns64Converter

variable (c : Dns64Converter)

def suffixBytes : List UInt8 := c.suffix.elim [] List.ofFn

/-- `c.prefixLen / 8`, the number of octets that come from the prefix. -/
def prefixBytes : ℕ := (c.prefixLen.tdiv 8).toNat

def synthesisAddr (v4 : List UInt8) : Option (List UInt8) := do
  let pre ← sliceTo (List.ofFn c.pre) c.prefixBytes
  let (v6, copyedByte) ← copyOctets v4 (16 - c.prefixBytes) 0 (copyAt (List.replicate 16 0) 0 pre)
  if copyedByte < 16 then
    let suffix ← sliceFrom c.suffixBytes copyedByte
    return copyAt v6 copyedByte suffix
  else return v6

/-- Where the octets of the IPv4 address stand: behind the prefix, but not in octet 8. -/
def positions : List ℕ :=
  ((List.range' c.prefixBytes (16 - c.prefixBytes)).filter (· ≠ 8)).take 4

def suffixStart : ℕ := c.positions.getLastD 0 + 1

def extract (v6 : List UInt8) : List UInt8 := c.positions.map (v6.getD · 0)

def forQueries : Cache.Dns64Converter :=
  ⟨List.ofFn c.pre, c.suffixBytes, c.prefixLen.toNat⟩

structure Carries (v4 v6 : List UInt8) : Prop where
  length_eq : v6.length = 16
  take_eq : v6.take c.prefixBytes = (List.ofFn c.pre).take c.prefixBytes
  extract_eq : c.extract v6 = v4
  /-- Octet 8 is zero if the IPv4 address stands around it. -/
  reserved_eq : c.prefixBytes ≤ 8 → 8 < c.suffixStart → v6[8]? = some 0
  drop_eq : v6.drop c.suffixStart = c.suffixBytes.drop c.suffixStart

end Dns64Converter

variable {parseIP : String → Option IP}

theorem isSome_of_suffixFrom {preAndSuffix : List String} {prefixLen : ℤ} {suffix : Option IP}
    (hok : suffixFrom parseIP preAndSuffix prefixLen = .ok suffix) :
    suffix.isSome ↔ prefixLen ≠ maxPrefixLen := by
  unfold suffixFrom at hok
  split_ifs at hok with hne
  · split at hok
    · split at hok
      · cases hok
      · cases hok
        exact iff_of_true rfl hne
    · cases hok
  · cases hok
    simpa using hne

theorem prefixBytes_of_valid : ∀ n ∈ validPrefixes,
    (n.tdiv 8).toNat ∈ [4, 5, 6, 7, 8, 12] ∧ ((n.tdiv 8).toNat = 12 ↔ n = maxPrefixLen) := by
  decide

theorem of_converterFromString {s : String} {c : Dns64Converter}
    (hs : converterFromString parseIP s = .ok c) : c.prefixBytes ∈ [4, 5, 6, 7, 8, 12] ∧
      c.suffixBytes.length = if c.prefixBytes = 12 then 0 else 16 := by
  simp only [converterFromString] at hs
  split at hs
  · split at hs
    · cases hs
    · split at hs
      · cases hs
      · split_ifs at hs with hvalid
        obtain ⟨suffix, hsuffix, hc⟩ := Library.bind_eq_ok hs
        cases hc
        have hsome := isSome_of_suffixFrom hsuffix
        obtain ⟨hbytes, hmax⟩ := prefixBytes_of_valid _ hvalid
        refine ⟨hbytes, ?_⟩
        cases suffix with
        | none => exact (if_pos (hmax.mpr (by simpa using hsome))).symm
        | some suffix => exact (length_ofFn).trans (if_neg (hmax.not.mpr (hsome.mp rfl))).symm
  · cases hs

def spread : ℕ → List UInt8 → List UInt8
  | _, [] => []
  | i, o :: os => if i = 8 then 0 :: o :: spread (i + 2) os else o :: spread (i + 1) os

theorem spread_of_eq {i : ℕ} (heq : i = 8) (o : UInt8) (os : List UInt8) :
    spread i (o :: os) = 0 :: o :: spread (i + 2) os :=
  if_pos heq

theorem spread_of_ne {i : ℕ} (hne : i ≠ 8) (o : UInt8) (os : List UInt8) :
    spread i (o :: os) = o :: spread (i + 1) os :=
  if_neg hne

section loop

variable {v4 front os : List UInt8} {v4Index room : ℕ}

theorem copyOctets_write {o : UInt8} (hroom : front.length + (room + 1) = 16)
    (hne : front.length ≠ 8) (hlt : v4Index < 4) (ho : v4[v4Index]? = some o) :
    copyOctets v4 (room + 1) v4Index (front ++ List.replicate (room + 1) 0) =
      copyOctets v4 room (v4Index + 1) (front ++ [o] ++ List.replicate room 0) := by
  have hcopyed : 15 - room = front.length := by omega
  simp [copyOctets, hcopyed, hne, hlt, ho, replicate_succ]

theorem copyOctets_skip (hroom : front.length + (room + 1) = 16) (heq : front.length = 8)
    (hlt : v4Index < 4) :
    copyOctets v4 (room + 1) v4Index (front ++ List.replicate (room + 1) 0) =
      copyOctets v4 room v4Index (front ++ [0] ++ List.replicate room 0) := by
  have hcopyed : 15 - room = 8 := by omega
  simp [copyOctets, hcopyed, hlt, replicate_succ]

theorem copyOctets_eq (hos : v4.drop v4Index = os) (hlen : v4Index + os.length = 4)
    (hroom : front.length + room = 16) (hfits : (spread front.length os).length ≤ room) :
    copyOctets v4 room v4Index (front ++ List.replicate room 0) =
      some (front ++ spread front.length os ++
          List.replicate (room - (spread front.length os).length) 0,
        front.length + (spread front.length os).length) := by
  induction os generalizing front v4Index room with
  | nil =>
    cases room with
    | zero => simp [copyOctets, spread, ← hroom]
    | succ room =>
      obtain rfl : v4Index = 4 := by simpa using hlen
      have hcopyed : 15 - room = front.length := by omega
      simp [copyOctets, spread, hcopyed]
  | cons o os ih =>
    rw [length_cons] at hlen
    have hlt : v4Index < 4 := by omega
    have ho : v4[v4Index]? = some o := by
      rw [← head?_drop, hos, head?_cons]
    have hos' : v4.drop (v4Index + 1) = os := by rw [← tail_drop, hos, tail_cons]
    by_cases heq : front.length = 8
    · -- Two rounds: octet 8 is left out, and the octet goes behind it.
      obtain ⟨room, rfl⟩ : ∃ r, room = r + 2 := ⟨room - 2, by omega⟩
      rw [spread_of_eq heq] at hfits ⊢
      rw [copyOctets_skip hroom heq hlt, copyOctets_write (by simp; omega) (by simp [heq]) hlt ho,
        ih hos' (by omega) (by simp; omega) (by simpa using hfits)]
      simp
      omega
    · rw [spread_of_ne heq] at hfits ⊢
      rw [length_cons] at hfits
      obtain ⟨room, rfl⟩ : ∃ r, room = r + 1 := ⟨room - 1, by omega⟩
      rw [copyOctets_write hroom heq hlt ho,
        ih hos' (by omega) (by simp; omega) (by simpa using hfits)]
      simp
      omega

theorem length_spread (i : ℕ) (os : List UInt8) :
    (spread i os).length = os.length + if i ≤ 8 ∧ 8 < i + os.length then 1 else 0 := by
  induction os generalizing i with
  | nil => simp [spread]
  | cons o os ih =>
    by_cases heq : i = 8
    · rw [spread_of_eq heq, length_cons, length_cons, ih, if_neg (by omega),
        if_pos (by simp; omega), length_cons]
    · rw [spread_of_ne heq, length_cons, ih, length_cons]
      split_ifs <;> omega

theorem getElem?_spread (os : List UInt8) {i : ℕ} (hle : i ≤ 8)
    (hlt : 8 - i < (spread i os).length) : (spread i os)[8 - i]? = some 0 := by
  induction os generalizing i with
  | nil => simp [spread] at hlt
  | cons o os ih =>
    by_cases heq : i = 8
    · rw [spread_of_eq heq, heq]
      rfl
    · rw [spread_of_ne heq] at hlt ⊢
      obtain ⟨d, hd⟩ : ∃ d, 8 - i = d + 1 := ⟨7 - i, by omega⟩
      have hd' : d = 8 - (i + 1) := by omega
      rw [hd, length_cons] at hlt
      rw [hd, getElem?_cons_succ, hd']
      exact ih (by omega) (by omega)

theorem foldl_octets (hfits : front.length + (spread front.length os).length ≤ 16) :
    os.foldl (fun v6 b =>
      if 16 ≤ v6.length then v6 else if v6.length = 8 then v6 ++ [0, b] else v6 ++ [b]) front =
      front ++ spread front.length os := by
  induction os generalizing front with
  | nil => simp [spread]
  | cons o os ih =>
    rw [foldl_cons]
    by_cases heq : front.length = 8
    · rw [spread_of_eq heq] at hfits ⊢
      rw [if_neg (by omega), if_pos heq, ih (by simp at hfits ⊢; omega)]
      simp
    · rw [spread_of_ne heq] at hfits ⊢
      rw [length_cons] at hfits
      rw [if_neg (by omega), if_neg heq, ih (by simp at hfits ⊢; omega)]
      simp

end loop

section layout

variable {c : Dns64Converter} {v4 : List UInt8}

def Dns64Converter.front (c : Dns64Converter) (v4 : List UInt8) : List UInt8 :=
  (List.ofFn c.pre).take c.prefixBytes ++ spread c.prefixBytes v4

theorem copyAt_zero {l src : List UInt8} (hle : src.length ≤ l.length) :
    copyAt l 0 src = src ++ l.drop src.length := by
  rw [copyAt, Nat.sub_zero, take_of_length_le hle, take_zero, nil_append, Nat.zero_add]

theorem copyAt_replicate (front src : List UInt8) :
    copyAt (front ++ List.replicate src.length 0) front.length src = front ++ src := by
  simp [copyAt]

variable (hbytes : c.prefixBytes ∈ [4, 5, 6, 7, 8, 12])

include hbytes

theorem prefixBytes_le : c.prefixBytes ≤ 12 := by
  simp only [mem_cons, not_mem_nil, or_false] at hbytes
  omega

variable (hv4 : v4.length = 4)

include hv4

theorem length_front :
    (c.front v4).length = if c.prefixBytes = 12 then 16 else c.prefixBytes +
      if c.prefixBytes = 4 then 4 else 5 := by
  have hle := prefixBytes_le hbytes
  rw [Dns64Converter.front, length_append, length_take, length_ofFn, length_spread,
    hv4, min_eq_left (by omega)]
  simp only [mem_cons, not_mem_nil, or_false] at hbytes
  rcases hbytes with h | h | h | h | h | h <;> rw [h] <;> rfl

variable (hsuffix : c.suffixBytes.length = if c.prefixBytes = 12 then 0 else 16)

include hsuffix

theorem synthesisAddr_eq :
    c.synthesisAddr v4 = some (c.front v4 ++ c.suffixBytes.drop (c.front v4).length) := by
  have hle := prefixBytes_le hbytes
  have hpre : ((List.ofFn c.pre).take c.prefixBytes).length = c.prefixBytes := by
    simpa using by omega
  have hlen : (c.front v4).length = c.prefixBytes + (spread c.prefixBytes v4).length := by
    rw [Dns64Converter.front, length_append, hpre]
  have hfits : (c.front v4).length ≤ 16 := by
    rw [length_front hbytes hv4]
    simp only [mem_cons, not_mem_nil, or_false] at hbytes
    split_ifs <;> omega
  have hcopy : copyAt (List.replicate 16 0) 0 ((List.ofFn c.pre).take c.prefixBytes) =
      (List.ofFn c.pre).take c.prefixBytes ++ List.replicate (16 - c.prefixBytes) 0 := by
    rw [copyAt_zero (by rw [hpre, length_replicate]; omega), hpre, drop_replicate]
  have hloop := copyOctets_eq (show v4.drop 0 = v4 from rfl) (by omega)
    (show ((List.ofFn c.pre).take c.prefixBytes).length + (16 - c.prefixBytes) = 16 by omega)
    (by rw [hpre]; omega)
  rw [hpre, ← hlen, Nat.sub_sub, ← hlen, ← Dns64Converter.front] at hloop
  simp only [Dns64Converter.synthesisAddr, sliceTo, length_ofFn, 
    if_pos (show c.prefixBytes ≤ 16 by omega), Option.bind_eq_bind, Option.bind_some, hcopy, hloop]
  split_ifs with hlt
  · have hne : c.prefixBytes ≠ 12 := by
      intro heq
      rw [length_front hbytes hv4, if_pos heq] at hlt
      exact absurd hlt (lt_irrefl 16)
    rw [if_neg hne] at hsuffix
    have hdrop : 16 - (c.front v4).length = (c.suffixBytes.drop (c.front v4).length).length := by
      rw [length_drop, hsuffix]
    rw [sliceFrom, if_pos (hsuffix ▸ hfits), Option.bind_some, hdrop, copyAt_replicate]
    rfl
  · have hfull : (c.front v4).length = 16 := by omega
    have hshort : c.suffixBytes.length ≤ 16 := by
      rw [hsuffix]
      split_ifs <;> decide
    simp [hfull, drop_eq_nil_of_le hshort]

theorem carries_front :
    c.Carries v4 (c.front v4 ++ c.suffixBytes.drop (c.front v4).length) := by
  have hle := prefixBytes_le hbytes
  have hlen := length_front hbytes hv4
  have hstart : c.suffixStart = (c.front v4).length := by
    rw [hlen, Dns64Converter.suffixStart, Dns64Converter.positions]
    simp only [mem_cons, not_mem_nil, or_false] at hbytes
    rcases hbytes with h | h | h | h | h | h <;> rw [h] <;> rfl
  have hpre : ((List.ofFn c.pre).take c.prefixBytes).length = c.prefixBytes := by
    simpa using by omega
  refine ⟨?_, ?_, ?_, ?_, ?_⟩
  · rw [length_append, length_drop, hlen, hsuffix]
    simp only [mem_cons, not_mem_nil, or_false] at hbytes
    split_ifs <;> omega
  · rw [Dns64Converter.front, append_assoc, take_left' hpre]
  · rw [Dns64Converter.extract, Dns64Converter.positions, Dns64Converter.front, append_assoc]
    generalize (List.ofFn c.pre).take c.prefixBytes = pre at hpre
    obtain ⟨o₁, o₂, o₃, o₄, rfl⟩ : ∃ o₁ o₂ o₃ o₄, v4 = [o₁, o₂, o₃, o₄] := by
      match v4, hv4 with
      | [o₁, o₂, o₃, o₄], _ => exact ⟨o₁, o₂, o₃, o₄, rfl⟩
    simp only [mem_cons, not_mem_nil, or_false] at hbytes
    rcases hbytes with h | h | h | h | h | h <;> rw [h] at hpre ⊢ <;>
      simp [spread, hpre, List.range', getElem?_append]
  · intro hle hlt
    rw [hstart, Dns64Converter.front, length_append, hpre] at hlt
    have hlt' : 8 - c.prefixBytes < (spread c.prefixBytes v4).length := by omega
    rw [Dns64Converter.front, append_assoc, getElem?_append_right (hpre.trans_le hle),
      hpre, getElem?_append_left hlt', getElem?_spread v4 hle hlt']
  · rw [hstart, drop_left' rfl]

theorem forQueries_eq : c.forQueries.synthesisAddr v4 =
    c.front v4 ++ c.suffixBytes.drop (c.front v4).length := by
  have hdiv : c.prefixLen.toNat / 8 = c.prefixBytes := by
    rw [Dns64Converter.prefixBytes]
    cases c.prefixLen with
    | ofNat n => rfl
    | negSucc n =>
      rw [Int.toNat_negSucc, Nat.zero_div]
      exact (Int.toNat_neg_natCast ((n + 1) / 8)).symm
  have hle := prefixBytes_le hbytes
  have hpre : ((List.ofFn c.pre).take c.prefixBytes).length = c.prefixBytes := by
    simpa using by omega
  have hlength := (carries_front hbytes hv4 hsuffix).length_eq
  have hfold := foldl_octets
    (show ((List.ofFn c.pre).take c.prefixBytes).length + (spread _ v4).length ≤ 16 by
      rw [← length_append, hpre, ← Dns64Converter.front]
      rw [length_append] at hlength
      omega)
  rw [hpre, ← Dns64Converter.front] at hfold
  rw [Cache.Dns64Converter.synthesisAddr, Dns64Converter.forQueries]
  simp only [hdiv, take_of_length_le hv4.le, hfold]
  rw [takeD_eq_take _ hlength.ge, take_of_length_le hlength.le]

end layout

/-- An address is put in its place by every converter that can be read, and found there again. -/
theorem synthesis_decodable {parseIP : String → Option IP} {s : String} {c : Dns64Converter}
    (hs : converterFromString parseIP s = .ok c) :
    (∀ v4 : List UInt8, v4.length = 4 → ∃ v6, c.synthesisAddr v4 = some v6 ∧ c.Carries v4 v6) ∧
      ∀ v4 v4' : List UInt8, v4.length = 4 → v4'.length = 4 →
        c.synthesisAddr v4 = c.synthesisAddr v4' → v4 = v4' := by
  obtain ⟨hbytes, hsuffix⟩ := of_converterFromString hs
  have hcarries (v4 : List UInt8) (hv4 : v4.length = 4) :
      ∃ v6, c.synthesisAddr v4 = some v6 ∧ c.Carries v4 v6 :=
    ⟨_, synthesisAddr_eq hbytes hv4 hsuffix, carries_front hbytes hv4 hsuffix⟩
  refine ⟨hcarries, fun v4 v4' hv4 hv4' heq => ?_⟩
  obtain ⟨v6, hv6, hfirst⟩ := hcarries v4 hv4
  obtain ⟨v6', hv6', hsecond⟩ := hcarries v4' hv4'
  obtain rfl : v6 = v6' := Option.some.inj (hv6.symm.trans (heq.trans hv6'))
  exact hfirst.extract_eq.symm.trans hsecond.extract_eq

/-- The only addresses are `2001::` and `::1`. -/
def exampleParseIP : String → Option IP
  | "2001::" => some fun i => [0x20, 0x01].getD i 0
  | "::1" => some fun i => if i = 15 then 1 else 0
  | _ => none

/-- A prefix of 40 bits: the last octet of the address stands behind octet 8. -/
theorem example_forty_bits :
    ∃ c, converterFromString exampleParseIP "2001::/40 ::1" = .ok c ∧ c.positions = [5, 6, 7, 9] ∧
      (∀ v4 : List UInt8, v4.length = 4 → ∃ v6, c.synthesisAddr v4 = some v6 ∧ c.Carries v4 v6) ∧
      ∀ v4 v4' : List UInt8, v4.length = 4 → v4'.length = 4 →
        c.synthesisAddr v4 = c.synthesisAddr v4' → v4 = v4' := by
  have hs : converterFromString exampleParseIP "2001::/40 ::1" = .ok _ := rfl
  exact ⟨_, hs, rfl, synthesis_decodable hs⟩

end Vanguard.Dns64
