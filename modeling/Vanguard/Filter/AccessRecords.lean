import Mathlib.Algebra.Order.Ring.Int
import Mathlib.Data.List.Induction

/-!
# Rate limits

A record counts the accesses it allows in a window of one second. The first access after the window
starts the next one and is allowed, whatever the limit; so is the first access of an address.
-/

namespace Vanguard.Filter

open List

/-- What `time.Now` returns in the course of an access, in nanoseconds. -/
structure Readings where
  first : ℤ
  check : ℤ
  restart : ℤ

def second : ℤ := 1000000000

structure IPAccessRecord where
  ip : List UInt8
  token : UInt32
  start : ℤ

inductive NameMatchType where
  | exactMatch
  | zoneMatch
  deriving DecidableEq, Repr

structure NameAccessRecord where
  token : UInt32
  limit : UInt32
  start : Option ℤ
  matchType : NameMatchType
  deriving DecidableEq, Repr

/-- The end of both `IsAccessAllowed`. -/
def countAccess (limit token : UInt32) : UInt32 × Bool :=
  if limit < token + 1 then (token, false) else (token + 1, true)

namespace IPAccessRecord

def init (r : IPAccessRecord) (now : ℤ) : IPAccessRecord := { r with token := 1, start := now }

def newIPAccessRecord (ip : List UInt8) (now : ℤ) : IPAccessRecord := init ⟨ip, 0, 0⟩ now

def expired (r : IPAccessRecord) (now : ℤ) : Bool := second < now - r.start

def isAccessAllowed (r : IPAccessRecord) (limit : UInt32) (t : Readings) : IPAccessRecord × Bool :=
  if r.expired t.check then (r.init t.restart, true)
  else
    let (token, allowed) := countAccess limit r.token
    ({ r with token }, allowed)

def isIpAllowed (limit : UInt32) (ip : List UInt8) (record : Option IPAccessRecord) (t : Readings) :
    IPAccessRecord × Bool :=
  match record with
  | none => (newIPAccessRecord ip t.restart, true)
  | some r => r.isAccessAllowed limit t

end IPAccessRecord

namespace NameAccessRecord

def newNameAccessRecord (matchType : NameMatchType) (limit : UInt32) : NameAccessRecord :=
  ⟨0, limit, none, matchType⟩

def init (r : NameAccessRecord) (now : ℤ) : NameAccessRecord :=
  { r with token := 1, start := some now }

def expired (r : NameAccessRecord) (now : ℤ) : Bool := r.start.all fun start => second < now - start

def isAccessAllowed (r : NameAccessRecord) (t : Readings) : NameAccessRecord × Bool :=
  let r := if r.start.isNone then { r with start := some t.first } else r
  if r.expired t.check then (r.init t.restart, true)
  else
    let (token, allowed) := countAccess r.limit r.token
    ({ r with token }, allowed)

end NameAccessRecord

structure Access where
  starts : Bool
  allowed : Bool
  deriving DecidableEq, Repr

/-- The number of accesses that were allowed in the current window. The last access comes first. -/
def allowedInWindow : List Access → ℕ
  | [] => 0
  | a :: before => (if a.starts then 0 else allowedInWindow before) + if a.allowed then 1 else 0

/-- No window has more accesses than the limit, and none was refused before. -/
def Limited (limit : ℕ) : List Access → Prop
  | [] => True
  | a :: before => allowedInWindow (a :: before) ≤ limit ∧
      (a.allowed = false → allowedInWindow (a :: before) = limit) ∧ Limited limit before

def Bounded (limit token : UInt32) (accesses : List Access) : Prop :=
  Limited limit.toNat accesses ∧ token.toNat = allowedInWindow accesses

section runs

def ipAccess (limit : UInt32) (ip : List UInt8) (s : Option IPAccessRecord × List Access)
    (t : Readings) : Option IPAccessRecord × List Access :=
  let (r, allowed) := IPAccessRecord.isIpAllowed limit ip s.1 t
  (some r, ⟨s.1.all fun r => r.expired t.check, allowed⟩ :: s.2)

def ipAccesses (limit : UInt32) (ip : List UInt8) (ts : List Readings) :
    Option IPAccessRecord × List Access :=
  ts.foldl (ipAccess limit ip) (none, [])

def nameAccess (s : NameAccessRecord × List Access) (t : Readings) :
    NameAccessRecord × List Access :=
  let (r, allowed) := s.1.isAccessAllowed t
  (r, ⟨s.1.expired t.check, allowed⟩ :: s.2)

def nameAccesses (matchType : NameMatchType) (limit : UInt32) (ts : List Readings) :
    NameAccessRecord × List Access :=
  ts.foldl nameAccess (.newNameAccessRecord matchType limit, [])

end runs

section bounds

variable {limit token : UInt32} {accesses : List Access}

theorem Limited.allowedInWindow_le (h : Limited limit.toNat accesses) :
    allowedInWindow accesses ≤ limit.toNat := by
  cases accesses with
  | nil => exact Nat.zero_le _
  | cons a before => exact h.1

theorem Bounded.restart (hpos : 0 < limit) (h : Bounded limit token accesses) :
    Bounded limit 1 (⟨true, true⟩ :: accesses) := by
  have hone : 1 ≤ limit.toNat := UInt32.lt_iff_toNat_lt.mp hpos
  exact ⟨⟨by simpa [allowedInWindow] using hone, by simp, h.1⟩, rfl⟩

theorem Bounded.count (hmax : limit < 0xFFFFFFFF) (h : Bounded limit token accesses) :
    Bounded limit (countAccess limit token).1
      (⟨false, (countAccess limit token).2⟩ :: accesses) := by
  obtain ⟨hlimited, htoken⟩ := h
  have hle := hlimited.allowedInWindow_le
  have hlt : limit.toNat < 4294967295 := UInt32.lt_iff_toNat_lt.mp hmax
  have hnext : (token + 1).toNat = token.toNat + 1 := by
    rw [UInt32.toNat_add]
    exact Nat.mod_eq_of_lt (by simpa using by omega)
  unfold countAccess
  by_cases hfull : limit < token + 1
  · rw [if_pos hfull]
    rw [UInt32.lt_iff_toNat_lt, hnext] at hfull
    have hcount : allowedInWindow (⟨false, false⟩ :: accesses) = limit.toNat := by
      simp only [allowedInWindow, Bool.false_eq_true, if_false]
      omega
    exact ⟨⟨hcount.le, fun _ => hcount, hlimited⟩, htoken⟩
  · rw [if_neg hfull]
    rw [UInt32.lt_iff_toNat_lt, hnext] at hfull
    have hcount : allowedInWindow (⟨false, true⟩ :: accesses) = token.toNat + 1 := by
      simp [allowedInWindow, htoken]
    exact ⟨⟨hcount.trans_le (by omega), by simp, hlimited⟩, hnext.trans hcount.symm⟩

theorem bounded_ipAccesses (hpos : 0 < limit) (hmax : limit < 0xFFFFFFFF) (ip : List UInt8)
    (ts : List Readings) :
    Bounded limit ((ipAccesses limit ip ts).1.elim 0 IPAccessRecord.token)
      (ipAccesses limit ip ts).2 := by
  induction ts using List.reverseRecOn with
  | nil => exact ⟨trivial, rfl⟩
  | append_singleton ts t ih =>
    rw [ipAccesses, foldl_append, ← ipAccesses, foldl_cons, foldl_nil]
    generalize ipAccesses limit ip ts = s at ih
    obtain ⟨record, accesses⟩ := s
    cases record with
    | none => exact ih.restart hpos
    | some r =>
      cases hexpired : r.expired t.check with
      | true =>
        simpa [ipAccess, IPAccessRecord.isIpAllowed, IPAccessRecord.isAccessAllowed, hexpired,
          IPAccessRecord.init] using ih.restart hpos
      | false =>
        simpa [ipAccess, IPAccessRecord.isIpAllowed, IPAccessRecord.isAccessAllowed, hexpired]
          using ih.count hmax

theorem bounded_nameAccesses (hpos : 0 < limit) (hmax : limit < 0xFFFFFFFF)
    (matchType : NameMatchType) (ts : List Readings) :
    Bounded limit (nameAccesses matchType limit ts).1.token (nameAccesses matchType limit ts).2 ∧
      (nameAccesses matchType limit ts).1.limit = limit ∧
      ((nameAccesses matchType limit ts).1.start = none →
        (nameAccesses matchType limit ts).2 = []) := by
  induction ts using List.reverseRecOn with
  | nil => exact ⟨⟨trivial, rfl⟩, rfl, fun _ => rfl⟩
  | append_singleton ts t ih =>
    rw [nameAccesses, foldl_append, ← nameAccesses, foldl_cons, foldl_nil]
    generalize nameAccesses matchType limit ts = s at ih
    obtain ⟨⟨token, limit', start, matchType⟩, accesses⟩ := s
    obtain ⟨hbounded, rfl, hstart⟩ := ih
    cases start with
    | none =>
      cases hstart rfl
      cases hexpired : decide (second < t.check - t.first) with
      | true =>
        simpa [nameAccess, NameAccessRecord.isAccessAllowed, NameAccessRecord.expired, hexpired,
          NameAccessRecord.init] using hbounded.restart hpos
      | false =>
        -- The window starts without an access, and nothing was counted before.
        have hfirst : Bounded limit' (countAccess limit' token).1
            [⟨true, (countAccess limit' token).2⟩] := hbounded.count hmax
        simpa [nameAccess, NameAccessRecord.isAccessAllowed, NameAccessRecord.expired, hexpired]
          using hfirst
    | some start =>
      cases hexpired : decide (second < t.check - start) with
      | true =>
        simpa [nameAccess, NameAccessRecord.isAccessAllowed, NameAccessRecord.expired, hexpired,
          NameAccessRecord.init] using hbounded.restart hpos
      | false =>
        simpa [nameAccess, NameAccessRecord.isAccessAllowed, NameAccessRecord.expired, hexpired]
          using hbounded.count hmax

end bounds

theorem allowedInWindow_of_max (ip : List UInt8) (n : ℕ) :
    ∃ r, (ipAccesses 0xFFFFFFFF ip (List.replicate (n + 1) ⟨0, 0, 0⟩)).1 = some r ∧ r.start = 0 ∧
      allowedInWindow (ipAccesses 0xFFFFFFFF ip (List.replicate (n + 1) ⟨0, 0, 0⟩)).2 = n + 1 := by
  induction n with
  | zero => exact ⟨_, rfl, rfl, rfl⟩
  | succ n ih =>
    rw [replicate_succ', ipAccesses, foldl_append, ← ipAccesses, foldl_cons, foldl_nil]
    generalize ipAccesses 0xFFFFFFFF ip (List.replicate (n + 1) ⟨0, 0, 0⟩) = s at ih
    obtain ⟨record, accesses⟩ := s
    obtain ⟨r, rfl, hstart, hcount⟩ := ih
    have hexpired : r.expired 0 = false := by simp [IPAccessRecord.expired, hstart, second]
    have hroom : ¬(0xFFFFFFFF : UInt32) < r.token + 1 := by
      intro hlt
      have hlarge : 4294967295 < (r.token + 1).toNat := UInt32.lt_iff_toNat_lt.mp hlt
      have hbound := (r.token + 1).toNat_lt
      omega
    refine ⟨{ r with token := r.token + 1 }, ?_, hstart, ?_⟩
    · simp [ipAccess, IPAccessRecord.isIpAllowed, IPAccessRecord.isAccessAllowed, hexpired,
        countAccess, hroom]
    · simp [ipAccess, IPAccessRecord.isIpAllowed, IPAccessRecord.isAccessAllowed, hexpired,
        countAccess, hroom, allowedInWindow, hcount]

/-- Windows are bounded exactly if the limit is neither 0 nor the largest number. -/
theorem windows_bounded_iff (limit : UInt32) :
    ((∀ ip ts, Bounded limit ((ipAccesses limit ip ts).1.elim 0 IPAccessRecord.token)
        (ipAccesses limit ip ts).2) ∧
      ∀ matchType ts, Bounded limit (nameAccesses matchType limit ts).1.token
        (nameAccesses matchType limit ts).2) ↔
    0 < limit ∧ limit < 0xFFFFFFFF := by
  constructor
  · rintro ⟨hip, -⟩
    constructor
    · have hone : 1 ≤ limit.toNat := (hip [] [⟨0, 0, 0⟩]).1.1
      exact UInt32.lt_iff_toNat_lt.mpr hone
    · by_contra hmax
      have hge : 4294967295 ≤ limit.toNat :=
        not_lt.mp fun hlt => hmax (UInt32.lt_iff_toNat_lt.mpr hlt)
      have hbound := limit.toNat_lt
      obtain rfl : limit = 0xFFFFFFFF :=
        UInt32.toNat_inj.mp (by change limit.toNat = 4294967295; omega)
      have hle (n : ℕ) : n + 1 ≤ 4294967295 := by
        obtain ⟨-, -, -, hcount⟩ := allowedInWindow_of_max [] n
        exact hcount ▸ (hip [] _).1.allowedInWindow_le
      exact absurd (hle 4294967295) (by omega)
  · rintro ⟨hpos, hmax⟩
    exact ⟨bounded_ipAccesses hpos hmax, fun matchType ts =>
      (bounded_nameAccesses hpos hmax matchType ts).1⟩

/-- With limit 0 the first access is allowed, and so is the first one after a window. -/
theorem example_zero_limit_allows :
    (ipAccesses 0 [10, 0, 0, 1] [⟨0, 0, 0⟩]).2 = [⟨true, true⟩] ∧
      (nameAccesses .exactMatch 0 [⟨0, 0, 0⟩, ⟨0, 2 * second, 2 * second⟩]).2 =
        [⟨true, true⟩, ⟨true, false⟩] := by
  decide

end Vanguard.Filter
