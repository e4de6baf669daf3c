import Mathlib.Algebra.Ring.Int.Defs

namespace Vanguard.Util

def split (sep : Char) (s : String) : List String := (s.toList.splitOn sep).map .ofList

def signAndDigits : List Char → Bool × List Char
  | '-' :: digits => (true, digits)
  | '+' :: digits => (false, digits)
  | digits => (false, digits)

def atoi (s : String) : Option ℤ :=
  let (negative, digits) := signAndDigits s.toList
  if digits.isEmpty || !digits.all Char.isDigit then none
  else
    let n : ℤ := digits.foldl (fun n c => 10 * n + (c.toNat - '0'.toNat)) 0
    let n := if negative then -n else n
    if -2 ^ 63 ≤ n ∧ n < 2 ^ 63 then some n else none

example : atoi "+07" = some 7 := by decide

end Vanguard.Util
