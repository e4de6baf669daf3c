import Vanguard.Library.Suffixes

/-!
# Domain names

A name is the list of its labels from the left, without the root label, so `www.cn.` is
`["www", "cn"]` and the root is the empty list. Names are kept in lower case, the form in which
`g53` compares them. The ancestors of a name are the suffixes of its list.
-/

namespace Vanguard

abbrev Label := String

abbrev Name := List Label

namespace Name

def root : Name := []

def isSubDomain (n zone : Name) : Bool := decide (zone <:+ n)

def isWildCard : Name → Bool
  | [] => false
  | label :: _ => label == "*"

def parent (n : Name) : Name := n.tail

/-- `NameFromStringUnsafe("*").Concat(n)`. -/
def wildcard (n : Name) : Name := "*" :: n

@[simp] theorem isSubDomain_eq_true {n zone : Name} : isSubDomain n zone = true ↔ zone <:+ n := by
  simp [isSubDomain]

@[simp] theorem isSubDomain_eq_false {n zone : Name} :
    isSubDomain n zone = false ↔ ¬zone <:+ n := by
  simp [isSubDomain]

theorem wildcard_eq_iff {n m : Name} : wildcard n = m ↔ isWildCard m = true ∧ n = parent m := by
  cases m with
  | nil => simp [wildcard, isWildCard]
  | cons label m => simp [wildcard, isWildCard, parent, eq_comm (a := "*")]

theorem wildcard_ne (n : Name) : wildcard n ≠ n := by simp [wildcard]

end Name

end Vanguard
