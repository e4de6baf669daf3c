import Mathlib.Data.Nat.Notation

namespace Vanguard.Cache

structure HttpError where
  code : ℕ
  info : String
  deriving DecidableEq, Repr

def HttpError.addDetail (e : HttpError) (info : String) : HttpError :=
  ⟨e.code, e.info ++ ":" ++ info⟩

def errUnknownView : HttpError := ⟨100, "view doesn't exists"⟩

def errInvalidName : HttpError := ⟨101, "domain name isn't valid"⟩

end Vanguard.Cache
