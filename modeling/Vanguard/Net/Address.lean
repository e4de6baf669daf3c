import Mathlib.Data.List.Basic

/-!
# Addresses

A `net.IP` has 4 bytes, or 16 of which the first 12 may say that the last 4 are an IPv4 address.
-/

namespace Vanguard.Net

abbrev IP := List UInt8

def v4InV6Prefix : List UInt8 := [0, 0, 0, 0, 0, 0, 0, 0, 0, 0, 255, 255]

/-- `To4`, none for nil. -/
def to4 (ip : IP) : Option IP :=
  if ip.length = 4 then some ip
  else if ip.length = 16 ∧ ip.take 12 = v4InV6Prefix then some (ip.drop 12)
  else none

/-- `To16`, none for nil. -/
def to16 (ip : IP) : Option IP :=
  if ip.length = 4 then some (v4InV6Prefix ++ ip)
  else if ip.length = 16 then some ip
  else none

/-- An address in one of its two forms. -/
def Valid (ip : IP) : Prop := ip.length = 4 ∨ ip.length = 16

instance (ip : IP) : Decidable (Valid ip) := inferInstanceAs (Decidable (_ ∨ _))

variable {ip ip4 : IP}

theorem length_of_to4 (h : to4 ip = some ip4) : ip4.length = 4 := by
  unfold to4 at h
  split_ifs at h with h4 hmapped
  · exact Option.some.inj h ▸ h4
  · cases h
    rw [List.length_drop, hmapped.1]

theorem to16_of_to4 (h : to4 ip = some ip4) : to16 ip = some (v4InV6Prefix ++ ip4) := by
  unfold to4 at h
  split_ifs at h with h4 hmapped
  · cases h
    rw [to16, if_pos h4]
  · cases h
    rw [to16, if_neg h4, if_pos hmapped.1, ← hmapped.2, List.take_append_drop]

theorem to16_of_to4_eq_none (hvalid : Valid ip) (h : to4 ip = none) :
    to16 ip = some ip ∧ ip.length = 16 ∧ ip.take 12 ≠ v4InV6Prefix := by
  unfold to4 at h
  split_ifs at h with h4 hmapped
  have h16 : ip.length = 16 := hvalid.resolve_left h4
  exact ⟨by rw [to16, if_neg h4, if_pos h16], h16, fun heq => hmapped ⟨h16, heq⟩⟩

end Vanguard.Net
