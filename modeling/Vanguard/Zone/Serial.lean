import Vanguard.Zone.Apex
import Mathlib.Algebra.Group.Nat.Defs

namespace Vanguard

open Library

def SerialGt (a b : UInt32) : Prop :=
  (a < b ∧ 2 ^ 31 < (b - a).toNat) ∨ (b < a ∧ (a - b).toNat < 2 ^ 31)

instance (a b : UInt32) : Decidable (SerialGt a b) := inferInstanceAs (Decidable (_ ∨ _))

theorem serialGt_add_one (s : UInt32) : SerialGt (s + 1) s := by
  unfold SerialGt
  simp only [UInt32.lt_iff_toNat_lt, UInt32.toNat_add, UInt32.toNat_sub, UInt32.toNat_one]
  have hlt := s.toNat_lt
  omega

def serialOf (rdatas : List Rdata) : Option UInt32 :=
  match rdatas.head? with
  | some (.soa soa) => some soa.serial
  | _ => none

namespace Zone.MemoryZone

variable {T : Type} [DomainTree T NameNode] {h : Objects} {z : MemoryZone T}

def serial (h : Objects) (z : MemoryZone T) : Option UInt32 :=
  (z.content h z.origin .soa).bind fun e => serialOf e.rdatas

theorem serial_increaseSerialNumber {h' : Objects} (hok : z.increaseSerialNumber h = .ok h') :
    ∃ s, z.serial h = some s ∧ z.serial h' = some (s + 1) := by
  unfold increaseSerialNumber at hok
  cases hdata : z.originData with
  | none => simp [hdata] at hok
  | some node =>
    have horigin : dataAt z.domains z.origin = some node := by
      unfold originData at hdata
      split at hdata
      · exact hdata
      · cases hdata
    simp only [hdata] at hok
    cases hslot : node.lookup .soa with
    | none => simp [hslot] at hok
    | some slot =>
      cases slot with
      | none => simp [hslot] at hok
      | some soa =>
        have hentry : ∀ h : Objects,
            z.content h z.origin .soa = some (.ofRRset (h.value soa)) := by
          intro h
          exact content_of_slots (by simp [slots, horigin, hslot])
        simp only [hslot, Option.getD_some] at hok
        split at hok
        · next p hrdatas =>
          split at hok
          · next rdata hload =>
            cases hok
            refine ⟨rdata.serial, ?_, ?_⟩
            · simp [serial, hentry, serialOf, Objects.value, RRset.map, hrdatas, hload]
            · simp [serial, hentry, serialOf, Objects.value, RRset.map, hrdatas]
          · cases hok
        · cases hok

end Zone.MemoryZone

end Vanguard
