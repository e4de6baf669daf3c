import Vanguard.Forwarder.Views

namespace Vanguard.Forwarder.Views

open Library List Option

variable {T : Type} [NameTree T ZoneFwder]

def Covers (zone name : Name) (z : ZoneFwder) : Prop :=
  zone <:+ name ∧ (z.matchType = .exact → zone = name)

def ZoneFwder.target (z : ZoneFwder) : Option SafeFwder :=
  if z.matchType = .exception then none else some z.fwderGroup

def stopsAt (zones : T) (exactMatch : Bool) (zone : Name) : Bool :=
  (NameTree.get zones zone).any fun z => exactMatch || z.matchType ≠ .exact

theorem walk_eq (zones : T) (exactMatch : Bool) (names : List Name) :
    walk exactMatch (names.filterMap (NameTree.get zones)) =
      (names.find? (stopsAt zones exactMatch)).bind fun m =>
        (NameTree.get zones m).bind ZoneFwder.target := by
  induction names with
  | nil => rfl
  | cons m names ih =>
    cases hget : NameTree.get zones m with
    | none =>
      have hpass : stopsAt zones exactMatch m = false := by simp [stopsAt, hget]
      rw [filterMap_cons, hget, find?_cons, hpass]
      exact ih
    | some z =>
      rw [filterMap_cons, hget, walk, find?_cons]
      cases htype : z.matchType with
      | subdomain | exception => simp [stopsAt, hget, htype, ZoneFwder.target]
      | exact =>
        cases exactMatch with
        | true => simp [stopsAt, hget, htype, ZoneFwder.target]
        | false =>
          have hpass : stopsAt zones false m = false := by simp [stopsAt, hget, htype]
          rw [hpass]
          exact ih

theorem covers_iff_stopsAt {zones : T} {name zone : Name} {z : ZoneFwder} (hle : zone <:+ name)
    (hget : NameTree.get zones zone = some z) (hflag : NameTree.get zones name = none) :
    Covers zone name z ↔ stopsAt zones false zone = true := by
  have hne : zone ≠ name := by
    rintro rfl
    rw [hget] at hflag
    cases hflag
  cases htype : z.matchType with
  | subdomain | exception => simp [Covers, stopsAt, hget, htype, hle]
  | exact => simp [Covers, stopsAt, hget, htype, hne]

variable [LawfulNameTree T ZoneFwder]

theorem getFwder_eq_walk (zones : T) (name : Name) :
    getFwder zones name =
      walk (NameTree.get zones name).isSome (name.tails.filterMap (NameTree.get zones)) := by
  unfold getFwder
  cases hget : NameTree.get zones name with
  | some z =>
    rw [NameTree.searchParents_of_some hget]
    rfl
  | none =>
    rw [NameTree.searchParents_of_none hget, ← NameTree.parents]
    by_cases hnone : NameTree.parents zones name = []
    · rw [if_pos hnone, hnone]
      rfl
    · rw [if_neg hnone]
      rfl

theorem getFwder_eq_longestSuffix (zones : T) (name : Name) :
    getFwder zones name =
      (longestSuffix (stopsAt zones (NameTree.get zones name).isSome) name).bind fun m =>
        (NameTree.get zones m).bind ZoneFwder.target := by
  rw [getFwder_eq_walk, walk_eq, longestSuffix]

/-- `getFwder` returns what the longest zone says that has a say in the name. -/
theorem getFwder_closest (zones : T) (name : Name) :
    (∃ zone z, NameTree.get zones zone = some z ∧ Covers zone name z ∧
      (∀ zone' z', NameTree.get zones zone' = some z' → Covers zone' name z' →
        zone'.length ≤ zone.length) ∧
      getFwder zones name = if z.matchType = .exception then none else some z.fwderGroup) ∨
    (∀ zone z, NameTree.get zones zone = some z → ¬Covers zone name z) ∧
      getFwder zones name = none := by
  have hwalk := getFwder_eq_longestSuffix zones name
  cases hself : NameTree.get zones name with
  | some z =>
    -- The name has a zone, and no zone is longer.
    have hstop : longestSuffix (stopsAt zones true) name = some name := by
      refine longestSuffix_eq_some.mpr ⟨suffix_rfl, by simp [stopsAt, hself], ?_⟩
      exact fun k hk _ => hk
    rw [hself, isSome_some, hstop, bind_some, hself, bind_some] at hwalk
    exact .inl ⟨name, z, hself, ⟨suffix_rfl, fun _ => rfl⟩,
      fun zone' z' _ hcovers => hcovers.1.length_le, hwalk⟩
  | none =>
    rw [hself, isSome_none] at hwalk
    cases hstop : longestSuffix (stopsAt zones false) name with
    | none =>
      rw [hstop] at hwalk
      refine .inr ⟨fun zone z hget hcovers => ?_, hwalk⟩
      have hpass := longestSuffix_eq_none.mp hstop zone hcovers.1
      rw [(covers_iff_stopsAt hcovers.1 hget hself).mp hcovers] at hpass
      cases hpass
    | some zone =>
      obtain ⟨hle, hp, hmax⟩ := longestSuffix_eq_some.mp hstop
      obtain ⟨z, hget⟩ : ∃ z, NameTree.get zones zone = some z := by
        cases hget : NameTree.get zones zone with
        | none => simp [stopsAt, hget] at hp
        | some z => exact ⟨z, rfl⟩
      rw [hstop, bind_some, hget, bind_some] at hwalk
      refine .inl ⟨zone, z, hget, (covers_iff_stopsAt hle hget hself).mpr hp, ?_, hwalk⟩
      intro zone' z' hget' hcovers
      exact (hmax zone' hcovers.1 ((covers_iff_stopsAt hcovers.1 hget' hself).mp hcovers)).length_le

/-- The root forwards, `com.` is matched exactly, and `example.com.` is an exception. -/
def nestedZones : NameTable ZoneFwder :=
  ⟨[([], ⟨.subdomain, .one "1"⟩), (["com"], ⟨.exact, .one "2"⟩),
    (["example", "com"], ⟨.exception, .one "3"⟩)]⟩

/-- A name below the zone that is matched exactly is forwarded by the root. -/
theorem example_exact_zone_passed_over :
    ∃ zone z, NameTree.get nestedZones zone = some z ∧ Covers zone ["www", "com"] z ∧
      getFwder nestedZones ["www", "com"] = some (.one "1") ∧
      getFwder nestedZones ["com"] = some (.one "2") ∧
      getFwder nestedZones ["a", "example", "com"] = none := by
  rcases getFwder_closest nestedZones ["www", "com"] with
    ⟨zone, z, hget, hcovers, -, -⟩ | ⟨-, hnone⟩
  · exact ⟨zone, z, hget, hcovers, rfl, rfl, rfl⟩
  · cases hnone

end Vanguard.Forwarder.Views
