import Vanguard.Acl.Schedule
import Vanguard.Library.Runs

namespace Vanguard.Access

open Library

/-- The clocks of the forms `hh:mm` and `weekday hh:mm`. -/
inductive Clock where
  | day
  | week

namespace Clock

def cycle : Clock → ℤ
  | .day => secondsOneDay
  | .week => 7 * secondsOneDay

def read (t : Time) : Clock → ℤ
  | .day => t.nanos
  | .week => t.weekday * secondsOneDay + t.nanos

def Shows (c : Clock) (x : ℤ) : Prop := 0 ≤ x ∧ x < c.cycle

theorem shows_read (c : Clock) (t : Time) : c.Shows (c.read t) := by
  obtain ⟨hlow, hhigh⟩ := t.nanos.2
  cases c with
  | day => exact ⟨hlow, hhigh⟩
  | week =>
    have hweekday : 0 ≤ t.weekday ∧ t.weekday < 7 := by
      unfold Time.weekday
      omega
    simp only [Shows, cycle, read, secondsOneDay] at *
    omega

end Clock

def clockPoint (text : String) : Option (Clock × ℤ) :=
  match Util.split ' ' text with
  | [hm] =>
    match hourMinFromString hm with
    | .ok hm => some (.day, hm.nanos)
    | .error _ => none
  | [day, hm] =>
    match weekDayFromString day, hourMinFromString hm with
    | .ok day, .ok hm => some (.week, day * secondsOneDay + hm.nanos)
    | _, _ => none
  | _ => none

theorem HourMinute.shows_nanos (hm : HourMinute) : Clock.day.Shows hm.nanos := by
  have hhour := hm.hour.2.2
  have hminute := hm.minute.2.2
  simp only [Clock.Shows, Clock.cycle, HourMinute.nanos, secondsOneDay]
  omega

theorem shows_week (day : Set.Icc (0 : ℕ) 6) (hm : HourMinute) :
    Clock.week.Shows (day * secondsOneDay + hm.nanos) := by
  have hday := day.2.2
  have hnanos := hm.shows_nanos
  simp only [Clock.Shows, Clock.cycle, secondsOneDay] at *
  omega

theorem includes_iff {c : Clock} {expand : Bool} {a b x : ℤ} (base : ℤ) (ha : c.Shows a)
    (hb : c.Shows b) (hx : c.Shows x) (hexpand : expand = true ↔ b < a) :
    includes expand (base + a) (base + b) (base + x) = true ↔ CyclicBetween c.cycle a b x := by
  rw [cyclicBetween_iff ha hb hx]
  by_cases hlt : b < a
  · simp [includes, hexpand.mpr hlt, not_le.mpr hlt]
  · simp [includes, Bool.eq_false_iff.mpr (mt hexpand.mp hlt), not_lt.mp hlt]

theorem newPeriodicInHour_eq_ok {from_ to_ : String} {p : PeriodicInHour}
    (hnew : newPeriodicInHour from_ to_ = .ok p) :
    hourMinFromString from_ = .ok p.start ∧ hourMinFromString to_ = .ok p.stop ∧
      (p.expandDay = true ↔ p.stop.nanos < p.start.nanos) := by
  obtain ⟨start, hstart, hnew⟩ := bind_eq_ok hnew
  obtain ⟨stop, hstop, hnew⟩ := bind_eq_ok hnew
  split_ifs at hnew with hcheck
  cases hnew
  refine ⟨hstart, hstop, ?_⟩
  have hminute := start.minute.2.2
  have hminute' := stop.minute.2.2
  simp only [Subtype.ext_iff, ← Subtype.coe_lt_coe, HourMinute.nanos, decide_eq_true_eq] at *
  omega

theorem newPeriodicInWeekDay_eq_ok {fromDay fromHourMinute toDay toHourMinute : String}
    {p : PeriodicInWeekDay}
    (hnew : newPeriodicInWeekDay fromDay fromHourMinute toDay toHourMinute = .ok p) :
    (weekDayFromString fromDay = .ok p.startWeekDay ∧ weekDayFromString toDay = .ok p.endWeekDay) ∧
      (hourMinFromString fromHourMinute = .ok p.start ∧
        hourMinFromString toHourMinute = .ok p.stop) ∧
      (p.expandWeek = true ↔ p.endWeekDay * secondsOneDay + p.stop.nanos <
        p.startWeekDay * secondsOneDay + p.start.nanos) := by
  obtain ⟨start, hstart, hnew⟩ := bind_eq_ok hnew
  obtain ⟨stop, hstop, hnew⟩ := bind_eq_ok hnew
  obtain ⟨startWeekDay, hday, hnew⟩ := bind_eq_ok hnew
  obtain ⟨endWeekDay, hday', hnew⟩ := bind_eq_ok hnew
  split_ifs at hnew with hcheck
  cases hnew
  refine ⟨⟨hday, hday'⟩, ⟨hstart, hstop⟩, ?_⟩
  have hbounds := And.intro start.minute.2.2 stop.minute.2.2
  have hhours := And.intro start.hour.2.2 stop.hour.2.2
  simp only [Subtype.ext_iff, ← Subtype.coe_lt_coe, HourMinute.nanos, secondsOneDay,
    decide_eq_true_eq] at *
  omega

theorem rangeBuilder_clock {now : Time} {from_ to_ : String} {r : TimeRange}
    (hbuild : rangeBuilder now from_ to_ = .ok r) (hform : (Util.split ' ' from_).length ≤ 2) :
    ∃ c a b, clockPoint from_ = some (c, a) ∧ clockPoint to_ = some (c, b) ∧ c.Shows a ∧
      c.Shows b ∧ ∀ t, r.includeTime t = true ↔ CyclicBetween c.cycle a b (c.read t) := by
  unfold rangeBuilder at hbuild
  split at hbuild
  · next hm hm' hfrom hto =>
    obtain ⟨p, hnew, hp⟩ := bind_eq_ok hbuild
    cases hp
    obtain ⟨hstart, hstop, hexpand⟩ := newPeriodicInHour_eq_ok hnew
    refine ⟨.day, p.start.nanos, p.stop.nanos, by simp [clockPoint, hfrom, hstart],
      by simp [clockPoint, hto, hstop], p.start.shows_nanos, p.stop.shows_nanos, fun t => ?_⟩
    exact includes_iff _ p.start.shows_nanos p.stop.shows_nanos (Clock.day.shows_read t) hexpand
  · next day hm day' hm' hfrom hto =>
    obtain ⟨p, hnew, hp⟩ := bind_eq_ok hbuild
    cases hp
    obtain ⟨⟨hday, hday'⟩, ⟨hstart, hstop⟩, hexpand⟩ := newPeriodicInWeekDay_eq_ok hnew
    refine ⟨.week, p.startWeekDay * secondsOneDay + p.start.nanos,
      p.endWeekDay * secondsOneDay + p.stop.nanos, by simp [clockPoint, hfrom, hday, hstart],
      by simp [clockPoint, hto, hday', hstop], shows_week _ _, shows_week _ _, fun t => ?_⟩
    -- The clock of the week starts as many days before the date as the weekday says.
    have hshift (weekDay nanos : ℤ) :
        dayNumber t.year t.month t.day * secondsOneDay + nanos +
            (weekDay - t.weekday) * secondsOneDay =
          (dayNumber t.year t.month t.day - t.weekday) * secondsOneDay +
            (weekDay * secondsOneDay + nanos) := by
      unfold secondsOneDay
      omega
    have hinstant : t.instant = (dayNumber t.year t.month t.day - t.weekday) * secondsOneDay +
        Clock.week.read t := by
      simp only [Time.instant, Clock.read, secondsOneDay]
      omega
    rw [← includes_iff _ (shows_week _ _) (shows_week _ _) (Clock.week.shows_read t) hexpand,
      ← hinstant, ← hshift, ← hshift]
    rfl
  · next hfrom _ => simp [hfrom] at hform
  · cases hbuild

/-- A range of the clock or of the week is what lies between its ends going forward, and the range
with swapped ends is the rest. -/
theorem clock_range_cyclic (now : Time) {from_ to_ : String} {r : TimeRange}
    (hbuild : rangeBuilder now from_ to_ = .ok r) (hform : (Util.split ' ' from_).length ≤ 2) :
    ∃ c a b, clockPoint from_ = some (c, a) ∧ clockPoint to_ = some (c, b) ∧
      (∀ t, r.includeTime t = true ↔ CyclicBetween c.cycle a b (c.read t)) ∧
      ∀ r', rangeBuilder now to_ from_ = .ok r' → a ≠ b → ∀ t,
        ¬(r.includeTime t = true ∧ r'.includeTime t = true) ∧
        (r.includeTime t = true ∨ r'.includeTime t = true ↔ c.read t ≠ a ∧ c.read t ≠ b) := by
  obtain ⟨c, a, b, hfrom, hto, ha, hb, hr⟩ := rangeBuilder_clock hbuild hform
  refine ⟨c, a, b, hfrom, hto, hr, fun r' hbuild' hne t => ?_⟩
  have hform' : (Util.split ' ' to_).length ≤ 2 := by
    by_contra hlong
    have hnone : clockPoint to_ = none := by
      unfold clockPoint
      split
      · next hsplit => simp [hsplit] at hlong
      · next hsplit => simp [hsplit] at hlong
      · rfl
    simp [hnone] at hto
  obtain ⟨c', b', a', hto', hfrom', -, -, hr'⟩ := rangeBuilder_clock hbuild' hform'
  cases hto.symm.trans hto'
  cases hfrom.symm.trans hfrom'
  rw [hr, hr']
  exact cyclicBetween_complement ha hb (c.shows_read t) hne

/-- A range past midnight, from half past three in the afternoon to twenty past two. -/
theorem example_range_past_midnight :
    ∃ r, rangeBuilder (.newYear 2020) "15:30" "02:20" = .ok r ∧
      ∀ t, r.includeTime t = true ↔
        CyclicBetween secondsOneDay 55800000000000 8400000000000 t.nanos := by
  have hbuild : ∃ r, rangeBuilder (.newYear 2020) "15:30" "02:20" = .ok r := ⟨_, rfl⟩
  have hfrom : clockPoint "15:30" = some (.day, 55800000000000) := rfl
  have hto : clockPoint "02:20" = some (.day, 8400000000000) := rfl
  obtain ⟨r, hbuild⟩ := hbuild
  obtain ⟨c, a, b, ha, hb, hr, -⟩ := clock_range_cyclic _ hbuild (by decide)
  cases hfrom.symm.trans ha
  cases hto.symm.trans hb
  exact ⟨r, hbuild, hr⟩

end Vanguard.Access
