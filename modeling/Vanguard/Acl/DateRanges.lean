import Mathlib.Tactic.IntervalCases
import Vanguard.Acl.ClockRanges

namespace Vanguard.Access

open Library List

structure YearPoint where
  month : ℕ
  day : ℕ
  nanos : ℤ

def YearPoint.Before (a b : YearPoint) : Prop :=
  a.month < b.month ∨ a.month = b.month ∧ (a.day < b.day ∨ a.day = b.day ∧ a.nanos < b.nanos)

def YearPoint.Exists (leap : Bool) (a : YearPoint) : Prop :=
  1 ≤ a.month ∧ (1 ≤ a.day ∧ a.day ≤ daysIn leap a.month) ∧ 0 ≤ a.nanos ∧ a.nanos < secondsOneDay

def YearPoint.position (leap : Bool) (a : YearPoint) : ℤ :=
  (daysBeforeMonth leap a.month + a.day) * secondsOneDay + a.nanos

def Time.yearPoint (t : Time) : YearPoint := ⟨t.month, t.day, t.nanos⟩

/-- Between two points of the calendar, over the turn of the year if the first month is later. -/
def CalendarBetween (a b x : YearPoint) : Prop :=
  if b.month < a.month then a.Before x ∨ x.Before b else a.Before x ∧ x.Before b

/-- The date and time that a text of the form `month day hh:mm` names. -/
def datePoint (text : String) : Option YearPoint :=
  match Util.split ' ' text with
  | [month, day, hm] =>
    match monthFromString month, dayFromString day, hourMinFromString hm with
    | .ok month, .ok day, .ok hm => some ⟨month, day, hm.nanos⟩
    | _, _, _ => none
  | _ => none

variable {a b : YearPoint}

theorem position_lt_iff {leap : Bool} (ha : a.Exists leap) (hb : b.Exists leap) :
    a.position leap < b.position leap ↔ a.Before b := by
  obtain ⟨hmonth, hday, hnanos⟩ := ha
  obtain ⟨hmonth', hday', hnanos'⟩ := hb
  unfold YearPoint.position YearPoint.Before
  rcases lt_trichotomy a.month b.month with hlt | heq | hgt
  · have hsum := daysBeforeMonth_add_daysIn leap hmonth hlt
    unfold secondsOneDay at *
    omega
  · rw [heq] at hday ⊢
    unfold secondsOneDay at *
    omega
  · have hsum := daysBeforeMonth_add_daysIn leap hmonth' hgt
    unfold secondsOneDay at *
    omega

theorem date_eq (year : ℤ) (month day : ℕ) (hm : HourMinute) :
    date year month day hm = (daysBeforeYear year - 1) * secondsOneDay +
      YearPoint.position (isLeap year) ⟨month, day, hm.nanos⟩ := by
  simp only [date, dayNumber, YearPoint.position, secondsOneDay]
  omega

theorem Time.instant_eq (t : Time) : t.instant = (daysBeforeYear t.year - 1) * secondsOneDay +
    t.yearPoint.position (isLeap t.year) := by
  simp only [Time.instant, dayNumber, YearPoint.position, secondsOneDay, Time.yearPoint]
  omega

theorem Time.yearPoint_exists (t : Time) : t.yearPoint.Exists (isLeap t.year) :=
  ⟨t.month.2.1, t.day.2, t.nanos.2⟩

structure Dates (from_ to_ : String) (p : PeriodicInDate) : Prop where
  start : datePoint from_ = some ⟨p.startMonth, p.startDay, p.start.nanos⟩
  stop : datePoint to_ = some ⟨p.endMonth, p.endDay, p.stop.nanos⟩
  expand : p.expandYear = decide (p.endMonth < p.startMonth)

variable {from_ to_ : String}

theorem rangeBuilder_dates {now : Time} {r : TimeRange}
    (hbuild : rangeBuilder now from_ to_ = .ok r) (hform : (Util.split ' ' from_).length = 3) :
    ∃ p, r = .inDate p ∧ Dates from_ to_ p ∧ ¬(p.startMonth ≤ p.endMonth ∧
      date now.year p.endMonth p.endDay p.stop <
        date now.year p.startMonth p.startDay p.start) := by
  unfold rangeBuilder at hbuild
  split at hbuild
  · next hfrom _ => simp [hfrom] at hform
  · next hfrom _ => simp [hfrom] at hform
  · next hfrom hto =>
    obtain ⟨p, hnew, hp⟩ := bind_eq_ok hbuild
    cases hp
    obtain ⟨startMonth, hmonth, hnew⟩ := bind_eq_ok hnew
    obtain ⟨endMonth, hmonth', hnew⟩ := bind_eq_ok hnew
    obtain ⟨start, hstart, hnew⟩ := bind_eq_ok hnew
    obtain ⟨stop, hstop, hnew⟩ := bind_eq_ok hnew
    obtain ⟨startDay, hday, hnew⟩ := bind_eq_ok hnew
    obtain ⟨endDay, hday', hnew⟩ := bind_eq_ok hnew
    split_ifs at hnew with hcheck
    cases hnew
    exact ⟨_, rfl, ⟨by simp [datePoint, hfrom, hmonth, hday, hstart],
      by simp [datePoint, hto, hmonth', hday', hstop], rfl⟩, hcheck⟩
  · cases hbuild

def marchFirst : Time :=
  ⟨2021, ⟨3, by simp⟩, ⟨1, by simp [daysIn]⟩, ⟨43200000000000, by simp [secondsOneDay]⟩⟩

/-- From February to March, with an end before the begin except in leap years. -/
def LeapDependent (from_ to_ : String) : Prop :=
  ∃ a b, datePoint from_ = some a ∧ datePoint to_ = some b ∧ a.month = 2 ∧ b.month = 3 ∧
    (a.day - 29) * secondsOneDay + a.nanos ≤ b.day * secondsOneDay + b.nanos ∧
    b.day * secondsOneDay + b.nanos < (a.day - 28) * secondsOneDay + a.nanos

theorem datePoint_eq_some {text : String} (ha : datePoint text = some a) :
    ∃ month day hm, Util.split ' ' text = [month, day, hm] ∧
      ∃ (m : Set.Icc 1 12) (d : Set.Icc 1 31) (time : HourMinute), monthFromString month = .ok m ∧
        dayFromString day = .ok d ∧ hourMinFromString hm = .ok time ∧ a = ⟨m, d, time.nanos⟩ := by
  unfold datePoint at ha
  split at ha
  · next month day hm hsplit =>
    split at ha
    · next m d time hmonth hday htime =>
      exact ⟨month, day, hm, hsplit, m, d, time, hmonth, hday, htime, (Option.some.inj ha).symm⟩
    · cases ha
  · cases ha

theorem isOk_rangeBuilder_iff (now : Time) (ha : datePoint from_ = some a)
    (hb : datePoint to_ = some b) : (rangeBuilder now from_ to_).isOk = true ↔
      (a.month ≤ b.month → a.position (isLeap now.year) ≤ b.position (isLeap now.year)) := by
  obtain ⟨month, day, hm, hfrom, m, d, time, hmonth, hday, htime, rfl⟩ := datePoint_eq_some ha
  obtain ⟨month', day', hm', hto, m', d', time', hmonth', hday', htime', rfl⟩ :=
    datePoint_eq_some hb
  simp only [rangeBuilder, hfrom, hto, newPeriodicInDate, hmonth, hday, htime, hmonth', hday',
    htime', bind, Except.bind, date_eq]
  split_ifs with hcheck
  · exact iff_of_false (by decide) fun h => not_lt_of_ge (h hcheck.1) (by omega)
  · refine iff_of_true rfl fun hle => ?_
    have hge := not_and.mp hcheck hle
    omega

theorem rangeBuilder_timeless (hform : (Util.split ' ' from_).length ≠ 3) (now now' : Time) :
    rangeBuilder now from_ to_ = rangeBuilder now' from_ to_ := by
  unfold rangeBuilder
  split
  · rfl
  · rfl
  · next hfrom _ => simp [hfrom] at hform
  · rfl

theorem position_le_timeless (ha : datePoint from_ = some a) (hb : datePoint to_ = some b)
    (hnot : ¬LeapDependent from_ to_) (hle : a.month ≤ b.month) :
    a.position true ≤ b.position true ↔ a.position false ≤ b.position false := by
  have hdates : a.month = 2 → b.month = 3 → _ := fun hmonth hmonth' hpos =>
    not_lt.mp fun hlt => hnot ⟨a, b, ha, hb, hmonth, hmonth', hpos, hlt⟩
  obtain ⟨_, _, _, _, m, d, time, -, -, -, rfl⟩ := datePoint_eq_some ha
  obtain ⟨_, _, _, _, m', d', time', -, -, -, rfl⟩ := datePoint_eq_some hb
  have hbounds := And.intro m.2 m'.2
  have hdays := And.intro d.2 d'.2
  have htimes := And.intro time.shows_nanos time'.shows_nanos
  simp only [YearPoint.position, Set.mem_Icc, Clock.Shows, Clock.cycle, secondsOneDay,
    daysBeforeMonth_true] at *
  generalize (m : ℕ) = month at *
  generalize (m' : ℕ) = month' at *
  by_cases hfebruary : 2 < month ∨ month' ≤ 2
  · -- A leap year moves both dates or none.
    have hsame : 2 < month ↔ 2 < month' := by omega
    simp only [hsame]
    omega
  rw [if_neg (by omega), if_pos (by omega)]
  by_cases hnext : month = 2 ∧ month' = 3
  · obtain ⟨rfl, rfl⟩ := hnext
    have hend := hdates rfl rfl
    simp only [daysBeforeMonth, daysIn, Bool.false_eq_true, if_false] at *
    omega
  · -- There is a whole month between the dates, and no day is later than the 31st.
    have hfar : daysBeforeMonth false month + 59 ≤ daysBeforeMonth false month' := by
      rcases (by omega : month = 1 ∨ month = 2) with rfl | rfl
      · exact daysBeforeMonth_add_daysIn false (show 1 ≤ 2 by omega) (show 2 < month' by omega)
      · exact daysBeforeMonth_add_daysIn false (show 1 ≤ 3 by omega) (show 3 < month' by omega)
    omega

theorem isOk_timeless (hnot : ¬LeapDependent from_ to_) (now now' : Time) :
    (rangeBuilder now from_ to_).isOk = (rangeBuilder now' from_ to_).isOk := by
  by_cases hform : (Util.split ' ' from_).length = 3
  · by_cases hdates : ∃ a b, datePoint from_ = some a ∧ datePoint to_ = some b
    · obtain ⟨a, b, ha, hb⟩ := hdates
      rw [Bool.eq_iff_iff, isOk_rangeBuilder_iff now ha hb, isOk_rangeBuilder_iff now' ha hb]
      refine forall_congr' fun hle => ?_
      have hsame := position_le_timeless ha hb hnot hle
      cases isLeap now.year <;> cases isLeap now'.year <;> simp [hsame]
    · have hrefused (now : Time) : (rangeBuilder now from_ to_).isOk = false := by
        cases hbuild : rangeBuilder now from_ to_ with
        | error e => rfl
        | ok r =>
          obtain ⟨p, -, hp, -⟩ := rangeBuilder_dates hbuild hform
          exact absurd ⟨_, _, hp.start, hp.stop⟩ hdates
      rw [hrefused, hrefused]
  · rw [rangeBuilder_timeless hform now now']

theorem isOk_newSchedule (now : Time) (ranges : List (String × String)) :
    ((schedules now).newSchedule ranges).isOk =
      ranges.all fun range => (rangeBuilder now range.1 range.2).isOk := by
  induction ranges with
  | nil => rfl
  | cons range ranges ih =>
    rw [all_cons, ← ih]
    simp only [schedules, mapM_cons, bind, Except.bind]
    cases rangeBuilder now range.1 range.2 with
    | error e => rfl
    | ok r =>
      cases List.mapM (fun range => rangeBuilder now range.1 range.2) ranges with
      | error e | ok rs => rfl

end Vanguard.Access
