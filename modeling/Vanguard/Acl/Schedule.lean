import Mathlib.Order.Interval.Set.Basic
import Vanguard.Acl.Manager
import Vanguard.Library.Calendar
import Vanguard.Util.Strings

/-!
# The times an ACL is in effect

A schedule is a list of ranges: of times of the day, of times of the week or of dates of the year.
`time.Date` counts a day that the month does not have on into the next month.
-/

namespace Vanguard.Access

open Library

def errTimeRangeInvalid : String := "time range isn't valid"
def errHourMinuteInvalid : String := "hour minute format invalid"
def errWeekDayInvalid : String := "weekday format invalid"
def errDayInvalid : String := "day format invalid"
def errMonthInvalid : String := "month format invalid"
def errDateInvalid : String := "date format invalid"

def secondsOneDay : ℤ := 24 * 3600 * 1000000000

structure Time where
  year : ℤ
  month : Set.Icc 1 12
  day : Set.Icc 1 (daysIn (isLeap year) month)
  nanos : {n : ℤ // 0 ≤ n ∧ n < secondsOneDay}

structure HourMinute where
  hour : Set.Icc 0 23
  minute : Set.Icc 0 59

def HourMinute.nanos (hm : HourMinute) : ℤ := (hm.hour * 60 + hm.minute : ℕ) * 60000000000

def date (year : ℤ) (month day : ℕ) (hm : HourMinute) : ℤ :=
  dayNumber year month day * secondsOneDay + hm.nanos

namespace Time

/-- The number of nanoseconds that `Before` and `After` compare. -/
def instant (t : Time) : ℤ := dayNumber t.year t.month t.day * secondsOneDay + t.nanos

def weekday (t : Time) : ℤ := (dayNumber t.year t.month t.day + 1) % 7

def newYear (year : ℤ) : Time :=
  ⟨year, ⟨1, by simp⟩, ⟨1, by simp [daysIn]⟩, ⟨0, by simp [secondsOneDay]⟩⟩

end Time

section reading

/-- `Atoi` and the check of the bounds, each with its error. -/
def numberFromString (lo hi : ℕ) (notNumber outOfRange s : String) :
    Except String (Set.Icc lo hi) :=
  match Util.atoi s with
  | none => .error notNumber
  | some n =>
    if h : lo ≤ n ∧ n ≤ hi then .ok ⟨n.toNat, by omega, by omega⟩ else .error outOfRange

def hourMinFromString (hm : String) : Except String HourMinute :=
  match Util.split ':' hm with
  | [hour, minute] => do
    let hour ← numberFromString 0 23 errHourMinuteInvalid errHourMinuteInvalid hour
    let minute ← numberFromString 0 59 errHourMinuteInvalid errHourMinuteInvalid minute
    .ok ⟨hour, minute⟩
  | _ => .error errHourMinuteInvalid

def weekDayFromString : String → Except String (Set.Icc 0 6) :=
  numberFromString 0 6 errWeekDayInvalid errWeekDayInvalid

def dayFromString : String → Except String (Set.Icc 1 31) :=
  numberFromString 1 31 errDayInvalid errWeekDayInvalid

def monthFromString : String → Except String (Set.Icc 1 12) :=
  numberFromString 1 12 errWeekDayInvalid errMonthInvalid

end reading

/-- The end of each `IncludeTime`. -/
def includes (expand : Bool) (start stop t : ℤ) : Bool :=
  if expand then start < t || t < stop else start < t && t < stop

structure PeriodicInHour where
  start : HourMinute
  stop : HourMinute
  expandDay : Bool

structure PeriodicInWeekDay where
  startWeekDay : Set.Icc 0 6
  endWeekDay : Set.Icc 0 6
  start : HourMinute
  stop : HourMinute
  expandWeek : Bool

structure PeriodicInDate where
  startMonth : Set.Icc 1 12
  endMonth : Set.Icc 1 12
  startDay : Set.Icc 1 31
  endDay : Set.Icc 1 31
  start : HourMinute
  stop : HourMinute
  expandYear : Bool

def newPeriodicInHour (from_ to_ : String) : Except String PeriodicInHour := do
  let start ← hourMinFromString from_
  let stop ← hourMinFromString to_
  if start.hour = stop.hour ∧ stop.minute < start.minute then .error errHourMinuteInvalid
  else .ok ⟨start, stop, stop.hour < start.hour⟩

def PeriodicInHour.includeTime (p : PeriodicInHour) (t : Time) : Bool :=
  includes p.expandDay (date t.year t.month t.day p.start) (date t.year t.month t.day p.stop)
    t.instant

def newPeriodicInWeekDay (fromDay fromHourMinute toDay toHourMinute : String) :
    Except String PeriodicInWeekDay := do
  let start ← hourMinFromString fromHourMinute
  let stop ← hourMinFromString toHourMinute
  let startWeekDay ← weekDayFromString fromDay
  let endWeekDay ← weekDayFromString toDay
  if startWeekDay = endWeekDay ∧
      (stop.hour < start.hour ∨ start.hour = stop.hour ∧ stop.minute < start.minute) then
    .error errWeekDayInvalid
  else .ok ⟨startWeekDay, endWeekDay, start, stop, endWeekDay < startWeekDay⟩

def PeriodicInWeekDay.includeTime (p : PeriodicInWeekDay) (t : Time) : Bool :=
  let start := date t.year t.month t.day p.start + (p.startWeekDay - t.weekday) * secondsOneDay
  let stop := date t.year t.month t.day p.stop + (p.endWeekDay - t.weekday) * secondsOneDay
  includes p.expandWeek start stop t.instant

def newPeriodicInDate (now : Time)
    (fromMonth fromDay fromHourMinute toMonth toDay toHourMinute : String) :
    Except String PeriodicInDate := do
  let startMonth ← monthFromString fromMonth
  let endMonth ← monthFromString toMonth
  let start ← hourMinFromString fromHourMinute
  let stop ← hourMinFromString toHourMinute
  let startDay ← dayFromString fromDay
  let endDay ← dayFromString toDay
  if startMonth ≤ endMonth ∧
      date now.year endMonth endDay stop < date now.year startMonth startDay start then
    .error errDateInvalid
  else
    .ok ⟨startMonth, endMonth, startDay, endDay, start, stop, endMonth < startMonth⟩

def PeriodicInDate.includeTime (p : PeriodicInDate) (t : Time) : Bool :=
  includes p.expandYear (date t.year p.startMonth p.startDay p.start)
    (date t.year p.endMonth p.endDay p.stop) t.instant

inductive TimeRange where
  | inHour (p : PeriodicInHour)
  | inWeekDay (p : PeriodicInWeekDay)
  | inDate (p : PeriodicInDate)

def TimeRange.includeTime : TimeRange → Time → Bool
  | .inHour p => p.includeTime
  | .inWeekDay p => p.includeTime
  | .inDate p => p.includeTime

def rangeBuilder (now : Time) (from_ to_ : String) : Except String TimeRange :=
  match Util.split ' ' from_, Util.split ' ' to_ with
  | [hm], [hm'] => do
    let p ← newPeriodicInHour hm hm'
    .ok (.inHour p)
  | [day, hm], [day', hm'] => do
    let p ← newPeriodicInWeekDay day hm day' hm'
    .ok (.inWeekDay p)
  | [month, day, hm], [month', day', hm'] => do
    let p ← newPeriodicInDate now month day hm month' day' hm'
    .ok (.inDate p)
  | _, _ => .error errTimeRangeInvalid

def schedules (now : Time) : Schedules (String × String) (List TimeRange) Time where
  newSchedule timeRanges := timeRanges.mapM fun range => rangeBuilder now range.1 range.2
  includeTime ranges t := ranges.any fun range => range.includeTime t

end Vanguard.Access
