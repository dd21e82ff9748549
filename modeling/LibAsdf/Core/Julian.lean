import LibAsdf.Base.Calendar
import Mathlib.Algebra.Order.Round
import Mathlib.Algebra.Order.Archimedean.Basic
import Mathlib.Data.Rat.Floor
import Mathlib.Tactic.NormNum
import Mathlib.Tactic.Linarith

/-!
# Julian dates

`julian_to_tm`, with exact arithmetic for that of `double`.

* `julianToTm`: the function;
* `civil_date_iff`: on which days the date is right;
* `consecutive_dates`: so that the dates of two such days follow each other;
* `not_same_instant`: that the time of the day never is.
-/

namespace LibAsdf

/-! ## Conversions -/

/-- A conversion from `double` to an integer drops the fraction. -/
def truncation (q : ℚ) : Int := if 0 ≤ q then ⌊q⌋ else ⌈q⌉

/-- An `int`, undefined where it overflows. -/
def intOf (n : Int) : Option Int :=
  if -2147483648 ≤ n ∧ n ≤ 2147483647 then some n else none

def toInt (q : ℚ) : Option Int := intOf (truncation q)

/-- The fields of `struct tm` that are set. -/
structure Tm where
  year : Int
  mon : Int
  mday : Int
  hour : Int
  min : Int
  sec : Int
  deriving DecidableEq, Repr

/-! ## The function -/

def jdGregorianStart : ℚ := 2299161

def jdCorrectionRef : ℚ := 186721625 / 100

def jdCalendarOffset : ℚ := 1221 / 10

def jdBaseYear : Int := 4716

def jdYearLength : ℚ := 36525 / 100

def gregorianOffset : ℚ := 1524

def avgMonthLength : ℚ := 306001 / 10000

def daysInCentury : ℚ := 365242198781 / 10000000

def secondsPerDay : Int := 86400

def secondsPerHour : Int := 3600

def secondsPerMinute : Int := 60

/-- `jd_adjust` -/
def julianAdjust (jdInt : Int) : Option Int :=
  if (jdInt : ℚ) < jdGregorianStart then some jdInt
  else do
    let leapAdjust ← toInt ((jdInt - jdCorrectionRef) / daysInCentury)
    let sum ← intOf (jdInt + 1 + leapAdjust)
    intOf (sum - leapAdjust.tdiv 4)

/-- The year, the month and the day. -/
def julianCalendar (jdInt : Int) (dayFraction : ℚ) : Option (Int × Int × Int) := do
  let jdAdjust ← julianAdjust jdInt
  let calendarDay ← toInt (jdAdjust + gregorianOffset)
  let yearBase ← toInt ((calendarDay - jdCalendarOffset) / jdYearLength)
  let daysInYears ← toInt (jdYearLength * yearBase)
  let monthBase ← toInt (((calendarDay - daysInYears : Int) : ℚ) / avgMonthLength)
  let daysInMonths ← toInt (avgMonthLength * monthBase)
  let day ← toInt (((calendarDay - daysInYears - daysInMonths : Int) : ℚ) + dayFraction)
  let month := if monthBase < 14 then monthBase - 1 else monthBase - 13
  let year := if month > 2 then yearBase - jdBaseYear else yearBase - jdBaseYear - 1
  return (year, month, day)

/-- The hour, the minute, the second and the nanoseconds. -/
def julianClock (dayFraction : ℚ) : Option (Int × Int × Int × Int) := do
  let totalSeconds := dayFraction * secondsPerDay + 1 / 2
  let hour ← toInt (totalSeconds / secondsPerHour)
  let minute ← toInt ((totalSeconds - hour * secondsPerHour) / secondsPerMinute)
  let secondsWhole := totalSeconds - hour * secondsPerHour - minute * secondsPerMinute
  let second ← toInt secondsWhole
  let fractionalSeconds := secondsWhole - second
  return (hour, minute, second, truncation (truncation (fractionalSeconds * 1000000000) + 1 / 2))

/-- `julian_to_tm`: the broken-down time and the nanoseconds, if nothing overflows. -/
def julianToTm (jd : ℚ) : Option (Tm × Int) := do
  let jdShift := jd + 1 / 2
  let jdInt ← toInt jdShift
  let dayFraction := jdShift - jdInt
  let (year, month, day) ← julianCalendar jdInt dayFraction
  let (hour, minute, second, nanoseconds) ← julianClock dayFraction
  return (⟨year - 1900, month - 1, day, hour, minute, second⟩, nanoseconds)

/-! ## What is expected -/

/-- The number of the day that begins at the noon of a date. -/
def julianDay (date : CivilDate) : Int := date.ordinal + 1721425

/-- The day of a Julian date, which begins at midnight. -/
def dayNumber (jd : ℚ) : Int := ⌊jd + 1 / 2⌋

/-- A broken-down time has the fields of a date. -/
def Tm.OnDate (tm : Tm) (date : CivilDate) : Prop :=
  tm.year + 1900 = date.year ∧ tm.mon + 1 = date.month ∧ tm.mday = date.day

/-- What is computed is the date of the day. -/
def RightDate (jd : ℚ) : Prop :=
  ∃ tm nanoseconds date, julianToTm jd = some (tm, nanoseconds) ∧
    julianDay date = dayNumber jd ∧ tm.OnDate date

/-- The fields of the clock are in range. -/
structure Tm.OnClock (tm : Tm) (nanoseconds : Int) : Prop where
  hour : 0 ≤ tm.hour ∧ tm.hour ≤ 23
  minute : 0 ≤ tm.min ∧ tm.min ≤ 59
  second : 0 ≤ tm.sec ∧ tm.sec ≤ 59
  nanosecond : 0 ≤ nanoseconds ∧ nanoseconds < 1000000000

/-- The Julian date of a time of a day. -/
def instant (day : Int) (tm : Tm) (nanoseconds : Int) : ℚ :=
  day - 1 / 2 + (tm.hour * 3600 + tm.min * 60 + tm.sec + nanoseconds / 1000000000 : ℚ) / 86400

/-- What is computed is the same instant to a nanosecond, whatever day the date is
taken for. -/
def SameInstant (jd : ℚ) : Prop :=
  ∃ tm nanoseconds, julianToTm jd = some (tm, nanoseconds) ∧ tm.OnClock nanoseconds ∧
    ∃ day : Int, |instant day tm nanoseconds - jd| * 86400 ≤ 1 / 1000000000

/-! ## Conversions and quotients -/

section Conversions

variable {q : ℚ} {z num den : Int}

/-- A conversion is off by less than one. -/
theorem truncation_near (q : ℚ) : |(truncation q : ℚ) - q| < 1 := by
  unfold truncation
  rw [abs_lt]
  split
  · have low := Int.floor_le q
    have high := Int.lt_floor_add_one q
    constructor <;> linarith
  · have low := Int.le_ceil q
    have high := Int.ceil_lt_add_one q
    constructor <;> linarith

theorem truncation_half (k : Int) : k ≤ truncation (k + 1 / 2) ∧ truncation (k + 1 / 2) ≤ k + 1 := by
  obtain ⟨low, high⟩ := abs_lt.mp (truncation_near (k + 1 / 2))
  have above : ((k - 1 : Int) : ℚ) < truncation (k + 1 / 2) := by
    push_cast
    linarith
  have below : (truncation (k + 1 / 2) : ℚ) < (k + 2 : Int) := by
    push_cast
    linarith
  have above' : k - 1 < truncation (k + 1 / 2) := by exact_mod_cast above
  have below' : truncation (k + 1 / 2) < k + 2 := by exact_mod_cast below
  omega

theorem eq_of_intOf {n : Int} (h : intOf n = some z) : z = n := by
  unfold intOf at h
  split at h
  · cases h
    rfl
  · cases h

theorem toInt_near (h : toInt q = some z) : |(z : ℚ) - q| < 1 := by
  rw [eq_of_intOf h]
  exact truncation_near q

theorem toInt_some (bound : |q| ≤ 2147483646) : ∃ z, toInt q = some z := by
  have near := abs_lt.mp (truncation_near q)
  have range := abs_le.mp bound
  have low : (-2147483648 : Int) ≤ truncation q := by
    have lt : ((-2147483648 : Int) : ℚ) < truncation q := by
      push_cast
      linarith
    exact_mod_cast lt.le
  have high : truncation q ≤ (2147483647 : Int) := by
    have lt : (truncation q : ℚ) < (2147483647 : Int) := by
      push_cast
      linarith
    exact_mod_cast lt.le
  exact ⟨truncation q, if_pos ⟨low, high⟩⟩

theorem toInt_of_nonneg (nonneg : 0 ≤ q) : toInt q = intOf ⌊q⌋ := by
  rw [toInt, truncation, if_pos nonneg]

/-- The quotient of integers. -/
theorem toInt_quotient (pos : 0 < den) (value : q * den = num) (range : 0 ≤ z ∧ z ≤ 2147483647)
    (low : z * den ≤ num) (high : num < (z + 1) * den) : toInt q = some z := by
  have den_pos : (0 : ℚ) < den := by exact_mod_cast pos
  have quotient : q = num / den := (eq_div_iff den_pos.ne').mpr value
  have floor : ⌊q⌋ = z := by
    rw [quotient, Int.floor_eq_iff, le_div_iff₀ den_pos, div_lt_iff₀ den_pos]
    exact ⟨by exact_mod_cast low, by exact_mod_cast high⟩
  have nonneg : 0 ≤ q := by
    rw [← Int.floor_nonneg, floor]
    exact range.1
  rw [toInt_of_nonneg nonneg, floor]
  exact if_pos ⟨by omega, range.2⟩

/-- An integer and a fraction. -/
theorem toInt_fraction {fraction : ℚ} (proper : 0 ≤ fraction ∧ fraction < 1)
    (range : 0 ≤ z ∧ z ≤ 2147483647) : toInt (z + fraction) = some z := by
  have floor : ⌊(z : ℚ) + fraction⌋ = z := by
    rw [Int.floor_eq_iff]
    constructor <;> linarith
  have nonneg : (0 : ℚ) ≤ z + fraction := by
    rw [← Int.floor_nonneg, floor]
    exact range.1
  rw [toInt_of_nonneg nonneg, floor]
  exact if_pos ⟨by omega, range.2⟩

theorem quotient_of_toInt (pos : 0 < den) (value : q * den = num) (nonneg : 0 ≤ num)
    (h : toInt q = some z) : 0 ≤ z ∧ z * den ≤ num ∧ num < (z + 1) * den := by
  have den_pos : (0 : ℚ) < den := by exact_mod_cast pos
  have quotient : q = num / den := (eq_div_iff den_pos.ne').mpr value
  have q_nonneg : 0 ≤ q := by
    rw [quotient]
    exact div_nonneg (by exact_mod_cast nonneg) den_pos.le
  rw [toInt_of_nonneg q_nonneg] at h
  have floor := eq_of_intOf h
  have bounds := Int.floor_eq_iff.mp floor.symm
  rw [quotient, le_div_iff₀ den_pos, div_lt_iff₀ den_pos] at bounds
  refine ⟨?_, by exact_mod_cast bounds.1, by exact_mod_cast bounds.2⟩
  rw [floor]
  exact Int.floor_nonneg.mpr q_nonneg

end Conversions

/-! ## The clock -/

section Clock

variable {dayFraction : ℚ} {hour minute second nanoseconds : Int}

theorem julianClock_some (bound : |dayFraction| ≤ 1) : ∃ clock, julianClock dayFraction = some clock := by
  have range := abs_le.mp bound
  unfold julianClock secondsPerDay secondsPerHour secondsPerMinute
  dsimp only
  push_cast
  obtain ⟨hour, hours⟩ := toInt_some (q := (dayFraction * 86400 + 1 / 2) / 3600) (by
    rw [abs_le]
    constructor <;> linarith)
  have hourNear := abs_lt.mp (toInt_near hours)
  obtain ⟨minute, minutes⟩ := toInt_some
    (q := (dayFraction * 86400 + 1 / 2 - hour * 3600) / 60) (by
      rw [abs_le]
      constructor <;> linarith)
  have minuteNear := abs_lt.mp (toInt_near minutes)
  obtain ⟨second, seconds⟩ := toInt_some
    (q := dayFraction * 86400 + 1 / 2 - hour * 3600 - minute * 60) (by
      rw [abs_le]
      constructor <;> linarith)
  simp only [hours, minutes, seconds, Option.bind_eq_bind, Option.bind_some]
  exact ⟨_, rfl⟩

/-- The shift by half a second stays. -/
theorem julianClock_sum (h : julianClock dayFraction = some (hour, minute, second, nanoseconds)) :
    |(hour * 3600 + minute * 60 + second + nanoseconds / 1000000000 : ℚ) -
      (dayFraction * 86400 + 1 / 2)| < 2 / 1000000000 := by
  unfold julianClock secondsPerDay secondsPerHour secondsPerMinute at h
  simp only [Option.bind_eq_bind, Option.bind_eq_some_iff, Option.pure_def, Option.some.injEq,
    Prod.mk.injEq] at h
  obtain ⟨hour', -, minute', -, second', -, rfl, rfl, rfl, rfl⟩ := h
  generalize fraction : dayFraction * (86400 : Int) + 1 / 2 - hour' * (3600 : Int) -
    minute' * (60 : Int) - second' = x
  have near := abs_lt.mp (truncation_near (x * 1000000000))
  have half := truncation_half (truncation (x * 1000000000))
  generalize truncation (x * 1000000000) = k at near half ⊢
  generalize truncation (k + 1 / 2) = ns at half ⊢
  have low : (k : ℚ) ≤ ns := by exact_mod_cast half.1
  have high : (ns : ℚ) ≤ k + 1 := by exact_mod_cast half.2
  push_cast at fraction
  rw [abs_lt]
  constructor <;> linarith

end Clock

/-! ## The instant -/

section Instant

variable {jd : ℚ}

/-- Half a second is not a whole number of days, nor a nanosecond. -/
theorem half_second_off (days : Int) {shift : ℚ} (near : |shift - 1 / 2| < 2 / 1000000000) :
    1 / 1000000000 < |days * 86400 + shift| := by
  obtain ⟨low, high⟩ := abs_lt.mp near
  rcases lt_trichotomy days 0 with before | same | behind
  · have le : (days : ℚ) ≤ -1 := by exact_mod_cast Int.le_sub_one_of_lt before
    rw [lt_abs]
    right
    linarith
  · subst same
    rw [lt_abs]
    left
    push_cast
    linarith
  · have le : (1 : ℚ) ≤ days := by exact_mod_cast behind
    rw [lt_abs]
    left
    linarith

theorem instant_off {tm : Tm} {nanoseconds : Int} (computed : julianToTm jd = some (tm, nanoseconds))
    (day : Int) : 1 / 1000000000 < |instant day tm nanoseconds - jd| * 86400 := by
  unfold julianToTm at computed
  simp only [Option.bind_eq_bind, Option.bind_eq_some_iff, Option.pure_def, Option.some.injEq,
    Prod.mk.injEq, Prod.exists] at computed
  obtain ⟨jdInt, -, year, month, mday, -, hour, minute, second, ns, clock, rfl, rfl⟩ := computed
  have sum := julianClock_sum clock
  generalize written : (hour * 3600 + minute * 60 + second + ns / 1000000000 : ℚ) = w at sum
  have off := @half_second_off (day - jdInt) (w - (jd + 1 / 2 - jdInt) * 86400) (by
    rw [abs_lt] at sum ⊢
    constructor <;> linarith)
  have same : instant day ⟨year - 1900, month - 1, mday, hour, minute, second⟩ ns - jd =
      (((day - jdInt : Int) : ℚ) * 86400 + (w - (jd + 1 / 2 - jdInt) * 86400)) / 86400 := by
    simp only [instant, written]
    push_cast
    ring
  rw [same, abs_div, abs_of_pos (by norm_num : (0 : ℚ) < 86400),
    div_mul_cancel₀ _ (by norm_num : (86400 : ℚ) ≠ 0)]
  exact off

/-- The shift by half a second, for rounding, is never taken back: no Julian date is
converted to its own instant. -/
theorem not_same_instant (jd : ℚ) : ¬ SameInstant jd := by
  rintro ⟨tm, nanoseconds, computed, -, day, close⟩
  exact absurd close (not_le.mpr (instant_off computed day))

/-- Noon of 1 March 2000 is half a second late. -/
theorem noon_off : julianToTm 2451605 = some (⟨100, 2, 1, 12, 0, 0⟩, 500000000) ∧
    ¬ SameInstant 2451605 := by
  have computed : julianToTm 2451605 = some (⟨100, 2, 1, 12, 0, 0⟩, 500000000) := by decide +kernel
  refine ⟨computed, ?_⟩
  rintro ⟨tm, nanoseconds, other, -, day, close⟩
  exact absurd close (not_le.mpr (instant_off other day))

end Instant

/-! ## The date -/

section Date

variable {date : CivilDate} {jd dayFraction : ℚ}

/-- The years of the days that are converted. -/
theorem year_range (start : 2299161 ≤ julianDay date) (stop : julianDay date ≤ 5373484) :
    1582 ≤ date.year ∧ date.year ≤ 9999 := by
  have le := @CivilDate.yearDay_le date
  unfold julianDay CivilDate.ordinal daysBeforeYear at start stop
  have pos := date.dayPos
  omega

/-- From March on, the leap days of the centuries before are counted right. -/
theorem julianAdjust_march (march : 3 ≤ date.month) (start : 2299161 ≤ julianDay date)
    (stop : julianDay date ≤ 5373484) : julianAdjust (julianDay date) =
      some (365 * date.year + date.year / 4 + ((153 * (date.month - 3) + 2) / 5 : Nat) + date.day +
        1721117) := by
  obtain ⟨low, high⟩ := year_range start stop
  have days := CivilDate.ordinal_march march
  have month : (153 * (date.month - 3) + 2) / 5 ≤ 275 := by
    have last := date.month_le
    omega
  have day := date.day_le
  have length := @monthLength_le date.year date.month
  have pos := date.dayPos
  have leap : toInt ((julianDay date - jdCorrectionRef) / daysInCentury) =
      some (date.year / 100 - 4) := by
    refine @toInt_quotient _ _ (10000000 * julianDay date - 18672162500000) 365242198781
      (by decide) ?_ ?_ ?_ ?_
    · unfold jdCorrectionRef daysInCentury
      push_cast
      ring
    · omega
    · unfold julianDay
      omega
    · unfold julianDay
      omega
  have reformed : ¬ (julianDay date : ℚ) < jdGregorianStart := by
    unfold jdGregorianStart
    exact_mod_cast not_lt.mpr start
  have tdiv : (date.year / 100 - 4).tdiv 4 = (date.year / 100 - 4) / 4 :=
    Int.tdiv_eq_ediv_of_nonneg (by omega)
  unfold julianAdjust
  rw [if_neg reformed, leap]
  simp only [Option.bind_eq_bind, Option.bind_some, tdiv]
  rw [intOf, if_pos (by omega), Option.bind_some, intOf, if_pos (by omega)]
  congr 1
  unfold julianDay
  omega

/-- The first and the last days of the months, from March on. -/
theorem daysInMonths_march {year : Int} {month : Nat} (march : 3 ≤ month) (last : month ≤ 12) :
    ((153 * (month - 3) + 2) / 5 + 122) * 10000 ≤ 306001 * (month + 1) ∧
      306001 * (month + 1) < ((153 * (month - 3) + 2) / 5 + 123) * 10000 ∧
      ((153 * (month - 3) + 2) / 5 + monthLength year month + 122) * 10000 < 306001 * (month + 2) := by
  interval_cases month <;> simp [monthLength]

/-- From March on, the date is that of the day. -/
theorem julianCalendar_march (march : 3 ≤ date.month) (start : 2299161 ≤ julianDay date)
    (stop : julianDay date ≤ 5373484) (proper : 0 ≤ dayFraction ∧ dayFraction < 1) :
    julianCalendar (julianDay date) dayFraction = some (date.year, (date.month : Int), (date.day : Int)) := by
  obtain ⟨low, high⟩ := year_range start stop
  have adjust := julianAdjust_march march start stop
  obtain ⟨monthLow, monthHigh, monthEnd⟩ := @daysInMonths_march date.year _ march date.month_le
  have day := date.day_le
  have length := @monthLength_le date.year date.month
  have pos := date.dayPos
  have last := date.month_le
  generalize (153 * (date.month - 3) + 2) / 5 = mm at adjust monthLow monthHigh monthEnd
  have calendarDay : toInt (((365 * date.year + date.year / 4 + (mm : Nat) + date.day + 1721117 :
      Int) : ℚ) + gregorianOffset) =
      some (365 * date.year + date.year / 4 + mm + date.day + 1722641) := by
    refine @toInt_quotient _ _ (365 * date.year + date.year / 4 + mm + date.day + 1722641) 1
      (by decide) ?_ (by omega) (by omega) (by omega)
    unfold gregorianOffset
    push_cast
    ring
  generalize written : 365 * date.year + date.year / 4 + mm + date.day + 1722641 = cd at calendarDay
  have yearBase : toInt ((cd - jdCalendarOffset) / jdYearLength) = some (date.year + 4716) := by
    refine @toInt_quotient _ _ (100 * cd - 12210) 36525 (by decide) ?_ (by omega) (by omega)
      (by omega)
    unfold jdCalendarOffset jdYearLength
    push_cast
    ring
  have daysInYears : toInt (jdYearLength * (date.year + 4716 : Int)) =
      some (365 * date.year + date.year / 4 + 1722519) := by
    refine @toInt_quotient _ _ (36525 * (date.year + 4716)) 100 (by decide) ?_ (by omega) (by omega)
      (by omega)
    unfold jdYearLength
    push_cast
    ring
  have rest : cd - (365 * date.year + date.year / 4 + 1722519) = mm + date.day + 122 := by omega
  have monthBase : toInt (((mm + date.day + 122 : Int) : ℚ) / avgMonthLength) =
      some ((date.month : Int) + 1) := by
    refine @toInt_quotient _ _ (10000 * (mm + date.day + 122)) 306001 (by decide) ?_ (by omega)
      (by omega) (by omega)
    unfold avgMonthLength
    push_cast
    ring
  have daysInMonths : toInt (avgMonthLength * (date.month + 1 : Int)) =
      some ((mm : Int) + 122) := by
    refine @toInt_quotient _ _ (306001 * (date.month + 1)) 10000 (by decide) ?_ (by omega)
      (by omega) (by omega)
    unfold avgMonthLength
    push_cast
    ring
  have monthRest : (mm + date.day + 122 : Int) - (mm + 122) = date.day := by omega
  have days := @toInt_fraction date.day _ proper (by omega)
  have early : (date.month : Int) + 1 < 14 := by omega
  have spring : (2 : Int) < date.month := by omega
  unfold julianCalendar
  simp only [adjust, calendarDay, yearBase, daysInYears, rest, monthBase, daysInMonths, monthRest, days,
    Option.bind_eq_bind, Option.bind_some, Option.pure_def, early, if_true,
    Int.add_sub_cancel, gt_iff_lt, spring, jdBaseYear]

/-- In January and February the year is too small. -/
theorem julianCalendar_winter {year month day : Int} (winter : date.month ≤ 2)
    (start : 2299161 ≤ julianDay date) (stop : julianDay date ≤ 5373484)
    (h : julianCalendar (julianDay date) dayFraction = some (year, month, day))
    (same : month = date.month) : year < date.year := by
  obtain ⟨low, high⟩ := year_range start stop
  have yearDay := @CivilDate.yearDay_winter date winter
  have written : julianDay date = daysBeforeYear date.year +
      daysBeforeMonth date.year date.month + date.day + 1721425 := rfl
  generalize julianDay date = n at start stop h written
  unfold daysBeforeYear at written
  have reformed : ¬ (n : ℚ) < jdGregorianStart := by
    unfold jdGregorianStart
    exact_mod_cast not_lt.mpr start
  unfold julianCalendar julianAdjust at h
  rw [if_neg reformed] at h
  simp only [Option.bind_eq_bind, Option.bind_eq_some_iff, Option.pure_def, Option.some.injEq,
    Prod.mk.injEq] at h
  obtain ⟨adjust, ⟨leap, leaps, sum, sums, adjusts⟩, cd, calendarDay, yearBase, years, -, -,
    monthBase, -, -, -, -, -, rfl, rfl, -⟩ := h
  have leapBounds := @quotient_of_toInt _ _ (10000000 * n - 18672162500000) 365242198781 (by decide)
    (by
      unfold jdCorrectionRef daysInCentury
      push_cast
      ring) (by omega) leaps
  have sumValue := eq_of_intOf sums
  have adjustValue := eq_of_intOf adjusts
  rw [Int.tdiv_eq_ediv_of_nonneg leapBounds.1] at adjustValue
  have dayBounds := @quotient_of_toInt _ _ (adjust + 1524) 1 (by decide)
    (by
      unfold gregorianOffset
      push_cast
      ring) (by omega) calendarDay
  have yearBounds := @quotient_of_toInt _ _ (100 * cd - 12210) 36525 (by decide)
    (by
      unfold jdCalendarOffset jdYearLength
      push_cast
      ring) (by omega) years
  have early : ¬ (if monthBase < 14 then monthBase - 1 else monthBase - 13) > 2 := by omega
  rw [if_neg early]
  unfold jdBaseYear
  omega

theorem dayNumber_fraction (jd : ℚ) :
    0 ≤ jd + 1 / 2 - dayNumber jd ∧ jd + 1 / 2 - dayNumber jd < 1 := by
  have low := Int.floor_le (jd + 1 / 2)
  have high := Int.lt_floor_add_one (jd + 1 / 2)
  unfold dayNumber
  constructor <;> linarith

theorem toInt_dayNumber (start : 0 ≤ dayNumber jd) (stop : dayNumber jd ≤ 2147483647) :
    toInt (jd + 1 / 2) = some (dayNumber jd) := by
  rw [toInt_of_nonneg (Int.floor_nonneg.mp start)]
  exact if_pos ⟨Int.le_trans (by decide) start, stop⟩

theorem julianToTm_march (march : 3 ≤ date.month) (day : julianDay date = dayNumber jd)
    (start : 2299161 ≤ dayNumber jd) (stop : dayNumber jd ≤ 5373484) :
    ∃ tm nanoseconds, julianToTm jd = some (tm, nanoseconds) ∧ tm.OnDate date := by
  have proper := dayNumber_fraction jd
  have calendar := @julianCalendar_march date (jd + 1 / 2 - dayNumber jd) march (by omega) (by omega)
    proper
  obtain ⟨⟨hour, minute, second, nanoseconds⟩, clock⟩ := @julianClock_some
    (jd + 1 / 2 - dayNumber jd) (abs_le.mpr ⟨by linarith [proper.1], proper.2.le⟩)
  rw [day] at calendar
  have days := @toInt_dayNumber jd (by omega) (by omega)
  refine ⟨⟨date.year - 1900, date.month - 1, date.day, hour, minute, second⟩, nanoseconds, ?_, ?_⟩
  · unfold julianToTm
    simp only [days, calendar, clock, Option.bind_eq_bind, Option.bind_some, Option.pure_def]
  · exact ⟨Int.sub_add_cancel _ _, Int.sub_add_cancel _ _, rfl⟩

/-- From the reform to the year 9999, the date is that of the day just from March to
December: in January and February, the year is another. -/
theorem civil_date_iff (jd : ℚ) (start : 2299161 ≤ dayNumber jd) (stop : dayNumber jd ≤ 5373484) :
    RightDate jd ↔ ∃ date : CivilDate, julianDay date = dayNumber jd ∧ 3 ≤ date.month := by
  constructor
  · rintro ⟨tm, nanoseconds, date, computed, day, years, months, -⟩
    refine ⟨date, day, ?_⟩
    by_contra winter
    unfold julianToTm at computed
    simp only [toInt_dayNumber (Int.le_trans (by decide) start) (Int.le_trans stop (by decide)),
      Option.bind_eq_bind, Option.bind_eq_some_iff, Option.bind_some, Option.pure_def,
      Option.some.injEq, Prod.mk.injEq, Prod.exists] at computed
    obtain ⟨year, month, mday, calendar, hour, minute, second, ns, -, rfl, rfl⟩ := computed
    rw [← day] at calendar start stop
    have less := julianCalendar_winter (by omega) start stop calendar
      ((Int.sub_add_cancel month 1).symm.trans months)
    exact absurd ((Int.sub_add_cancel year 1900).symm.trans years) (Int.ne_of_lt less)
  · rintro ⟨date, day, march⟩
    obtain ⟨tm, nanoseconds, computed, onDate⟩ := julianToTm_march march day start stop
    exact ⟨tm, nanoseconds, date, computed, day, onDate⟩

/-- 14 October 2025 -/
def autumnDay : CivilDate where
  year := 2025
  month := 10
  day := 14
  monthPos := by decide
  month_le := by decide
  dayPos := by decide
  day_le := by decide

theorem civil_date_autumn : RightDate 2460963 :=
  (civil_date_iff 2460963 (by decide +kernel) (by decide +kernel)).mpr
    ⟨autumnDay, by decide +kernel, by decide⟩

/-- The epoch of Unix, 1 January 1970, is converted to a day of 1968. -/
theorem unix_epoch_off : 2299161 ≤ dayNumber (4881175 / 2) ∧ dayNumber (4881175 / 2) ≤ 5373484 ∧
    julianToTm (4881175 / 2) = some (⟨68, 0, 1, 0, 0, 0⟩, 500000000) ∧
    ¬ RightDate (4881175 / 2) := by
  have computed : julianToTm (4881175 / 2) = some (⟨68, 0, 1, 0, 0, 0⟩, 500000000) := by
    decide +kernel
  refine ⟨by decide +kernel, by decide +kernel, computed, ?_⟩
  rintro ⟨tm, nanoseconds, date, computed', day, years, months, days⟩
  cases computed.symm.trans computed'
  have year : date.year = 1968 := years.symm
  have month : date.month = 1 := by
    have one : ((1 : Nat) : Int) = date.month := months
    exact_mod_cast one.symm
  have mday : (date.day : Int) = 1 := days.symm
  have number : dayNumber (4881175 / 2) = 2440588 := by decide +kernel
  rw [number, julianDay, CivilDate.ordinal, year, month, mday] at day
  cases day

/-- Where the dates of a day and of the day after are right they are consecutive. -/
theorem consecutive_dates (right : RightDate jd) (after : RightDate (jd + 1)) :
    ∃ date tm nanoseconds tm' nanoseconds', julianToTm jd = some (tm, nanoseconds) ∧ tm.OnDate date ∧
      julianToTm (jd + 1) = some (tm', nanoseconds') ∧ tm'.OnDate date.next := by
  obtain ⟨tm, nanoseconds, date, computed, day, onDate⟩ := right
  obtain ⟨tm', nanoseconds', date', computed', day', onDate'⟩ := after
  have behind : dayNumber (jd + 1) = dayNumber jd + 1 := by
    unfold dayNumber
    rw [add_right_comm, Int.floor_add_one]
  have next : date.next = date' := by
    apply CivilDate.ordinal_injective
    unfold julianDay at day day'
    rw [CivilDate.ordinal_next]
    omega
  exact ⟨date, tm, nanoseconds, tm', nanoseconds', computed, onDate, computed', next ▸ onDate'⟩

end Date

end LibAsdf
