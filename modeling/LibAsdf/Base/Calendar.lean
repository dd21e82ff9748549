import Mathlib.Data.Int.Basic
import Mathlib.Tactic.IntervalCases

/-!
# The calendar

The Gregorian calendar for all years, before its introduction as after it.

* `CivilDate`: the dates that there are;
* `CivilDate.ordinal`: the number of a date, from 1 January of year 1 on;
* `CivilDate.ordinal_next`: days follow each other;
* `CivilDate.ordinal_injective`: no two dates have one number.
-/

def leapYear (year : Int) : Bool := year % 4 = 0 && (year % 100 ≠ 0 || year % 400 = 0)

def monthLength (year : Int) : Nat → Nat
  | 2 => if leapYear year then 29 else 28
  | 4 | 6 | 9 | 11 => 30
  | _ => 31

/-- A day of a month of a year. -/
structure CivilDate where
  year : Int
  month : Nat
  day : Nat
  monthPos : 1 ≤ month
  month_le : month ≤ 12
  dayPos : 1 ≤ day
  day_le : day ≤ monthLength year month

/-- The days from the year 1 to a year. -/
def daysBeforeYear (year : Int) : Int :=
  365 * (year - 1) + (year - 1) / 4 - (year - 1) / 100 + (year - 1) / 400

def daysBeforeMonth (year : Int) (month : Nat) : Nat :=
  ((List.range (month - 1)).map fun earlier => monthLength year (earlier + 1)).sum

namespace CivilDate

/-- 1 January of year 1 is day 1. -/
def ordinal (date : CivilDate) : Int :=
  daysBeforeYear date.year + daysBeforeMonth date.year date.month + date.day

end CivilDate

section Lengths

variable {year : Int} {month : Nat}

theorem leapYear_iff :
    leapYear year = true ↔ year % 4 = 0 ∧ (year % 100 ≠ 0 ∨ year % 400 = 0) := by
  simp [leapYear]

theorem monthLength_pos : 1 ≤ monthLength year month := by
  unfold monthLength
  split
  · split <;> decide
  all_goals decide

theorem monthLength_le : monthLength year month ≤ 31 := by
  unfold monthLength
  split
  · split <;> decide
  all_goals decide

theorem daysBeforeYear_succ (year : Int) :
    daysBeforeYear (year + 1) = daysBeforeYear year + 365 + (leapYear year).toNat := by
  unfold daysBeforeYear
  by_cases leap : leapYear year = true
  · have conditions := leapYear_iff.mp leap
    rw [leap, Bool.toNat_true]
    omega
  · have conditions := mt leapYear_iff.mpr leap
    rw [Bool.eq_false_iff.mpr leap, Bool.toNat_false]
    omega

theorem daysBeforeMonth_succ (pos : 1 ≤ month) :
    daysBeforeMonth year (month + 1) = daysBeforeMonth year month + monthLength year month := by
  obtain ⟨m, rfl⟩ := Nat.exists_eq_add_of_le' pos
  simp only [daysBeforeMonth, Nat.add_sub_cancel, List.range_succ, List.map_append, List.map_cons,
    List.map_nil, List.sum_append, List.sum_cons, List.sum_nil, Nat.add_zero]

theorem daysBeforeMonth_end : daysBeforeMonth year 13 = 365 + (leapYear year).toNat := by
  simp only [daysBeforeMonth, Nat.reduceSub, List.range_succ, List.range_zero, List.nil_append,
    List.cons_append, List.map_cons, List.map_nil, List.sum_cons, List.sum_nil, Nat.reduceAdd,
    monthLength]
  cases leapYear year <;> rfl

/-- From March on, the months have 153 days in five. -/
theorem daysBeforeMonth_march (march : 3 ≤ month) (le : month ≤ 12) :
    daysBeforeMonth year month = (153 * (month - 3) + 2) / 5 + 59 + (leapYear year).toNat := by
  have table (m : Nat) (low : m < 10) : daysBeforeMonth year (m + 3) =
      (153 * m + 2) / 5 + 59 + (leapYear year).toNat := by
    simp only [daysBeforeMonth]
    interval_cases m <;>
    · simp only [Nat.reduceAdd, Nat.reduceSub, List.range_succ, List.range_zero, List.nil_append,
        List.cons_append, List.map_cons, List.map_nil, List.sum_cons, List.sum_nil, monthLength]
      cases leapYear year <;> rfl
  obtain ⟨m, rfl⟩ := Nat.exists_eq_add_of_le' march
  rw [table m (by omega), Nat.add_sub_cancel]

end Lengths

namespace CivilDate

variable {date : CivilDate}

/-- In a month from March on, leap days are counted with the years before. -/
theorem ordinal_march (march : 3 ≤ date.month) : date.ordinal =
    365 * date.year + date.year / 4 - date.year / 100 + date.year / 400 +
      ((153 * (date.month - 3) + 2) / 5 : Nat) + date.day - 306 := by
  have days := daysBeforeYear_succ date.year
  unfold ordinal
  rw [daysBeforeMonth_march march date.month_le]
  unfold daysBeforeYear at days ⊢
  push_cast
  omega

/-- January and February. -/
theorem yearDay_winter (winter : date.month ≤ 2) :
    daysBeforeMonth date.year date.month + date.day ≤ 60 := by
  have le := date.day_le
  rcases Nat.le_iff_lt_or_eq.mp winter with january | february
  · have month : date.month = 1 := Nat.le_antisymm (Nat.le_of_lt_succ january) date.monthPos
    have none : daysBeforeMonth date.year 1 = 0 := rfl
    have length := @monthLength_le date.year date.month
    rw [month, none]
    omega
  · have before : daysBeforeMonth date.year 2 = 31 := rfl
    have length : monthLength date.year 2 ≤ 29 := by
      change (if leapYear date.year then 29 else 28) ≤ 29
      split <;> decide
    rw [february] at le
    rw [february, before]
    omega

theorem yearDay_le : daysBeforeMonth date.year date.month + date.day ≤ 366 := by
  have le := date.day_le
  have length := @monthLength_le date.year date.month
  by_cases march : 3 ≤ date.month
  · have days := @daysBeforeMonth_march date.year date.month march date.month_le
    have leap := Bool.toNat_le (leapYear date.year)
    have last := date.month_le
    omega
  · have winter := @yearDay_winter date (by omega)
    omega

/-- The day after. -/
def next (date : CivilDate) : CivilDate :=
  if inMonth : date.day < monthLength date.year date.month then
    { date with day := date.day + 1, dayPos := Nat.le_add_left _ _, day_le := inMonth }
  else if inYear : date.month < 12 then
    { year := date.year
      month := date.month + 1
      day := 1
      monthPos := Nat.le_add_left _ _
      month_le := inYear
      dayPos := Nat.le_refl 1
      day_le := monthLength_pos }
  else
    { year := date.year + 1
      month := 1
      day := 1
      monthPos := Nat.le_refl 1
      month_le := by omega
      dayPos := Nat.le_refl 1
      day_le := monthLength_pos }

/-- Days follow each other. -/
theorem ordinal_next : date.next.ordinal = date.ordinal + 1 := by
  unfold next
  split
  · rename_i inMonth
    simp only [ordinal]
    omega
  · rename_i last
    have whole : date.day = monthLength date.year date.month :=
      Nat.le_antisymm date.day_le (Nat.le_of_not_lt last)
    split
    · have more := @daysBeforeMonth_succ date.year date.month date.monthPos
      simp only [ordinal, more, whole]
      omega
    · rename_i december
      have month : date.month = 12 := Nat.le_antisymm date.month_le (Nat.le_of_not_lt december)
      have more : daysBeforeMonth date.year 13 =
          daysBeforeMonth date.year 12 + monthLength date.year 12 := daysBeforeMonth_succ (by omega)
      have all := @daysBeforeMonth_end date.year
      have years := daysBeforeYear_succ date.year
      have first : daysBeforeMonth (date.year + 1) 1 = 0 := rfl
      rw [month] at whole
      simp only [ordinal, month, first]
      omega

/-- A month that begins later begins after the end of the other. -/
theorem daysBeforeMonth_lt {year : Int} {month month' : Nat} (pos : 1 ≤ month) (lt : month < month') :
    daysBeforeMonth year month + monthLength year month ≤ daysBeforeMonth year month' := by
  rw [← daysBeforeMonth_succ pos]
  induction month' with
  | zero => cases lt
  | succ later ih =>
    rcases Nat.lt_succ_iff_lt_or_eq.mp lt with less | rfl
    · have more := @daysBeforeMonth_succ year later (by omega)
      have before := ih less
      omega
    · exact Nat.le_refl _

theorem yearDay_lt : daysBeforeMonth date.year date.month + date.day ≤ 365 + (leapYear date.year).toNat := by
  have le := date.day_le
  have whole := @daysBeforeMonth_lt date.year date.month 13 date.monthPos (Nat.lt_succ_of_le date.month_le)
  rw [daysBeforeMonth_end] at whole
  omega

theorem daysBeforeYear_mono {year year' : Int} (le : year ≤ year') :
    daysBeforeYear year ≤ daysBeforeYear year' := by
  unfold daysBeforeYear
  omega

/-- A date of an earlier year, or of an earlier month of the year, comes before. -/
theorem ordinal_lt {date' : CivilDate} (earlier : date.year < date'.year ∨
    date.year = date'.year ∧ date.month < date'.month) : date.ordinal < date'.ordinal := by
  have pos' := date'.dayPos
  rcases earlier with years | ⟨years, months⟩
  · have days := @yearDay_lt date
    have next := daysBeforeYear_succ date.year
    have later := daysBeforeYear_mono (show date.year + 1 ≤ date'.year from years)
    unfold ordinal
    omega
  · have le := date.day_le
    have before := @daysBeforeMonth_lt date'.year date.month date'.month date.monthPos months
    unfold ordinal
    rw [years] at le ⊢
    omega

/-- No two dates have one number. -/
theorem ordinal_injective {date' : CivilDate} (same : date.ordinal = date'.ordinal) : date = date' := by
  have years : date.year = date'.year := by
    rcases Int.lt_trichotomy date.year date'.year with less | same' | greater
    · exact absurd same (Int.ne_of_lt (ordinal_lt (.inl less)))
    · exact same'
    · exact absurd same.symm (Int.ne_of_lt (ordinal_lt (.inl greater)))
  have months : date.month = date'.month := by
    rcases Nat.lt_trichotomy date.month date'.month with less | same' | greater
    · exact absurd same (Int.ne_of_lt (ordinal_lt (.inr ⟨years, less⟩)))
    · exact same'
    · exact absurd same.symm (Int.ne_of_lt (ordinal_lt (.inr ⟨years.symm, greater⟩)))
  have days : date.day = date'.day := by
    unfold ordinal at same
    rw [years, months] at same
    omega
  cases date
  cases date'
  dsimp only at years months days
  subst years months days
  rfl

end CivilDate
