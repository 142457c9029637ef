/-
# Flock.Lib.Calendar — the Gregorian calendar, by counting.

Days are counted from the first of January of the year 0, year by year and month by month.  A year that begins in
March has its leap day at the end, so the months before a date are a linear function of the month, rounded, and the
leap days are those of the three rules (`dayNumber_eq_march`).
-/
import Mathlib.Tactic.IntervalCases

namespace Flock.Lib

/-- A leap year of the Gregorian calendar. -/
def isLeap (y : ℕ) : Bool := y % 4 == 0 && (y % 100 != 0 || y % 400 == 0)

def yearLength (y : ℕ) : ℕ := if isLeap y then 366 else 365

/-- Months are counted from one: month 0 has no days. -/
def monthLength (y : ℕ) : ℕ → ℕ
  | 0 => 0
  | 2 => if isLeap y then 29 else 28
  | 4 | 6 | 9 | 11 => 30
  | _ => 31

/-- The days of the years before. -/
def daysBeforeYear : ℕ → ℕ
  | 0 => 0
  | y + 1 => daysBeforeYear y + yearLength y

/-- The days of the months before, in one year. -/
def daysBeforeMonth (y : ℕ) : ℕ → ℕ
  | 0 => 0
  | m + 1 => daysBeforeMonth y m + monthLength y m

/-- A date of the calendar. -/
structure Date where
  year : ℕ
  month : ℕ
  day : ℕ
  month_pos : 1 ≤ month
  month_le : month ≤ 12
  day_pos : 1 ≤ day
  day_le : day ≤ monthLength year month

namespace Date

/-- How many days are before a date. -/
def dayNumber (d : Date) : ℕ := daysBeforeYear d.year + daysBeforeMonth d.year d.month + (d.day - 1)

end Date

theorem monthLength_le (y m : ℕ) : monthLength y m ≤ 31 := by
  unfold monthLength
  split
  · omega
  · split <;> omega
  all_goals omega

/-! ## The count -/

/-- The three rules. -/
theorem daysBeforeYear_eq (y : ℕ) :
    daysBeforeYear y + (y + 99) / 100 = 365 * y + (y + 3) / 4 + (y + 399) / 400 := by
  induction y with
  | zero => rfl
  | succ y ih =>
      have hleap : isLeap y = true ↔ y % 4 = 0 ∧ (y % 100 ≠ 0 ∨ y % 400 = 0) := by simp [isLeap]
      show daysBeforeYear y + yearLength y + _ = _
      unfold yearLength
      split
      · rename_i h
        have hrule := hleap.mp h
        omega
      · rename_i h
        have hrule := mt hleap.mpr h
        omega

/-- The year that a date is in if years begin in March. -/
def Date.marchYear (d : Date) : ℤ := if d.month ≤ 2 then d.year - 1 else d.year

/-- January and February are the last months of a year from March. -/
theorem daysBeforeMonth_of_le {m : ℕ} (y : ℕ) (hpos : 1 ≤ m) (hle : m ≤ 2) :
    daysBeforeMonth y m + 306 = (153 * ((m + 9) % 12) + 2) / 5 := by
  interval_cases m <;> rfl

theorem daysBeforeMonth_of_lt {m : ℕ} (y : ℕ) (hlt : 2 < m) (hle : m ≤ 12) :
    daysBeforeMonth y m = (153 * ((m + 9) % 12) + 2) / 5 + (yearLength y - 306) := by
  unfold yearLength
  interval_cases m <;> simp only [daysBeforeMonth, monthLength] <;> split <;> rfl

/-- The years before the year after, in whole numbers. -/
theorem daysBeforeYear_succ (y : ℤ) (n : ℕ) (h : (n : ℤ) = y + 1) :
    (daysBeforeYear n : ℤ) = 365 * (y + 1) + y / 4 - y / 100 + y / 400 + 1 := by
  have hyear := daysBeforeYear_eq n
  have hfour : (((n + 3) / 4 : ℕ) : ℤ) = y / 4 + 1 := by omega
  have hhundred : (((n + 99) / 100 : ℕ) : ℤ) = y / 100 + 1 := by omega
  have hfourHundred : (((n + 399) / 400 : ℕ) : ℤ) = y / 400 + 1 := by omega
  omega

/-- **The count in closed form**: years from March, their leap days, and months as a rounded linear function. -/
theorem Date.dayNumber_eq_march (d : Date) :
    (d.dayNumber : ℤ) = 365 * d.marchYear + d.marchYear / 4 - d.marchYear / 100 + d.marchYear / 400 +
      (153 * (((d.month : ℤ) + 9) % 12) + 2) / 5 + (d.day - 1) + 60 := by
  have hday := d.day_pos
  have hnumber : d.dayNumber = daysBeforeYear d.year + daysBeforeMonth d.year d.month + (d.day - 1) := rfl
  have hmonths : (((153 * ((d.month + 9) % 12) + 2) / 5 : ℕ) : ℤ) = (153 * (((d.month : ℤ) + 9) % 12) + 2) / 5 := by
    omega
  unfold Date.marchYear
  by_cases hmonth : d.month ≤ 2
  · have hyears := daysBeforeYear_succ (d.year - 1) d.year (by omega)
    have hbefore := daysBeforeMonth_of_le d.year d.month_pos hmonth
    rw [if_pos hmonth]
    omega
  · have hyears := daysBeforeYear_succ d.year (d.year + 1) rfl
    have hlength : daysBeforeYear (d.year + 1) = daysBeforeYear d.year + yearLength d.year := rfl
    have hlong : 306 ≤ yearLength d.year := by
      unfold yearLength
      split <;> omega
    have hbefore := daysBeforeMonth_of_lt d.year (not_le.mp hmonth) d.month_le
    rw [if_neg hmonth]
    omega

end Flock.Lib
