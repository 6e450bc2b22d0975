import Mathlib.Tactic.IntervalCases
import Mathlib.Tactic.Linarith

/-!
# The Gregorian calendar

The calendar carried back before its adoption, from the year `0`: leap years,
the lengths of the years and of the months, and the dates. The number of a date
counts the days before it, adding up whole years, whole months and days, so the
numbers order the dates as years, months and days do.

`marchDays` is the closed form that reckons with years beginning in March, whose
leap day is their last: the form conversions between days and dates are written
with.
-/

namespace Pebrel.Library.Calendar

/-- Every fourth year, of the centuries every fourth. -/
def Leap (y : ℕ) : Prop := y % 4 = 0 ∧ (y % 100 = 0 → y % 400 = 0)
deriving Decidable

/-- The number of days of a year. -/
def yearLength (y : ℕ) : ℕ := if Leap y then 366 else 365

/-- The number of days of a month. -/
def monthLength (y : ℕ) : ℕ → ℕ
  | 1 => 31
  | 2 => if Leap y then 29 else 28
  | 3 => 31
  | 4 => 30
  | 5 => 31
  | 6 => 30
  | 7 => 31
  | 8 => 31
  | 9 => 30
  | 10 => 31
  | 11 => 30
  | 12 => 31
  | _ => 0

/-- The days of the years before a year. -/
def daysBeforeYear : ℕ → ℕ
  | 0 => 0
  | y + 1 => daysBeforeYear y + yearLength y

/-- The days of the months of a year before a month. -/
def daysBeforeMonth (y : ℕ) : ℕ → ℕ
  | 0 => 0
  | m + 1 => daysBeforeMonth y m + monthLength y m

/-- A date of the calendar. -/
structure Date where
  /-- The year. -/
  year : ℕ
  /-- The month, from `1`. -/
  month : ℕ
  /-- The day of the month, from `1`. -/
  day : ℕ
  month_le : month ≤ 12
  day_pos : 1 ≤ day
  day_le : day ≤ monthLength year month

variable {d e : Date} {y m n : ℕ}

namespace Date

@[ext] theorem ext (hy : d.year = e.year) (hm : d.month = e.month) (hd : d.day = e.day) : d = e := by
  cases d
  cases e
  simp_all

/-- The number of days before a date. -/
def dayNumber (d : Date) : ℕ := daysBeforeYear d.year + daysBeforeMonth d.year d.month + (d.day - 1)

/-- A date is earlier: by its year, then its month, then its day. -/
def Earlier (d e : Date) : Prop :=
  d.year < e.year ∨ d.year = e.year ∧ (d.month < e.month ∨ d.month = e.month ∧ d.day < e.day)

end Date

/-! ### Months and years -/

/-- The months of a year make up the year. -/
theorem daysBeforeMonth_thirteen (y : ℕ) : daysBeforeMonth y 13 = yearLength y := by
  by_cases h : Leap y <;> simp [daysBeforeMonth, monthLength, yearLength, h]

/-- Later months have more days before them. -/
theorem daysBeforeMonth_mono {k : ℕ} (h : m ≤ k) : daysBeforeMonth y m ≤ daysBeforeMonth y k := by
  induction h with
  | refl => exact le_rfl
  | step _ ih => exact ih.trans (Nat.le_add_right _ _)

/-- Later years have more days before them. -/
theorem daysBeforeYear_mono (h : y ≤ n) : daysBeforeYear y ≤ daysBeforeYear n := by
  induction h with
  | refl => exact le_rfl
  | step _ ih => exact ih.trans (Nat.le_add_right _ _)

/-- The number of leap years up to a year, the year `0` left out. -/
def leaps (y : ℕ) : ℕ := y / 4 - y / 100 + y / 400

theorem leaps_succ (y : ℕ) : leaps (y + 1) = leaps y + if Leap (y + 1) then 1 else 0 := by
  have hle : y / 100 ≤ y / 4 := by omega
  by_cases h : Leap (y + 1)
  · rw [if_pos h]
    simp only [Leap, leaps, Nat.succ_div, Nat.dvd_iff_mod_eq_zero] at h ⊢
    split <;> split <;> split <;> omega
  · rw [if_neg h]
    simp only [Leap, leaps, Nat.succ_div, Nat.dvd_iff_mod_eq_zero] at h ⊢
    split <;> split <;> split <;> omega

theorem yearLength_eq (y : ℕ) : yearLength y = 365 + if Leap y then 1 else 0 := by
  simp only [yearLength]
  split <;> rfl

/-- The days before a year after the first, in closed form. -/
theorem daysBeforeYear_succ (y : ℕ) : daysBeforeYear (y + 1) = 365 * (y + 1) + leaps y + 1 := by
  induction y with
  | zero => rfl
  | succ y ih =>
    rw [daysBeforeYear, ih, leaps_succ, yearLength_eq]
    omega

/-! ### The numbers of the dates -/

namespace Date

/-- A date lies within its year. -/
theorem dayNumber_lt_year (d : Date) : d.dayNumber < daysBeforeYear (d.year + 1) := by
  have hd := d.day_le
  have hp := d.day_pos
  have hm : daysBeforeMonth d.year (d.month + 1) ≤ daysBeforeMonth d.year 13 := daysBeforeMonth_mono (by have := d.month_le; omega)
  rw [daysBeforeMonth_thirteen] at hm
  simp only [dayNumber, daysBeforeYear, daysBeforeMonth] at hm ⊢
  omega

/-- An earlier date has a smaller number. -/
theorem Earlier.dayNumber_lt (h : d.Earlier e) : d.dayNumber < e.dayNumber := by
  have hp := d.day_pos
  rcases h with hyear | ⟨hyear, hm | ⟨hm, hd⟩⟩
  · calc d.dayNumber < daysBeforeYear (d.year + 1) := d.dayNumber_lt_year
      _ ≤ daysBeforeYear e.year := daysBeforeYear_mono hyear
      _ ≤ e.dayNumber := by simp only [dayNumber]; omega
  · have hl := d.day_le
    have hle : daysBeforeMonth e.year (d.month + 1) ≤ daysBeforeMonth e.year e.month := daysBeforeMonth_mono hm
    simp only [dayNumber, daysBeforeMonth, hyear] at hle hl ⊢
    omega
  · simp only [dayNumber, hyear, hm]
    omega

/-- One of two different dates is earlier. -/
theorem earlier_or (d e : Date) : d.Earlier e ∨ d = e ∨ e.Earlier d := by
  simp only [Earlier, Date.ext_iff]
  omega

/-- Different dates have different numbers. -/
theorem dayNumber_inj (h : d.dayNumber = e.dayNumber) : d = e := by
  rcases earlier_or d e with hd | rfl | he
  · exact absurd hd.dayNumber_lt (by omega)
  · rfl
  · exact absurd he.dayNumber_lt (by omega)

end Date

/-! ### Years beginning in March -/

/-- The days from the first of March of the year `0` to the first of March of a year. -/
def marchDays (y : ℕ) : ℕ := 365 * y + leaps y

/-- The last day of a year beginning in March is the leap day of the next. -/
theorem marchDays_succ (y : ℕ) : marchDays (y + 1) = marchDays y + yearLength (y + 1) := by
  rw [marchDays, marchDays, leaps_succ, yearLength_eq]
  omega

/-- The days before a year and up to its first of March. -/
theorem daysBeforeYear_eq (y : ℕ) : daysBeforeYear y + daysBeforeMonth y 3 = marchDays y + 60 := by
  have hm : daysBeforeMonth y 3 + 306 = yearLength y := by
    by_cases h : Leap y <;> simp [daysBeforeMonth, monthLength, yearLength, h]
  have hyear := daysBeforeYear_succ y
  rw [daysBeforeYear] at hyear
  rw [marchDays]
  omega

/-- From March on five months have `153` days, so the months up to the end of the year begin at these days. -/
theorem month_from_march {j : ℕ} (hj : j < 10) (y : ℕ) : daysBeforeMonth y (j + 3) = daysBeforeMonth y 3 + (153 * j + 2) / 5 ∧
      monthLength y (j + 3) = (153 * (j + 1) + 2) / 5 - (153 * j + 2) / 5 := by
  interval_cases j <;> exact ⟨rfl, rfl⟩

/-- The calendar repeats itself after four centuries. -/
theorem leap_add_era (e y : ℕ) : Leap (400 * e + y) ↔ Leap y := by
  simp only [Leap]
  omega

/-- Four centuries have `146097` days. -/
theorem marchDays_add_era (e y : ℕ) : marchDays (400 * e + y) = 146097 * e + marchDays y := by
  simp only [marchDays, leaps]
  omega

/-- Every day lies in a year beginning in March. -/
theorem exists_marchDays (z : ℕ) : ∃ y k, z = marchDays y + k ∧ k < yearLength (y + 1) := by
  induction z with
  | zero => exact ⟨0, 0, rfl, by decide⟩
  | succ z ih =>
    obtain ⟨y, k, hz, hk⟩ := ih
    by_cases hl : k + 1 < yearLength (y + 1)
    · exact ⟨y, k + 1, by omega, hl⟩
    refine ⟨y + 1, 0, ?_, ?_⟩
    · rw [marchDays_succ]
      omega
    · simp only [yearLength]
      split <;> omega

end Pebrel.Library.Calendar
