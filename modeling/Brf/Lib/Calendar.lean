import Mathlib.Order.Basic
import Mathlib.Tactic.IntervalCases

/-!
# The Gregorian calendar

Dates of the proleptic Gregorian calendar from the year 0 on, and the number of days before each of
them, counted year by year and month by month.

* `dayNumber` is the number of a date; `Date.Valid` says that it exists.
* `marchDay` is the closed form for the first of March, from which shifted-month algorithms count:
  behind it every month but the last has a fixed place.

Results: `exists_date` (every number is a date's), `dayNumber_lt` (dates are numbered in their order),
and `dayNumber_eq_march`.
-/

namespace Brf.Lib

/-- Every fourth year, but of the centuries only every fourth. -/
def IsLeap (year : Nat) : Prop := year % 4 = 0 ∧ year % 100 ≠ 0 ∨ year % 400 = 0

instance (year : Nat) : Decidable (IsLeap year) := inferInstanceAs (Decidable (_ ∨ _))

/-- The number of days of a year. -/
def yearLength (year : Nat) : Nat := if IsLeap year then 366 else 365

/-- The number of days of a month; there is no month 0 and none after 12. -/
def monthLength (year : Nat) : Nat → Nat
  | 1 | 3 | 5 | 7 | 8 | 10 | 12 => 31
  | 4 | 6 | 9 | 11 => 30
  | 2 => if IsLeap year then 29 else 28
  | _ => 0

/-- The days before a year. -/
def daysBeforeYear : Nat → Nat
  | 0 => 0
  | year + 1 => daysBeforeYear year + yearLength year

/-- The days of a year before a month. -/
def daysBeforeMonth (year : Nat) : Nat → Nat
  | 0 => 0
  | month + 1 => daysBeforeMonth year month + monthLength year month

/-- A date. -/
@[ext] structure Date where
  year : Nat
  month : Nat
  day : Nat
  deriving DecidableEq, Repr

/-- The date exists. -/
structure Date.Valid (d : Date) : Prop where
  month_pos : 1 ≤ d.month
  month_le : d.month ≤ 12
  day_pos : 1 ≤ d.day
  day_le : d.day ≤ monthLength d.year d.month

/-- The days before a date. -/
def dayNumber (d : Date) : Nat :=
  daysBeforeYear d.year + daysBeforeMonth d.year d.month + (d.day - 1)

/-- The days before the first of March of a year. -/
def marchDay (year : Int) : Int := 365 * year + year / 4 - year / 100 + year / 400 + 60

/-! ## Years and months -/

/-- The months of a year make up the year. -/
theorem daysBeforeMonth_thirteen (year : Nat) : daysBeforeMonth year 13 = yearLength year := by
  by_cases leap : IsLeap year <;> simp [daysBeforeMonth, monthLength, yearLength, leap]

/-- The closed form of the years before. -/
theorem daysBeforeYear_add_sixty : ∀ year : Nat,
    (daysBeforeYear year : Int) + (if IsLeap year then 60 else 59) = marchDay year
  | 0 => by decide
  | year + 1 => by
    have ih := daysBeforeYear_add_sixty year
    unfold marchDay at ih ⊢
    rw [daysBeforeYear, yearLength]
    by_cases here : IsLeap year <;> by_cases next : IsLeap (year + 1) <;>
      simp only [here, next, if_true, if_false] at ih ⊢ <;> unfold IsLeap at here next <;>
        push_cast <;> omega

/-- A year starts 306 days behind its last March. -/
theorem daysBeforeYear_eq_march (year : Nat) :
    (daysBeforeYear year : Int) = marchDay (year - 1) + 306 := by
  have here := daysBeforeYear_add_sixty year
  unfold marchDay at here ⊢
  by_cases leap : IsLeap year <;> simp only [leap, if_true, if_false] at here <;>
    unfold IsLeap at leap <;> omega

/-- The place of a month behind the first of March. -/
def monthShift (month : Nat) : Nat := if 2 < month then month - 3 else month + 9

/-- From March on the months have fixed places, wherever the year ends. -/
theorem daysBeforeMonth_eq_shift {year month : Nat} (pos : 1 ≤ month) (le : month ≤ 12) :
    daysBeforeMonth year month + (if month ≤ 2 then 306 else 0) =
      (153 * monthShift month + 2) / 5 +
        (if month ≤ 2 then 0 else if IsLeap year then 60 else 59) := by
  by_cases leap : IsLeap year <;> interval_cases month <;>
    simp [daysBeforeMonth, monthLength, monthShift, leap]

/-- **The number of a date**, counted from the March before it. -/
theorem dayNumber_eq_march {d : Date} (valid : d.Valid) :
    (dayNumber d : Int) = marchDay (d.year - (if d.month ≤ 2 then 1 else 0)) +
      ((153 * monthShift d.month + 2) / 5 : Nat) + d.day - 1 := by
  have month := @daysBeforeMonth_eq_shift d.year d.month valid.month_pos valid.month_le
  have day_pos := valid.day_pos
  unfold dayNumber
  by_cases early : d.month ≤ 2
  · have year := daysBeforeYear_eq_march d.year
    simp only [early, if_true] at month ⊢
    omega
  · have year := daysBeforeYear_add_sixty d.year
    simp only [early, if_false, Int.sub_zero] at month ⊢
    by_cases leap : IsLeap d.year <;> simp only [leap, if_true, if_false] at month year <;> omega

/-! ## All dates -/

/-- A number between the ends of a staircase stands on one of its steps. -/
theorem exists_step {f : Nat → Nat} {n : Nat} (lo : f 0 ≤ n) :
    ∀ {k : Nat}, n < f k → ∃ i < k, f i ≤ n ∧ n < f (i + 1)
  | 0, hi => by omega
  | k + 1, hi => by
    by_cases before : n < f k
    · obtain ⟨i, less, on⟩ := exists_step lo before
      exact ⟨i, by omega, on⟩
    · exact ⟨k, by omega, by omega, hi⟩

theorem le_daysBeforeYear : ∀ year : Nat, year ≤ daysBeforeYear year
  | 0 => Nat.le_refl 0
  | year + 1 => by
    have ih := le_daysBeforeYear year
    rw [daysBeforeYear, yearLength]
    split <;> omega

/-- **Every number** is that of a date. -/
theorem exists_date (n : Nat) : ∃ d : Date, d.Valid ∧ dayNumber d = n := by
  have far : n < daysBeforeYear (n + 1) := by
    have le := le_daysBeforeYear (n + 1)
    omega
  obtain ⟨year, -, from_year, to_year⟩ := exists_step (Nat.zero_le n) far
  have rest : n - daysBeforeYear year < daysBeforeMonth year 13 := by
    rw [daysBeforeYear] at to_year
    rw [daysBeforeMonth_thirteen]
    omega
  obtain ⟨month, month_lt, from_month, to_month⟩ := exists_step (Nat.zero_le _) rest
  have some : 1 ≤ month := by
    by_contra none
    obtain rfl : month = 0 := by omega
    simp [daysBeforeMonth, monthLength] at to_month
  rw [daysBeforeMonth] at to_month
  have valid : Date.Valid ⟨year, month, n - daysBeforeYear year - daysBeforeMonth year month + 1⟩ := by
    constructor <;> dsimp only <;> omega
  refine ⟨_, valid, ?_⟩
  simp only [dayNumber]
  omega

/-! ## The order of dates -/

/-- `d` is before `e`. -/
def Date.Before (d e : Date) : Prop :=
  d.year < e.year ∨ d.year = e.year ∧ (d.month < e.month ∨ d.month = e.month ∧ d.day < e.day)

theorem daysBeforeYear_le : ∀ {y z : Nat}, y ≤ z → daysBeforeYear y ≤ daysBeforeYear z
  | y, 0, h => by rw [Nat.le_zero.mp h]
  | y, z + 1, h => by
    by_cases same : y = z + 1
    · rw [same]
    · have ih := daysBeforeYear_le (by omega : y ≤ z)
      rw [daysBeforeYear]
      omega

theorem daysBeforeMonth_le {year : Nat} :
    ∀ {m n : Nat}, m ≤ n → daysBeforeMonth year m ≤ daysBeforeMonth year n
  | m, 0, h => by rw [Nat.le_zero.mp h]
  | m, n + 1, h => by
    by_cases same : m = n + 1
    · rw [same]
    · have ih := @daysBeforeMonth_le year m n (by omega)
      rw [daysBeforeMonth]
      omega

/-- A date ends before the next month starts. -/
theorem Date.Valid.lt_month {d : Date} (valid : d.Valid) :
    daysBeforeMonth d.year d.month + (d.day - 1) < daysBeforeMonth d.year (d.month + 1) := by
  have pos := valid.day_pos
  have le := valid.day_le
  rw [daysBeforeMonth]
  omega

/-- A date ends before the next year starts. -/
theorem Date.Valid.lt_year {d : Date} (valid : d.Valid) :
    dayNumber d < daysBeforeYear (d.year + 1) := by
  have month := valid.lt_month
  have months := @daysBeforeMonth_le d.year (d.month + 1) 13 (by
    have := valid.month_le
    omega)
  rw [daysBeforeMonth_thirteen] at months
  rw [dayNumber, daysBeforeYear]
  omega

/-- **Dates** are numbered in their order. -/
theorem dayNumber_lt {d e : Date} (hd : d.Valid) (h : d.Before e) :
    dayNumber d < dayNumber e := by
  unfold dayNumber
  rcases h with year | ⟨year, month | ⟨month, day⟩⟩
  · have before := hd.lt_year
    have years := daysBeforeYear_le (by omega : d.year + 1 ≤ e.year)
    unfold dayNumber at before
    omega
  · have before := hd.lt_month
    have months := @daysBeforeMonth_le e.year (d.month + 1) e.month (by omega)
    rw [year] at before ⊢
    omega
  · have first := hd.day_pos
    rw [year, month]
    omega

end Brf.Lib
