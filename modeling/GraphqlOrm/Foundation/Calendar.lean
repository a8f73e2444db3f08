import Mathlib

/-!
# Calendars of months

Months follow one another without gaps; a calendar says with which day each of them begins. Days are
counted from the unix epoch and months from January of the year zero.

## Main results

- `Months.index_eq_of_within`: a day lies in one month only.
- `gregorian`: the Gregorian calendar is one; none of its months is empty.
-/
namespace Calendar

inductive Month where
  | january | february | march | april | may | june
  | july | august | september | october | november | december
deriving DecidableEq

def Month.number : Month → Nat
  | january => 1 | february => 2 | march => 3 | april => 4 | may => 5 | june => 6
  | july => 7 | august => 8 | september => 9 | october => 10 | november => 11 | december => 12

def Month.next : Month → Month
  | january => february | february => march | march => april | april => may | may => june
  | june => july | july => august | august => september | september => october
  | october => november | november => december | december => january

theorem Month.number_bounds (month : Month) : 1 ≤ month.number ∧ month.number ≤ 12 := by
  cases month <;> decide

theorem Month.number_injective {a b : Month} (same : a.number = b.number) : a = b := by
  cases a <;> cases b <;> first | rfl | cases same

theorem Month.number_next {month : Month} (inner : month ≠ .december) :
    month.next.number = month.number + 1 := by
  cases month <;> first | rfl | exact absurd rfl inner

def monthIndex (year : Int) (month : Month) : Int := 12 * year + (month.number - 1)

theorem monthIndex_inj {year year' : Int} {month month' : Month} :
    monthIndex year month = monthIndex year' month' ↔ year = year' ∧ month = month' := by
  constructor
  · intro same
    have bounds := month.number_bounds
    have bounds' := month'.number_bounds
    unfold monthIndex at same
    exact ⟨by omega, Month.number_injective (by omega)⟩
  · rintro ⟨rfl, rfl⟩
    rfl

theorem monthIndex_next {year : Int} {month : Month} (inner : month ≠ .december) :
    monthIndex year month.next = monthIndex year month + 1 := by
  unfold monthIndex
  rw [Month.number_next inner]
  omega

theorem monthIndex_december (year : Int) :
    monthIndex (year + 1) .january = monthIndex year .december + 1 := by
  have first : Month.january.number = 1 := rfl
  have last : Month.december.number = 12 := rfl
  unfold monthIndex
  rw [first, last]
  omega

/-- The first day of every month. No month is empty. -/
structure Months where
  firstDay : Int → Int
  increasing : ∀ index, firstDay index < firstDay (index + 1)

namespace Months

variable (months : Months)

theorem strictMono : StrictMono months.firstDay := strictMono_int_of_lt_succ months.increasing

theorem firstDay_inj {i j : Int} : months.firstDay i = months.firstDay j ↔ i = j :=
  months.strictMono.injective.eq_iff

/-- Two months that share a day are the same. -/
theorem index_eq_of_within {i j day : Int} (first : months.firstDay i ≤ day)
    (last : day < months.firstDay (i + 1)) (first' : months.firstDay j ≤ day)
    (last' : day < months.firstDay (j + 1)) : i = j := by
  have below : i < j + 1 := months.strictMono.lt_iff_lt.mp (Int.lt_of_le_of_lt first last')
  have above : j < i + 1 := months.strictMono.lt_iff_lt.mp (Int.lt_of_le_of_lt first' last)
  omega

/-- Different months do not overlap. -/
theorem apart {i j : Int} (different : i ≠ j) :
    months.firstDay (i + 1) ≤ months.firstDay j ∨ months.firstDay (j + 1) ≤ months.firstDay i := by
  rcases Int.lt_or_gt_of_ne different with before | after
  · exact .inl (months.strictMono.monotone before)
  · exact .inr (months.strictMono.monotone after)

end Months

/-- A day of a month. -/
structure Date (months : Months) where
  year : Int
  month : Month
  day : Nat
  first : 1 ≤ day
  last : months.firstDay (monthIndex year month) + day ≤
    months.firstDay (monthIndex year month + 1)

namespace Date

variable {months : Months}

def index (date : Date months) : Int := monthIndex date.year date.month

def unixDay (date : Date months) : Int := months.firstDay date.index + (date.day - 1)

theorem firstDay_le (date : Date months) : months.firstDay date.index ≤ date.unixDay := by
  have first := date.first
  unfold unixDay
  omega

theorem lt_firstDay (date : Date months) : date.unixDay < months.firstDay (date.index + 1) := by
  have last := date.last
  unfold unixDay index
  omega

end Date

/-! ### The Gregorian calendar -/

def daysBeforeYear (year : Int) : Int :=
  365 * year + (year + 3) / 4 - (year + 99) / 100 + (year + 399) / 400

def leap (year : Int) : Bool := year % 4 = 0 && (year % 100 ≠ 0 || year % 400 = 0)

def daysBeforeMonth (leapYear : Bool) (month : Int) : Int :=
  (if month ≤ 0 then 0 else if month = 1 then 31 else if month = 2 then 59 else if month = 3 then 90
    else if month = 4 then 120 else if month = 5 then 151 else if month = 6 then 181
    else if month = 7 then 212 else if month = 8 then 243 else if month = 9 then 273
    else if month = 10 then 304 else 334) +
  if leapYear = true ∧ 2 ≤ month then 1 else 0

theorem daysBeforeYear_succ (year : Int) : daysBeforeYear (year + 1) =
    daysBeforeYear year + if leap year = true then 366 else 365 := by
  unfold daysBeforeYear leap
  simp only [Bool.and_eq_true, Bool.or_eq_true, decide_eq_true_eq]
  split <;> omega

/-- Within a year every month has some days, and at most 31. -/
theorem daysBeforeMonth_succ (leapYear : Bool) {month : Int} (inside : 0 ≤ month ∧ month < 11) :
    daysBeforeMonth leapYear month < daysBeforeMonth leapYear (month + 1) ∧
      daysBeforeMonth leapYear (month + 1) ≤ daysBeforeMonth leapYear month + 31 := by
  obtain ⟨low, high⟩ := inside
  cases leapYear
  · interval_cases month <;> decide
  · interval_cases month <;> decide

/-- December has 31 days. -/
theorem daysBeforeMonth_last (leapYear : Bool) :
    daysBeforeMonth leapYear 11 + 31 = if leapYear = true then 366 else 365 := by
  cases leapYear <;> decide

theorem daysBeforeMonth_first (leapYear : Bool) : daysBeforeMonth leapYear 0 = 0 := by
  cases leapYear <;> decide

def firstDayOf (index : Int) : Int :=
  daysBeforeYear (index / 12) + daysBeforeMonth (leap (index / 12)) (index % 12) - 719528

/-- The length of a month. -/
theorem firstDayOf_succ (index : Int) :
    firstDayOf index < firstDayOf (index + 1) ∧ firstDayOf (index + 1) ≤ firstDayOf index + 31 := by
  unfold firstDayOf
  rcases (by omega : index % 12 < 11 ∨ index % 12 = 11) with inner | last
  · have year : (index + 1) / 12 = index / 12 := by omega
    have month : (index + 1) % 12 = index % 12 + 1 := by omega
    have length := daysBeforeMonth_succ (leap (index / 12)) ⟨by omega, inner⟩
    rw [year, month]
    omega
  · have year : (index + 1) / 12 = index / 12 + 1 := by omega
    have month : (index + 1) % 12 = 0 := by omega
    have december := daysBeforeMonth_last (leap (index / 12))
    rw [year, month, last, daysBeforeYear_succ, daysBeforeMonth_first]
    omega

def gregorian : Months where
  -- January 1, 1970 is day 719528 of the year zero.
  firstDay index :=
    daysBeforeYear (index / 12) + daysBeforeMonth (leap (index / 12)) (index % 12) - 719528
  increasing index := (firstDayOf_succ index).1

example : gregorian.firstDay (monthIndex 1970 .january) = 0 ∧
    gregorian.firstDay (monthIndex 2000 .march) = 11017 := by decide

end Calendar
