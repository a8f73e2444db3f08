import GraphqlOrm.Ai.Pricing
import GraphqlOrm.Foundation.Calendar
import GraphqlOrm.Foundation.FixedWidth

/-!
# Budget periods

A budget counts usage by periods: minutes, hours and days of fixed length, or calendar months. The
month is that of the date in the offset of the caller, and its bounds are those of the month in UTC.

## Main result

- `budgetPeriod_partition_iff`: the periods partition time exactly when the date of the caller lies
  in the month of the date in UTC.
-/
namespace GraphqlOrm.Ai

open Outcome Checked Calendar

/-- A date and time in the offset of the caller, to the second. -/
structure OffsetDateTime (months : Months) where
  date : Date months
  second : Nat
  offset : Int
  second_lt : second < 86400

def OffsetDateTime.unixTimestamp {months : Months} (now : OffsetDateTime months) : Int :=
  86400 * now.date.unixDay + now.second - now.offset

structure BudgetPeriod where
  key : String
  startedAt : Int
  endsAt : Int
deriving DecidableEq

/-- `i64::checked_mul` and `i64::checked_add`. -/
def checkedI64 (value : Int) (error : AiError) : Except AiError Int :=
  if InRange value then .ok value else .error error

/-- `i32::checked_add`. -/
def checkedI32 (value : Int) (error : AiError) : Except AiError Int :=
  if -2 ^ 31 ≤ value ∧ value < 2 ^ 31 then .ok value else .error error

def periodOverflow : AiError := .invalidConfiguration "AI budget period overflow"

def fixedPeriod (label : String) (timestamp seconds : Int) : Except AiError BudgetPeriod := do
  let startedAt ← checkedI64 (timestamp / seconds * seconds) periodOverflow
  let endsAt ← checkedI64 (startedAt + seconds) periodOverflow
  return { key := label ++ ":" ++ toString startedAt, startedAt, endsAt }

/-- Midnight of the first day of a month in UTC. Dates have years of at most four digits. -/
def monthStart (months : Months) (year : Int) (month : Month) : Except AiError Int :=
  if -9999 ≤ year ∧ year ≤ 9999 then .ok (86400 * months.firstDay (monthIndex year month))
  else .error (.invalidConfiguration "invalid AI budget month")

def nextMonth {months : Months} (date : Date months) : Except AiError (Int × Month) :=
  if date.month = .december then do
    let year ← checkedI32 (date.year + 1) (.invalidConfiguration "AI budget month overflow")
    return (year, .january)
  else .ok (date.year, date.month.next)

def monthPeriod {months : Months} (now : OffsetDateTime months) : Except AiError BudgetPeriod := do
  let start ← monthStart months now.date.year now.date.month
  let next ← nextMonth now.date
  let finish ← monthStart months next.1 next.2
  return {
    key := "month:" ++ String.ofList (FixedWidth.zeroPadded 4 now.date.year) ++ "-" ++
      String.ofList (FixedWidth.zeroPadded 2 now.date.month.number)
    startedAt := start
    endsAt := finish }

def budgetPeriod {months : Months} (interval : String) (now : OffsetDateTime months) :
    Except AiError BudgetPeriod :=
  if interval = "minute" then fixedPeriod "minute" now.unixTimestamp 60
  else if interval = "hour" then fixedPeriod "hour" now.unixTimestamp 3600
  else if interval = "day" then fixedPeriod "day" now.unixTimestamp 86400
  else if interval = "month" then monthPeriod now
  else if interval = "lifetime" then
    .ok { key := "lifetime", startedAt := 0, endsAt := 2 ^ 63 - 1 }
  else .error (.invalidConfiguration "unknown AI budget interval")

/-! ### One period -/

def BudgetPeriod.Contains (period : BudgetPeriod) (timestamp : Int) : Prop :=
  period.startedAt ≤ timestamp ∧ timestamp < period.endsAt

def BudgetPeriod.SameBounds (a b : BudgetPeriod) : Prop :=
  a.startedAt = b.startedAt ∧ a.endsAt = b.endsAt

variable {months : Months} {now other : OffsetDateTime months} {p q : BudgetPeriod}

theorem checkedI64_eq_ok {value result : Int} {error : AiError}
    (returned : checkedI64 value error = .ok result) : result = value := by
  unfold checkedI64 at returned
  split at returned <;> cases returned
  rfl

theorem fixedPeriod_spec {label : String} {timestamp seconds : Int}
    (returned : fixedPeriod label timestamp seconds = .ok p) :
    p = ⟨label ++ ":" ++ toString (timestamp / seconds * seconds), timestamp / seconds * seconds,
      timestamp / seconds * seconds + seconds⟩ := by
  obtain ⟨start, first, returned⟩ := bind_eq_ok.mp returned
  obtain ⟨finish, second, made⟩ := bind_eq_ok.mp returned
  cases made
  obtain rfl := checkedI64_eq_ok first
  obtain rfl := checkedI64_eq_ok second
  rfl

theorem monthStart_eq_ok {year result : Int} {month : Month}
    (returned : monthStart months year month = .ok result) :
    result = 86400 * months.firstDay (monthIndex year month) := by
  unfold monthStart at returned
  split at returned <;> cases returned
  rfl

theorem nextMonth_index {date : Date months} {next : Int × Month}
    (carried : nextMonth date = .ok next) : monthIndex next.1 next.2 = date.index + 1 := by
  unfold Date.index
  unfold nextMonth at carried
  split at carried
  next last =>
    obtain ⟨year, added, made⟩ := bind_eq_ok.mp carried
    cases made
    unfold checkedI32 at added
    split at added <;> cases added
    rw [last]
    exact monthIndex_december date.year
  next inner =>
    cases carried
    exact monthIndex_next inner

/-- The month of the caller's date, with the carry into the next year. -/
theorem monthPeriod_spec (returned : monthPeriod now = .ok p) :
    p = ⟨"month:" ++ String.ofList (FixedWidth.zeroPadded 4 now.date.year) ++ "-" ++
        String.ofList (FixedWidth.zeroPadded 2 now.date.month.number),
      86400 * months.firstDay now.date.index, 86400 * months.firstDay (now.date.index + 1)⟩ := by
  obtain ⟨start, first, returned⟩ := bind_eq_ok.mp returned
  obtain ⟨next, carried, returned⟩ := bind_eq_ok.mp returned
  obtain ⟨finish, second, made⟩ := bind_eq_ok.mp returned
  cases made
  obtain rfl := monthStart_eq_ok first
  obtain rfl := monthStart_eq_ok second
  rw [nextMonth_index carried]
  rfl

/-! ### Two periods -/

/-- What it means that the periods of two instants belong to one partition of time. -/
structure Partition (now other : OffsetDateTime months) (p q : BudgetPeriod) : Prop where
  contains : p.Contains now.unixTimestamp ∧ q.Contains other.unixTimestamp
  keys : p.key = q.key ↔ p.SameBounds q
  apart : ¬p.SameBounds q → p.endsAt ≤ q.startedAt ∨ q.endsAt ≤ p.startedAt
  adjacent : other.unixTimestamp = p.endsAt → q.startedAt = p.endsAt
  instant : now.unixTimestamp = other.unixTimestamp → p = q

theorem fixedPeriod_partition {label : String} {seconds : Int} (positive : 0 < seconds)
    (first : fixedPeriod label now.unixTimestamp seconds = .ok p)
    (second : fixedPeriod label other.unixTimestamp seconds = .ok q) : Partition now other p q := by
  obtain rfl := fixedPeriod_spec first
  obtain rfl := fixedPeriod_spec second
  have within (timestamp : Int) : timestamp / seconds * seconds ≤ timestamp ∧
      timestamp < timestamp / seconds * seconds + seconds := by
    have split := Int.mul_ediv_add_emod timestamp seconds
    have low := Int.emod_nonneg timestamp positive.ne'
    have high := Int.emod_lt_of_pos timestamp positive
    rw [Int.mul_comm] at split
    omega
  -- Starts are multiples of the length, so different starts are at least one length apart.
  have steps {a b : Int} (below : a < b) : a * seconds + seconds ≤ b * seconds := by
    have scaled := Int.mul_le_mul_of_nonneg_right (Int.add_one_le_of_lt below) positive.le
    rw [Int.add_mul, Int.one_mul] at scaled
    exact scaled
  refine ⟨⟨within _, within _⟩, ?_, ?_, ?_, ?_⟩
  · constructor
    · intro same
      have starts : toString (now.unixTimestamp / seconds * seconds) =
          toString (other.unixTimestamp / seconds * seconds) := (String.append_right_inj _).mp same
      have equal := FixedWidth.toString_injective starts
      exact ⟨equal, congrArg (· + seconds) equal⟩
    · rintro ⟨equal, _⟩
      dsimp only at equal ⊢
      rw [equal]
  · intro different
    rcases Int.lt_trichotomy (now.unixTimestamp / seconds) (other.unixTimestamp / seconds) with
      before | same | after
    · exact .inl (steps before)
    · exact absurd ⟨by rw [same], by rw [same]⟩ different
    · exact .inr (steps after)
  · intro border
    dsimp only at border ⊢
    have multiple : other.unixTimestamp = (now.unixTimestamp / seconds + 1) * seconds := by
      rw [border, Int.add_mul, Int.one_mul]
    rw [← border, multiple, Int.mul_ediv_cancel _ positive.ne']
  · intro same
    rw [same]

theorem monthKey_inj {a b : Date months} :
    "month:" ++ String.ofList (FixedWidth.zeroPadded 4 a.year) ++ "-" ++
          String.ofList (FixedWidth.zeroPadded 2 a.month.number) =
        "month:" ++ String.ofList (FixedWidth.zeroPadded 4 b.year) ++ "-" ++
          String.ofList (FixedWidth.zeroPadded 2 b.month.number) ↔ a.index = b.index := by
  have width (month : Month) : (FixedWidth.zeroPadded 2 month.number).length = 2 := by
    cases month <;> rfl
  unfold Date.index
  rw [monthIndex_inj]
  constructor
  · intro same
    have texts := congrArg String.toList same
    simp only [String.toList_append, String.toList_ofList, List.append_assoc] at texts
    have tails := List.append_cancel_left texts
    obtain ⟨years, names⟩ := List.append_inj' tails (by
      rw [List.length_append, List.length_append, width, width])
    have numbers := FixedWidth.zeroPadded_injective (List.append_cancel_left names)
    exact ⟨FixedWidth.zeroPadded_injective years,
      Month.number_injective (Int.natCast_inj.mp numbers)⟩
  · rintro ⟨years, names⟩
    rw [years, names]

/-- The date of the instant in UTC lies in the month of the caller's date. -/
def OffsetDateTime.InUtcMonth (now : OffsetDateTime months) : Prop :=
  ∃ utc : Date months, utc.unixDay = now.unixTimestamp / 86400 ∧
    utc.year = now.date.year ∧ utc.month = now.date.month

/-- Without an offset the two dates are the same. -/
theorem inUtcMonth_of_utc (utc : now.offset = 0) : now.InUtcMonth := by
  have short := now.second_lt
  refine ⟨now.date, ?_, rfl, rfl⟩
  unfold OffsetDateTime.unixTimestamp
  omega

/-- An instant is in the month of the caller's date, read in UTC, exactly when its UTC date is. -/
theorem within_month_iff (now : OffsetDateTime months) :
    86400 * months.firstDay now.date.index ≤ now.unixTimestamp ∧
      now.unixTimestamp < 86400 * months.firstDay (now.date.index + 1) ↔ now.InUtcMonth := by
  constructor
  · rintro ⟨start, finish⟩
    have first : months.firstDay now.date.index ≤ now.unixTimestamp / 86400 := by omega
    have last : now.unixTimestamp / 86400 < months.firstDay (now.date.index + 1) := by omega
    refine ⟨⟨now.date.year, now.date.month,
      (now.unixTimestamp / 86400 - months.firstDay now.date.index).toNat + 1, by omega, ?_⟩,
      ?_, rfl, rfl⟩
    · change months.firstDay now.date.index + _ ≤ months.firstDay (now.date.index + 1)
      omega
    · change months.firstDay now.date.index +
        (((now.unixTimestamp / 86400 - months.firstDay now.date.index).toNat + 1 : Nat) - 1) = _
      omega
  · rintro ⟨utc, day, years, names⟩
    have index : utc.index = now.date.index := monthIndex_inj.mpr ⟨years, names⟩
    have first := utc.firstDay_le
    have last := utc.lt_firstDay
    rw [index] at first last
    omega

theorem monthPeriod_partition (first : monthPeriod now = .ok p) (second : monthPeriod other = .ok q) :
    Partition now other p q ↔ now.InUtcMonth ∧ other.InUtcMonth := by
  obtain rfl := monthPeriod_spec first
  obtain rfl := monthPeriod_spec second
  have bounds : months.firstDay now.date.index = months.firstDay other.date.index ↔
      now.date.index = other.date.index := months.firstDay_inj
  constructor
  · intro partition
    exact ⟨(within_month_iff now).mp partition.contains.1,
      (within_month_iff other).mp partition.contains.2⟩
  · rintro ⟨left, right⟩
    have here := (within_month_iff now).mpr left
    have there := (within_month_iff other).mpr right
    refine ⟨⟨here, there⟩, ?_, ?_, ?_, ?_⟩
    · rw [monthKey_inj]
      constructor
      · intro same
        exact ⟨by dsimp only; rw [same], by dsimp only; rw [same]⟩
      · rintro ⟨starts, _⟩
        dsimp only at starts
        exact bounds.mp (by omega)
    · intro different
      have indices : now.date.index ≠ other.date.index := fun same =>
        different ⟨by dsimp only; rw [same], by dsimp only; rw [same]⟩
      rcases months.apart indices with before | after
      · exact .inl (by dsimp only; omega)
      · exact .inr (by dsimp only; omega)
    · -- The first second of the next month is in that month only.
      intro border
      dsimp only at border ⊢
      obtain ⟨low, high⟩ := there
      have next := months.index_eq_of_within
        (Int.le_refl (months.firstDay (now.date.index + 1))) (months.increasing _)
        (j := other.date.index) (by omega) (by omega)
      rw [← next]
    · intro same
      obtain ⟨low, high⟩ := here
      obtain ⟨low', high'⟩ := there
      have index : now.date.index = other.date.index :=
        @Calendar.Months.index_eq_of_within months _ _ (now.unixTimestamp / 86400)
          (by omega) (by omega) (by omega) (by omega)
      rw [monthKey_inj.mpr index, index]

/-- Periods of recurring intervals partition time, whatever the two instants and their offsets,
exactly when for months the caller's date is in the month of the date in UTC. -/
theorem budgetPeriod_partition_iff {interval : String}
    (recurring : interval ∈ ["minute", "hour", "day", "month"])
    (first : budgetPeriod interval now = .ok p) (second : budgetPeriod interval other = .ok q) :
    Partition now other p q ↔ (interval = "month" → now.InUtcMonth ∧ other.InUtcMonth) := by
  have fixed {label : String} {seconds : Int} (positive : 0 < seconds) (inner : label ≠ "month")
      (left : fixedPeriod label now.unixTimestamp seconds = .ok p)
      (right : fixedPeriod label other.unixTimestamp seconds = .ok q) :
      Partition now other p q ↔ (label = "month" → now.InUtcMonth ∧ other.InUtcMonth) :=
    iff_of_true (fixedPeriod_partition positive left right) fun same => absurd same inner
  simp only [List.mem_cons, List.not_mem_nil, or_false] at recurring
  rcases recurring with rfl | rfl | rfl | rfl
  · exact fixed (by decide) (by decide) first second
  · exact fixed (by decide) (by decide) first second
  · exact fixed (by decide) (by decide) first second
  · rw [monthPeriod_partition first second]
    exact ⟨fun both _ => both, fun both => both rfl⟩

/-- The last evening of January two hours west of UTC, where it is February 1 at half past one. -/
def lateJanuary : OffsetDateTime gregorian where
  date := ⟨2026, .january, 31, by decide, by decide⟩
  second := 84600
  offset := -7200
  second_lt := by decide

def earlyFebruary : OffsetDateTime gregorian where
  date := ⟨2026, .february, 1, by decide, by decide⟩
  second := 5400
  offset := 0
  second_lt := by decide

/-- One instant has two periods, and the first does not contain it. -/
theorem lateJanuary_outside : lateJanuary.unixTimestamp = earlyFebruary.unixTimestamp ∧
    budgetPeriod "month" lateJanuary = .ok ⟨"month:2026-01", 1767225600, 1769904000⟩ ∧
    budgetPeriod "month" earlyFebruary = .ok ⟨"month:2026-02", 1769904000, 1772323200⟩ ∧
    ¬BudgetPeriod.Contains ⟨"month:2026-01", 1767225600, 1769904000⟩ lateJanuary.unixTimestamp := by
  refine ⟨by decide, by decide, by decide, fun inside => ?_⟩
  exact absurd inside.2 (by decide)

/-- Half past one on March 1 an hour east of UTC, half an hour into the month there too. -/
def earlyMarch : OffsetDateTime gregorian where
  date := ⟨2026, .march, 1, by decide, by decide⟩
  second := 5400
  offset := 3600
  second_lt := by decide

/-- Two instants in adjacent months. -/
theorem earlyFebruary_partition : Partition earlyFebruary earlyMarch
    ⟨"month:2026-02", 1769904000, 1772323200⟩ ⟨"month:2026-03", 1772323200, 1775001600⟩ := by
  apply (budgetPeriod_partition_iff (show "month" ∈ _ by decide) (by decide) (by decide)).mpr
  exact fun _ => ⟨inUtcMonth_of_utc rfl, earlyMarch.date, by decide, rfl, rfl⟩

end GraphqlOrm.Ai
