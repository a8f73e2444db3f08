import Mathlib.Data.Option.Basic
import Mathlib.Tactic.Linarith

/-!
# Checked fixed-width arithmetic

The overflow-aware operations of the integer types, over the core `Int64`,
`UInt64` and `UInt32`. Each operation has one specification in terms of the
mathematical value; later proofs cite that specification and never unfold the
machine representation.
-/
namespace Checked

def InRange (n : Int) : Prop := -2 ^ 63 ≤ n ∧ n < 2 ^ 63

instance (n : Int) : Decidable (InRange n) := inferInstanceAs (Decidable (_ ∧ _))

theorem toInt_inRange (x : Int64) : InRange x.toInt := ⟨x.le_toInt, x.toInt_lt⟩

/-- Narrow a mathematical integer, failing outside the signed 64-bit range. -/
def narrow (n : Int) : Option Int64 := if InRange n then some (Int64.ofInt n) else none

theorem narrow_eq_some {n : Int} {z : Int64} : narrow n = some z ↔ z.toInt = n := by
  unfold narrow
  constructor
  · intro returned
    split at returned
    next fits =>
      cases returned
      exact Int64.toInt_ofInt_of_le fits.1 fits.2
    · cases returned
  · intro value
    subst n
    rw [if_pos (toInt_inRange z), Int64.ofInt_toInt]

theorem narrow_eq_none {n : Int} : narrow n = none ↔ ¬InRange n := by
  unfold narrow
  split <;> simp_all

theorem exists_narrow {n : Int} (fits : InRange n) : ∃ z, narrow n = some z ∧ z.toInt = n :=
  ⟨Int64.ofInt n, if_pos fits, Int64.toInt_ofInt_of_le fits.1 fits.2⟩

/-- `i64::checked_add`. -/
def add (x y : Int64) : Option Int64 := narrow (x.toInt + y.toInt)

/-- `i64::checked_mul`. -/
def mul (x y : Int64) : Option Int64 := narrow (x.toInt * y.toInt)

@[simp] theorem add_eq_some {x y z : Int64} :
    add x y = some z ↔ z.toInt = x.toInt + y.toInt := narrow_eq_some

@[simp] theorem mul_eq_some {x y z : Int64} :
    mul x y = some z ↔ z.toInt = x.toInt * y.toInt := narrow_eq_some

theorem exists_add {x y : Int64} (fits : InRange (x.toInt + y.toInt)) :
    ∃ z, add x y = some z ∧ z.toInt = x.toInt + y.toInt := exists_narrow fits

theorem toInt_min (x y : Int64) : (min x y).toInt = min x.toInt y.toInt := by
  rw [show min x y = if x ≤ y then x else y from rfl]
  split
  next below => exact (min_eq_left (Int64.le_iff_toInt_le.mp below)).symm
  next above =>
    rw [Int64.le_iff_toInt_le, not_le] at above
    exact (min_eq_right above.le).symm

theorem toInt_max (x y : Int64) : (max x y).toInt = max x.toInt y.toInt := by
  rw [show max x y = if x ≤ y then y else x from rfl]
  split
  next below => exact (max_eq_right (Int64.le_iff_toInt_le.mp below)).symm
  next above =>
    rw [Int64.le_iff_toInt_le, not_le] at above
    exact (max_eq_left above.le).symm

/-- `i64::saturating_mul`. -/
def saturatingMul (x y : Int64) : Int64 :=
  (mul x y).getD (if x.toInt * y.toInt < 0 then Int64.minValue else Int64.maxValue)

/-- Saturation on nonnegative factors is truncation at the largest value. -/
theorem toInt_saturatingMul {x y : Int64} (left : 0 ≤ x.toInt) (right : 0 ≤ y.toInt) :
    (saturatingMul x y).toInt = min (x.toInt * y.toInt) (2 ^ 63 - 1) := by
  have nonneg : 0 ≤ x.toInt * y.toInt := Int.mul_nonneg left right
  unfold saturatingMul
  cases product : mul x y with
  | some z =>
    have value := mul_eq_some.mp product
    have bound := z.toInt_lt
    simp only [Option.getD_some]
    omega
  | none =>
    have overflow : ¬InRange (x.toInt * y.toInt) := narrow_eq_none.mp product
    simp only [Option.getD_none, if_neg (Int.not_lt.mpr nonneg), Int64.toInt_maxValue]
    unfold InRange at overflow
    omega

/-- `1_i64.checked_shl(n)`: fails at the width, and otherwise shifts bits out silently. -/
def shiftOne (n : UInt32) : Option Int64 :=
  if n.toNat < 64 then some (Int64.ofNat (2 ^ n.toNat)) else none

theorem shiftOne_eq {n : UInt32} (small : n.toNat < 63) :
    ∃ z, shiftOne n = some z ∧ z.toInt = 2 ^ n.toNat := by
  have bound : (2 : Nat) ^ n.toNat < 2 ^ 63 := Nat.pow_lt_pow_right (by decide) small
  refine ⟨_, if_pos (by omega), ?_⟩
  rw [Int64.toInt_ofNat_of_lt bound]
  norm_cast

/-- `u64::checked_add(1)`. -/
def succ (x : UInt64) : Option UInt64 :=
  if x.toNat + 1 < 2 ^ 64 then some (x + 1) else none

@[simp] theorem succ_eq_some {x y : UInt64} : succ x = some y ↔ y.toNat = x.toNat + 1 := by
  unfold succ
  constructor
  · intro returned
    split at returned
    next fits =>
      cases returned
      rw [UInt64.toNat_add]
      exact Nat.mod_eq_of_lt fits
    · cases returned
  · intro value
    have bound := y.toNat_lt
    rw [if_pos (by omega)]
    congr 1
    apply UInt64.toNat.inj
    rw [UInt64.toNat_add, value]
    exact Nat.mod_eq_of_lt (by simpa using (by omega : x.toNat + 1 < 2 ^ 64))

/-- `u64::checked_add`. -/
def addU64 (x y : Nat) : Option Nat := if x + y < 2 ^ 64 then some (x + y) else none

/-- `u64::checked_mul`. -/
def mulU64 (x y : Nat) : Option Nat := if x * y < 2 ^ 64 then some (x * y) else none

theorem addU64_eq_some {x y z : Nat} : addU64 x y = some z ↔ x + y < 2 ^ 64 ∧ z = x + y := by
  rw [addU64, Option.ite_none_right_eq_some, Option.some_inj, eq_comm]

theorem mulU64_eq_some {x y z : Nat} : mulU64 x y = some z ↔ x * y < 2 ^ 64 ∧ z = x * y := by
  rw [mulU64, Option.ite_none_right_eq_some, Option.some_inj, eq_comm]

/-- `u32::saturating_add(1)`. -/
def saturatingSucc (x : UInt32) : UInt32 := if x.toNat + 1 < 2 ^ 32 then x + 1 else x

theorem toNat_saturatingSucc (x : UInt32) :
    (saturatingSucc x).toNat = min (x.toNat + 1) (2 ^ 32 - 1) := by
  have bound := x.toNat_lt
  unfold saturatingSucc
  split
  next fits =>
    rw [UInt32.toNat_add, Nat.mod_eq_of_lt (by simpa using fits)]
    simp only [UInt32.toNat_one]
    omega
  next overflow => omega

end Checked
