import GraphqlOrm.Decimals.Definition

/-!
# A plain decimal type

A sign, a mantissa and a scale within the limits. The operations that the code calls behave
as documented, so the assumptions about the decimal type can be met.

## Main result

`plain_exact`: the plain decimals are exact.
-/
namespace GraphqlOrm.Decimals

open DecimalText

structure PlainDecimal where
  negative : Bool
  mantissa : Int
  scale : Nat
  small : mantissa.natAbs < mantissaLimit
  short : scale ≤ maxScale
  sign : mantissa ≠ 0 → (negative = true ↔ mantissa < 0)
deriving DecidableEq

namespace PlainDecimal

def ofParts (negative : Bool) (mantissa : Int) (scale : Nat) : PlainDecimal :=
  if inside : mantissa.natAbs < mantissaLimit ∧ scale ≤ maxScale ∧
      (mantissa ≠ 0 → (negative = true ↔ mantissa < 0)) then
    ⟨negative, mantissa, scale, inside.1, inside.2.1, inside.2.2⟩
  else ⟨false, 0, 0, by decide, by decide, by decide⟩

theorem ofParts_inside {negative : Bool} {mantissa : Int} {scale : Nat}
    (small : mantissa.natAbs < mantissaLimit) (short : scale ≤ maxScale)
    (sign : mantissa ≠ 0 → (negative = true ↔ mantissa < 0)) :
    ofParts negative mantissa scale = ⟨negative, mantissa, scale, small, short, sign⟩ :=
  dif_pos ⟨small, short, sign⟩

def ofSpelling (s : Spelling) : Option PlainDecimal :=
  if s.mantissa < mantissaLimit ∧ s.scale ≤ maxScale then
    some (ofParts s.negative s.signed s.scale)
  else none

end PlainDecimal

open PlainDecimal in
def plain : DecimalLibrary PlainDecimal where
  fromStrExact text := (read text.toList).bind ofSpelling
  fromI128WithScale m scale := ofParts (m < 0) m scale
  mantissa := PlainDecimal.mantissa
  scale := PlainDecimal.scale
  rescale d target :=
    ofParts d.negative (rescaled d.mantissa d.scale target).1 (rescaled d.mantissa d.scale target).2
  isSignNegative := PlainDecimal.negative
  setSignPositive d := ofParts false d.mantissa.natAbs d.scale
  isZero d := d.mantissa == 0
  eq a b := a.mantissa * 10 ^ b.scale == b.mantissa * 10 ^ a.scale
  toString d := String.ofList (spelled d.negative d.mantissa.natAbs d.scale).chars

/-! ### Changes of scale -/

theorem raise_inside {k : Nat} {m : Int} {scale : Nat} (small : m.natAbs < mantissaLimit) :
    (raise k m scale).1.natAbs < mantissaLimit ∧ (raise k m scale).2 ≤ scale + k ∧
      ∃ j, (raise k m scale).1 = m * 10 ^ j := by
  induction k generalizing m scale with
  | zero => exact ⟨small, Nat.le_refl _, 0, by simp [raise]⟩
  | succ k ih =>
    rw [raise]
    split
    next fits =>
      obtain ⟨inside, short, j, same⟩ := @ih (10 * m) (scale + 1) fits
      exact ⟨inside, by omega, j + 1, by rw [same]; ring⟩
    next => exact ⟨small, by omega, 0, by simp⟩

theorem natAbs_lower_le (k : Nat) (m : Int) : (lower k m).natAbs ≤ m.natAbs := by
  rw [lower, Int.natAbs_mul, Int.natAbs_natCast]
  rcases eq_or_ne m 0 with rfl | nonzero
  · simp
  · rw [Int.natAbs_sign_of_ne_zero nonzero, Nat.one_mul]
    have positive : 0 < 10 ^ k := by positivity
    have half : 10 ^ k / 2 < 10 ^ k := Nat.div_lt_self positive (by decide)
    apply Nat.lt_succ_iff.mp
    rw [Nat.div_lt_iff_lt_mul positive]
    calc m.natAbs + 10 ^ k / 2 < m.natAbs + 10 ^ k := by omega
      _ ≤ m.natAbs * 10 ^ k + 10 ^ k :=
        Nat.add_le_add_right (Nat.le_mul_of_pos_right _ positive) _
      _ = m.natAbs.succ * 10 ^ k := (Nat.succ_mul _ _).symm

/-- A change of scale stays inside the limits and keeps the sign. -/
theorem rescaled_inside {m : Int} {scale target : Nat} (small : m.natAbs < mantissaLimit)
    (short : target ≤ maxScale) :
    (rescaled m scale target).1.natAbs < mantissaLimit ∧
      (scale ≤ maxScale → (rescaled m scale target).2 ≤ maxScale) ∧
      ∃ n : Nat, (rescaled m scale target).1 = m.sign * n := by
  unfold rescaled
  split
  next less =>
    exact ⟨Nat.lt_of_le_of_lt (natAbs_lower_le _ m) small, fun _ => short, _, rfl⟩
  next notLess =>
    obtain ⟨inside, shorter, j, same⟩ := @raise_inside (target - scale) m scale small
    refine ⟨inside, fun _ => by omega, m.natAbs * 10 ^ j, ?_⟩
    rw [same, Nat.cast_mul, ← mul_assoc, Int.sign_mul_natAbs, Nat.cast_pow, Nat.cast_ofNat]

/-- The sign of a spelling is that of its mantissa. -/
theorem signed_spelling (s : Spelling) :
    s.signed.natAbs = s.mantissa ∧ (s.signed ≠ 0 → (s.negative = true ↔ s.signed < 0)) := by
  unfold Spelling.signed
  split
  next negative =>
    rw [Int.natAbs_neg]
    exact ⟨rfl, fun nonzero => iff_of_true negative (by omega)⟩
  next positive => exact ⟨rfl, fun _ => iff_of_false positive (by omega)⟩

theorem plain_exact : plain.Exact where
  bounded d := ⟨d.small, d.short⟩
  fromStrExact_some s small short := by
    have spelled : read (String.ofList s.chars).toList = some s := by
      rw [String.toList_ofList]
      exact read_eq_some.mpr rfl
    obtain ⟨size, sign⟩ := signed_spelling s
    refine ⟨⟨s.negative, s.signed, s.scale, size ▸ small, short, sign⟩, ?_, rfl, rfl⟩
    change (read (String.ofList s.chars).toList).bind PlainDecimal.ofSpelling = _
    rw [spelled, Option.bind_some, PlainDecimal.ofSpelling, if_pos ⟨small, short⟩,
      PlainDecimal.ofParts_inside (size ▸ small) short sign]
  fromStrExact_none s outside := by
    have spelled : read (String.ofList s.chars).toList = some s := by
      rw [String.toList_ofList]
      exact read_eq_some.mpr rfl
    change (read (String.ofList s.chars).toList).bind PlainDecimal.ofSpelling = _
    rw [spelled, Option.bind_some, PlainDecimal.ofSpelling, if_neg outside]
  fromI128WithScale m scale small short := by
    have made : PlainDecimal.ofParts (m < 0) m scale = _ :=
      PlainDecimal.ofParts_inside small short fun _ => decide_eq_true_iff
    exact ⟨congrArg PlainDecimal.mantissa made, congrArg PlainDecimal.scale made⟩
  rescale d target short := by
    obtain ⟨inside, shorter, n, signed⟩ := @rescaled_inside d.mantissa d.scale target d.small short
    have sign (nonzero : (rescaled d.mantissa d.scale target).1 ≠ 0) :
        d.negative = true ↔ (rescaled d.mantissa d.scale target).1 < 0 := by
      have original : d.mantissa ≠ 0 := fun zero => nonzero (by rw [signed, zero]; simp)
      have some_ : 0 < (n : Int) := by
        rcases Nat.eq_zero_or_pos n with rfl | positive
        · exact absurd signed (by simpa using nonzero)
        · exact_mod_cast positive
      rw [d.sign original, signed, mul_neg_iff, Int.sign_neg_iff]
      exact ⟨fun negative => .inr ⟨negative, some_⟩, fun either => by omega⟩
    exact congrArg (fun d => (d.mantissa, d.scale))
      (PlainDecimal.ofParts_inside inside (shorter d.short) sign)
  sign d := d.sign
  setSignPositive d := by
    have positive : (d.mantissa.natAbs : Int) ≠ 0 → (false = true ↔ (d.mantissa.natAbs : Int) < 0) :=
      fun _ => iff_of_false Bool.false_ne_true (by omega)
    have made : PlainDecimal.ofParts false d.mantissa.natAbs d.scale = _ :=
      PlainDecimal.ofParts_inside (by rw [Int.natAbs_natCast]; exact d.small) d.short positive
    exact ⟨congrArg PlainDecimal.negative made, congrArg PlainDecimal.mantissa made,
      (congrArg PlainDecimal.scale made :)⟩
  isZero d := beq_iff_eq
  eq a b := by
    change (a.mantissa * 10 ^ b.scale == b.mantissa * 10 ^ a.scale) = true ↔
      (a.mantissa : ℚ) / 10 ^ a.scale = b.mantissa / 10 ^ b.scale
    rw [beq_iff_eq, div_eq_div_iff (pow_pos' _).ne' (pow_pos' _).ne']
    exact_mod_cast Iff.rfl
  toString d := rfl

end GraphqlOrm.Decimals
