import GraphqlOrm.Foundation.Checked
import GraphqlOrm.Foundation.DecimalText
import GraphqlOrm.Foundation.Outcome
import GraphqlOrm.Runtime.Schema

/-!
# Exact decimals

Decimal definitions and the values they admit. The decimal type itself comes from outside:
what the code calls of it is a parameter, and `Exact` states its documented behaviour, with
mantissas below `2 ^ 96` and at most 28 fractional digits.

## Main results

* `normalize_ok`: a multiple of the last retained digit that is short enough is admitted.
* `normalize_scale`, `normalize_precision`: what is rejected, and why.
* `normalize_sound`: an admitted value is not changed.
-/
namespace GraphqlOrm.Decimals

open DecimalText Outcome

/-! ### The decimal type -/

/-- What the code calls of a decimal type. -/
structure DecimalLibrary (δ : Type) where
  fromStrExact : String → Option δ
  fromI128WithScale : Int → Nat → δ
  mantissa : δ → Int
  scale : δ → Nat
  rescale : δ → Nat → δ
  isSignNegative : δ → Bool
  setSignPositive : δ → δ
  isZero : δ → Bool
  eq : δ → δ → Bool
  toString : δ → String

def mantissaLimit : Nat := 2 ^ 96

def maxScale : Nat := 28

def raise : Nat → Int → Nat → Int × Nat
  | 0, m, scale => (m, scale)
  | k + 1, m, scale =>
    if (10 * m).natAbs < mantissaLimit then raise k (10 * m) (scale + 1) else (m, scale)

def lower (k : Nat) (m : Int) : Int := m.sign * ((m.natAbs + 10 ^ k / 2) / 10 ^ k : Nat)

def rescaled (m : Int) (scale target : Nat) : Int × Nat :=
  if target < scale then (lower (scale - target) m, target) else raise (target - scale) m scale

section Library

variable {δ : Type} (rust : DecimalLibrary δ)

def DecimalLibrary.value (d : δ) : ℚ := rust.mantissa d / 10 ^ rust.scale d

/-- The documented behaviour of the decimal type. -/
structure DecimalLibrary.Exact : Prop where
  bounded (d : δ) : (rust.mantissa d).natAbs < mantissaLimit ∧ rust.scale d ≤ maxScale
  fromStrExact_some (s : Spelling) (small : s.mantissa < mantissaLimit) (short : s.scale ≤ maxScale) :
    ∃ d, rust.fromStrExact (String.ofList s.chars) = some d ∧ rust.mantissa d = s.signed ∧
      rust.scale d = s.scale
  fromStrExact_none (s : Spelling) (outside : ¬(s.mantissa < mantissaLimit ∧ s.scale ≤ maxScale)) :
    rust.fromStrExact (String.ofList s.chars) = none
  fromI128WithScale (m : Int) (scale : Nat) (small : m.natAbs < mantissaLimit)
    (short : scale ≤ maxScale) : rust.mantissa (rust.fromI128WithScale m scale) = m ∧
      rust.scale (rust.fromI128WithScale m scale) = scale
  rescale (d : δ) (target : Nat) (short : target ≤ maxScale) :
    (rust.mantissa (rust.rescale d target), rust.scale (rust.rescale d target)) =
      rescaled (rust.mantissa d) (rust.scale d) target
  sign (d : δ) (nonzero : rust.mantissa d ≠ 0) :
    rust.isSignNegative d = true ↔ rust.mantissa d < 0
  setSignPositive (d : δ) : rust.isSignNegative (rust.setSignPositive d) = false ∧
    rust.mantissa (rust.setSignPositive d) = (rust.mantissa d).natAbs ∧
    rust.scale (rust.setSignPositive d) = rust.scale d
  isZero (d : δ) : rust.isZero d = true ↔ rust.mantissa d = 0
  eq (d e : δ) : rust.eq d e = true ↔ rust.value d = rust.value e
  toString (d : δ) : rust.toString d = String.ofList
    (spelled (rust.isSignNegative d) (rust.mantissa d).natAbs (rust.scale d)).chars

end Library

/-! ### Changes of scale -/

theorem pow_pos' (k : Nat) : (0 : ℚ) < 10 ^ k := by positivity

variable {m n : Int} {scale : Nat}

/-- Two decimals agree if they do at a common scale. -/
theorem div_eq_iff_lift {k : Nat} :
    (m : ℚ) / 10 ^ (scale + k) = n / 10 ^ scale ↔ m = n * 10 ^ k := by
  rw [div_eq_div_iff (pow_pos' _).ne' (pow_pos' _).ne', pow_add]
  constructor
  · intro same
    have canceled : (m : ℚ) = n * 10 ^ k := by
      apply mul_right_cancel₀ (pow_pos' scale).ne'
      rw [same]
      ring
    exact_mod_cast canceled
  · rintro rfl
    push_cast
    ring

theorem raise_fits {k : Nat} (fits : (m * 10 ^ k).natAbs < mantissaLimit) :
    raise k m scale = (m * 10 ^ k, scale + k) := by
  induction k generalizing m scale with
  | zero => simp [raise]
  | succ k ih =>
    have moved : m * 10 ^ (k + 1) = 10 * m * 10 ^ k := by ring
    rw [moved] at fits ⊢
    have first : (10 * m).natAbs < mantissaLimit := by
      apply Nat.lt_of_le_of_lt _ fits
      rw [Int.natAbs_mul (10 * m)]
      exact Nat.le_mul_of_pos_right _ (by positivity)
    rw [raise, if_pos first, ih fits, Nat.add_assoc, Nat.add_comm 1 k]

/-- Where the zeros do not fit, the value stays and the mantissa is close to its limit. -/
theorem raise_limited {k : Nat} (bounded : m.natAbs < mantissaLimit)
    (large : mantissaLimit ≤ (m * 10 ^ k).natAbs) :
    ∃ j, raise k m scale = (m * 10 ^ j, scale + j) ∧ mantissaLimit ≤ 10 * (m * 10 ^ j).natAbs := by
  induction k generalizing m scale with
  | zero =>
    rw [pow_zero, mul_one] at large
    exact absurd bounded (Nat.not_lt.mpr large)
  | succ k ih =>
    rw [raise]
    split
    next fits =>
      have moved : m * 10 ^ (k + 1) = 10 * m * 10 ^ k := by ring
      rw [moved] at large
      obtain ⟨j, reached, near⟩ := @ih (10 * m) (scale + 1) fits large
      have same : m * 10 ^ (j + 1) = 10 * m * 10 ^ j := by ring
      exact ⟨j + 1, by rw [reached, same, Nat.add_assoc, Nat.add_comm 1 j], by rw [same]; exact near⟩
    next stuck =>
      refine ⟨0, by simp, ?_⟩
      rw [Nat.not_lt, Int.natAbs_mul] at stuck
      simpa using stuck

theorem lower_exact (k : Nat) (n : Int) : lower k (n * 10 ^ k) = n := by
  have positive : 0 < 10 ^ k := by positivity
  have half : 10 ^ k / 2 < 10 ^ k := Nat.div_lt_self positive (by decide)
  have digits : ((n * 10 ^ k).natAbs + 10 ^ k / 2) / 10 ^ k = n.natAbs := by
    rw [Int.natAbs_mul, Int.natAbs_pow, show (10 : Int).natAbs = 10 from rfl, Nat.add_comm,
      Nat.add_mul_div_right _ _ positive, Nat.div_eq_of_lt half, Nat.zero_add]
  have signs : (n * 10 ^ k).sign = n.sign := by
    rw [Int.sign_mul, Int.sign_eq_one_of_pos (a := 10 ^ k) (by positivity), mul_one]
  rw [lower, digits, signs, Int.sign_mul_natAbs]

/-- A change of scale keeps the value if its mantissa fits, -/
theorem rescaled_fits {target : Nat} (same : (m : ℚ) / 10 ^ scale = n / 10 ^ target)
    (fits : n.natAbs < mantissaLimit) : rescaled m scale target = (n, target) := by
  unfold rescaled
  split
  next less =>
    obtain ⟨k, rfl⟩ := Nat.exists_eq_add_of_lt less
    rw [Nat.add_assoc] at same ⊢
    rw [div_eq_iff_lift.mp same, Nat.add_sub_cancel_left, lower_exact]
  next notLess =>
    obtain ⟨k, rfl⟩ := Nat.exists_eq_add_of_le (Nat.not_lt.mp notLess)
    obtain rfl := div_eq_iff_lift.mp same.symm
    rw [Nat.add_sub_cancel_left, raise_fits fits]

/-- comes close to the limit of mantissas where it does not, -/
theorem rescaled_limited {target : Nat} (bounded : m.natAbs < mantissaLimit)
    (same : (m : ℚ) / 10 ^ scale = n / 10 ^ target) (large : mantissaLimit ≤ n.natAbs) :
    ((rescaled m scale target).1 : ℚ) / 10 ^ (rescaled m scale target).2 = m / 10 ^ scale ∧
      mantissaLimit ≤ 10 * (rescaled m scale target).1.natAbs := by
  unfold rescaled
  split
  next less =>
    obtain ⟨k, rfl⟩ := Nat.exists_eq_add_of_lt less
    rw [Nat.add_assoc] at same
    rw [div_eq_iff_lift.mp same, Int.natAbs_mul] at bounded
    have shrunk : n.natAbs ≤ n.natAbs * ((10 : Int) ^ (k + 1)).natAbs :=
      Nat.le_mul_of_pos_right _ (by positivity)
    omega
  next notLess =>
    obtain ⟨k, rfl⟩ := Nat.exists_eq_add_of_le (Nat.not_lt.mp notLess)
    obtain rfl := div_eq_iff_lift.mp same.symm
    obtain ⟨j, reached, near⟩ := @raise_limited m scale k bounded large
    rw [Nat.add_sub_cancel_left, reached]
    exact ⟨div_eq_iff_lift.mpr rfl, near⟩

/-- and changes the value that is no multiple of the last digit. -/
theorem rescaled_inexact {target : Nat} (off : ¬∃ n : Int, (m : ℚ) / 10 ^ scale = n / 10 ^ target) :
    ((rescaled m scale target).1 : ℚ) / 10 ^ (rescaled m scale target).2 ≠ m / 10 ^ scale := by
  unfold rescaled
  split
  · exact fun same => off ⟨_, same.symm⟩
  next notLess =>
    obtain ⟨k, rfl⟩ := Nat.exists_eq_add_of_le (Nat.not_lt.mp notLess)
    exact absurd ⟨m * 10 ^ k, (div_eq_iff_lift.mpr rfl).symm⟩ off

/-! ### Definitions -/

def maximumPortablePrecision : Nat := 18

/-- A definition that a constructor made: a portable one, or the money of SQL Server. -/
structure DecimalDef extends Runtime.DecimalDef where
  admitted : mssqlMoney = false ∧ 0 < precision ∧ precision ≤ maximumPortablePrecision ∧
      scale ≤ precision ∨ mssqlMoney = true ∧ precision = 19 ∧ scale = 4
deriving DecidableEq

def DecimalDef.new (precision scale : Nat) : Option DecimalDef :=
  if invalid : precision = 0 ∨ precision > maximumPortablePrecision ∨ scale > precision then none
  else some
    { precision, scale, mssqlMoney := false
      admitted := .inl ⟨rfl, by omega, by omega, by omega⟩ }

theorem DecimalDef.new_portable {precision : Nat} {definition : DecimalDef}
    (made : DecimalDef.new precision scale = some definition) : definition.mssqlMoney = false := by
  unfold new at made
  split at made
  · cases made
  · cases made
    rfl

/-- Neither the precision nor the scale exceeds what the decimal type holds. -/
theorem DecimalDef.scale_le (definition : DecimalDef) : definition.scale ≤ maxScale := by
  have admitted := definition.admitted
  unfold maximumPortablePrecision at admitted
  unfold maxScale
  omega

/-- Precision and scale tell the money definition from the portable ones. -/
theorem DecimalDef.ext_digits {a b : DecimalDef} (precision : a.precision = b.precision)
    (scale : a.scale = b.scale) : a = b := by
  obtain ⟨⟨p, s, money⟩, admitted⟩ := a
  obtain ⟨⟨p', s', money'⟩, admitted'⟩ := b
  simp only at precision scale admitted admitted'
  subst precision scale
  have same : money = money' := by
    unfold maximumPortablePrecision at admitted admitted'
    rcases admitted with ⟨rfl, _⟩ | ⟨rfl, _⟩ <;> rcases admitted' with ⟨rfl, _⟩ | ⟨rfl, _⟩
    · rfl
    · omega
    · omega
    · rfl
  subst same
  rfl

inductive DecimalValueError where
  | scale | precision

section Values

variable {δ : Type} (rust : DecimalLibrary δ)

/-- `DecimalDef::normalize`: the value at the scale of the definition, never rounded. -/
def normalize (definition : DecimalDef) (value : δ) : Except DecimalValueError δ := do
  let normalized := rust.rescale value definition.scale
  require (rust.eq normalized value) .scale
  require ((rust.mantissa normalized).natAbs.repr.length ≤ definition.precision) .precision
  require (!definition.mssqlMoney || decide (Checked.InRange (rust.mantissa normalized))) .precision
  return normalized

def toScaledI64 (definition : DecimalDef) (value : δ) : Except DecimalValueError Int := do
  let normalized ← normalize rust definition value
  require (decide (Checked.InRange (rust.mantissa normalized))) .precision
  return rust.mantissa normalized

def fromScaledI64 (definition : DecimalDef) (value : Int) : δ :=
  rust.fromI128WithScale value definition.scale

/-- A value with the definition that it was normalized for. -/
structure DecimalValue where
  value : δ
  definition : DecimalDef
  normal : ∃ original, normalize rust definition original = .ok value

def DecimalValue.new (value : δ) (definition : DecimalDef) :
    Except DecimalValueError (DecimalValue rust) :=
  match made : normalize rust definition value with
  | .ok normalized => .ok ⟨normalized, definition, value, made⟩
  | .error error => .error error

/-- The value is a multiple of the last digit that the definition retains. -/
def Multiple (definition : DecimalDef) (q : ℚ) : Prop := ∃ n : Int, q = n / 10 ^ definition.scale

/-! ### Normalization -/

variable {rust} {definition : DecimalDef}

variable {value : δ}

theorem normalize_ok_iff {normalized : δ} :
    normalize rust definition value = .ok normalized ↔
      normalized = rust.rescale value definition.scale ∧ rust.eq normalized value = true ∧
        (rust.mantissa normalized).natAbs.repr.length ≤ definition.precision ∧
        (definition.mssqlMoney = true → Checked.InRange (rust.mantissa normalized)) := by
  simp only [normalize, bind_eq_ok, require_eq_ok, decide_eq_true_eq, Bool.or_eq_true,
    Bool.not_eq_true']
  constructor
  · rintro ⟨_, same, _, digits, _, money, made⟩
    cases made
    exact ⟨rfl, same, digits, fun isMoney => money.resolve_left (by simp [isMoney])⟩
  · rintro ⟨rfl, same, digits, money⟩
    refine ⟨(), same, (), digits, (), ?_, rfl⟩
    cases isMoney : definition.mssqlMoney
    · exact .inl rfl
    · exact .inr (money isMoney)

/-- As many digits as the precision has. -/
theorem length_repr_le {n : Nat} (positive : 0 < definition.precision) :
    n.repr.length ≤ definition.precision ↔ n < 10 ^ definition.precision := by
  rw [← Nat.length_toDigits_le_iff (by decide) positive, ← Nat.toList_repr, String.length_toList]

section Portable

variable (exact : rust.Exact) (portable : definition.mssqlMoney = false)

include portable in
theorem precision_pos : 0 < definition.precision ∧ 10 ^ definition.precision ≤ 10 ^ 18 := by
  rcases definition.admitted with ⟨_, positive, bounded, _⟩ | ⟨money, _⟩
  · exact ⟨positive, Nat.pow_le_pow_right (by decide) bounded⟩
  · rw [portable] at money
    cases money

include exact in
/-- What a change to the scale of a definition leaves. -/
theorem rescale_eq (value : δ) :
    rust.mantissa (rust.rescale value definition.scale) =
        (rescaled (rust.mantissa value) (rust.scale value) definition.scale).1 ∧
      rust.scale (rust.rescale value definition.scale) =
        (rescaled (rust.mantissa value) (rust.scale value) definition.scale).2 := by
  have both := exact.rescale value definition.scale definition.scale_le
  exact ⟨congrArg Prod.fst both, congrArg Prod.snd both⟩

include exact in
theorem normalize_scale (off : ¬Multiple definition (rust.value value)) :
    normalize rust definition value = .error .scale := by
  obtain ⟨mantissa, scale⟩ := @rescale_eq δ rust definition exact value
  have moved : rust.eq (rust.rescale value definition.scale) value = false := by
    rw [Bool.eq_false_iff, ne_eq, exact.eq]
    unfold DecimalLibrary.value
    rw [mantissa, scale]
    exact rescaled_inexact off
  change (require _ _ >>= _) = _
  rw [moved]
  rfl

include exact portable in
theorem normalize_precision (multiple : rust.value value = n / 10 ^ definition.scale)
    (large : 10 ^ definition.precision ≤ n.natAbs) :
    normalize rust definition value = .error .precision := by
  obtain ⟨positive, bounded⟩ := precision_pos portable
  obtain ⟨mantissa, scale⟩ := @rescale_eq δ rust definition exact value
  -- The rescaled mantissa is `n` where that fits, and beyond every precision otherwise.
  have kept : rust.value (rust.rescale value definition.scale) = rust.value value ∧
      10 ^ definition.precision ≤ (rust.mantissa (rust.rescale value definition.scale)).natAbs := by
    unfold DecimalLibrary.value
    rw [mantissa, scale]
    by_cases fits : n.natAbs < mantissaLimit
    · rw [rescaled_fits multiple fits]
      exact ⟨multiple.symm, large⟩
    · have ⟨same, near⟩ := rescaled_limited (exact.bounded value).1 multiple (Nat.not_lt.mp fits)
      refine ⟨same, Nat.le_trans bounded ?_⟩
      unfold mantissaLimit at near
      omega
  have same := (exact.eq _ _).mpr kept.1
  have long : ¬(rust.mantissa (rust.rescale value definition.scale)).natAbs.repr.length ≤
      definition.precision := by
    rw [length_repr_le positive, Nat.not_lt]
    exact kept.2
  change (require _ _ >>= fun _ => require _ _ >>= _) = _
  rw [same, decide_eq_false long]
  rfl

include exact portable in
theorem normalize_ok (multiple : rust.value value = n / 10 ^ definition.scale)
    (small : n.natAbs < 10 ^ definition.precision) :
    ∃ normalized, normalize rust definition value = .ok normalized ∧
      rust.mantissa normalized = n ∧ rust.scale normalized = definition.scale := by
  obtain ⟨positive, bounded⟩ := precision_pos portable
  obtain ⟨mantissa, scale⟩ := @rescale_eq δ rust definition exact value
  have fits : n.natAbs < mantissaLimit := by
    unfold mantissaLimit
    omega
  rw [rescaled_fits multiple fits] at mantissa scale
  refine ⟨_, normalize_ok_iff.mpr ⟨rfl, ?_, ?_, ?_⟩, mantissa, scale⟩
  · rw [exact.eq, multiple]
    unfold DecimalLibrary.value
    rw [mantissa, scale]
  · rw [length_repr_le positive, mantissa]
    exact small
  · intro money
    rw [portable] at money
    cases money

include exact portable in
/-- An admitted value stays what it was, at the scale of the definition. -/
theorem normalize_sound {normalized : δ}
    (admitted : normalize rust definition value = .ok normalized) :
    rust.value value = rust.mantissa normalized / 10 ^ definition.scale ∧
      (rust.mantissa normalized).natAbs < 10 ^ definition.precision ∧
      rust.scale normalized = definition.scale := by
  by_cases multiple : Multiple definition (rust.value value)
  · obtain ⟨n, multiple⟩ := multiple
    rcases Nat.lt_or_ge n.natAbs (10 ^ definition.precision) with small | large
    · obtain ⟨other, made, mantissa, scale⟩ := normalize_ok exact portable multiple small
      obtain rfl : other = normalized := Except.ok.inj (made.symm.trans admitted)
      exact ⟨mantissa ▸ multiple, mantissa ▸ small, scale⟩
    · cases (normalize_precision exact portable multiple large).symm.trans admitted
  · cases (normalize_scale exact multiple).symm.trans admitted

end Portable

theorem DecimalValue.new_ok_iff {made : DecimalValue rust} :
    DecimalValue.new rust value definition = .ok made ↔
      normalize rust definition value = .ok made.value ∧ made.definition = definition := by
  unfold DecimalValue.new
  split
  next normalized passed =>
    constructor
    · rintro ⟨rfl⟩
      exact ⟨passed, rfl⟩
    · rintro ⟨made', rfl⟩
      obtain rfl : normalized = made.value := Except.ok.inj (passed.symm.trans made')
      rfl
  next error failed =>
    constructor
    · exact nofun
    · rintro ⟨made', _⟩
      cases failed.symm.trans made'

theorem DecimalValue.new_error {error : DecimalValueError}
    (failed : normalize rust definition value = .error error) :
    DecimalValue.new rust value definition = .error error := by
  unfold DecimalValue.new
  split
  next normalized passed => cases passed.symm.trans failed
  next other failed' =>
    cases failed'.symm.trans failed
    rfl

end Values

end GraphqlOrm.Decimals
