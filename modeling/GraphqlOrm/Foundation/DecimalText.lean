import GraphqlOrm.Foundation.Json
import GraphqlOrm.Foundation.Records
import GraphqlOrm.Foundation.Slices
import Mathlib.Algebra.Order.Field.Basic
import Mathlib.Data.Rat.Defs
import Mathlib.Tactic.FieldSimp
import Mathlib.Tactic.Ring

/-!
# Decimal texts

Signed decimals in positional notation: what a text denotes, and the text of an integer
with a fixed number of fractional digits.

## Main results

* `Spelling.chars_injective`: a text is spelled in one way.
* `read_eq_some`: the reader takes exactly the texts of spellings.
* `spelledInt_value`: the spelling of a mantissa at a scale has its value.
-/
namespace DecimalText

open Text

/-! ### Spellings -/

/-- An optional minus, an integer without redundant zeros, and fractional digits behind a
point; without fractional digits there is no point. -/
structure Spelling where
  negative : Bool
  integer : List Char
  fraction : List Char
  wholeDigits : ∀ c ∈ integer, c.isDigit = true
  fractionDigits : ∀ c ∈ fraction, c.isDigit = true
  filled : integer ≠ []
  lean : integer.head? = some '0' → integer = ['0']

namespace Spelling

variable (s t : Spelling)

def sign : List Char := if s.negative then ['-'] else []

def tail : List Char := if s.fraction = [] then [] else '.' :: s.fraction

def chars : List Char := s.sign ++ (s.integer ++ s.tail)

def mantissa : Nat := Nat.ofDigitChars 10 (s.integer ++ s.fraction) 0

def signed : Int := if s.negative then -s.mantissa else s.mantissa

def scale : Nat := s.fraction.length

def value : ℚ := s.signed / 10 ^ s.scale

variable {s t}

theorem dash_notMem : '-' ∉ s.integer := fun mem => by
  have digit := s.wholeDigits '-' mem
  revert digit
  decide

theorem point_notMem : '.' ∉ s.integer := fun mem => by
  have digit := s.wholeDigits '.' mem
  revert digit
  decide

/-- The minus is told from a digit, and the point ends the integer. -/
theorem chars_injective (same : s.chars = t.chars) : s = t := by
  have opened (s : Spelling) : (s.integer ++ s.tail).head? ≠ some '-' := by
    obtain ⟨c, rest, shape⟩ := List.exists_cons_of_ne_nil s.filled
    rw [shape]
    rintro ⟨rfl⟩
    exact s.dash_notMem (shape ▸ .head _)
  have signs : s.negative = t.negative := by
    have first := congrArg List.head? same
    unfold chars sign at first
    cases left : s.negative <;> cases right : t.negative
    · rfl
    · rw [left, right] at first
      exact absurd first (opened s)
    · rw [left, right] at first
      exact absurd first.symm (opened t)
    · rfl
  have bodies : s.integer ++ s.tail = t.integer ++ t.tail := by
    unfold chars sign at same
    rw [signs] at same
    exact List.append_cancel_left same
  have ends (s : Spelling) : ∀ c ∈ s.tail.head?, c = '.' := by
    unfold tail
    split
    · simp
    · simp
  obtain ⟨wholes, tails⟩ := @append_cut Char (· = '.') _ _ _ _
    (fun c mem point => s.point_notMem (point ▸ mem))
    (fun c mem point => t.point_notMem (point ▸ mem)) (ends s) (ends t) bodies
  have fractions : s.fraction = t.fraction := by
    unfold tail at tails
    split at tails <;> split at tails
    next left right => rw [left, right]
    · cases tails
    · cases tails
    · exact (List.cons.inj tails).2
  cases s
  cases t
  simp only at signs wholes fractions
  subst signs wholes fractions
  rfl

theorem mem_chars {c : Char} (mem : c ∈ s.chars) : c.isDigit = true ∨ c = '-' ∨ c = '.' := by
  rw [chars, List.mem_append, List.mem_append] at mem
  rcases mem with mem | mem | mem
  · unfold sign at mem
    split at mem
    · exact .inr (.inl (List.mem_singleton.mp mem))
    · cases mem
  · exact .inl (s.wholeDigits c mem)
  · unfold tail at mem
    split at mem
    · cases mem
    · rcases List.mem_cons.mp mem with rfl | mem
      · exact .inr (.inr rfl)
      · exact .inl (s.fractionDigits c mem)

/-- Every character is ASCII. -/
theorem chars_ascii : ∀ c ∈ s.chars, c.toNat < 128 := by
  intro c mem
  rcases mem_chars mem with digit | rfl | rfl
  · exact Nat.lt_of_le_of_lt (Char.isDigit_iff_toNat.mp digit).2 (by decide)
  · decide
  · decide

theorem byteLength_chars : byteLength s.chars = s.chars.length := by
  have each : ∀ cs : List Char, (∀ c ∈ cs, c.toNat < 128) → byteLength cs = cs.length := by
    intro cs ascii
    induction cs with
    | nil => rfl
    | cons c rest ih =>
      have tail := ih fun d mem => ascii d (.tail _ mem)
      unfold byteLength at tail ⊢
      rw [List.map_cons, List.sum_cons, tail, utf8Size_ascii (ascii c (.head _)),
        List.length_cons, Nat.add_comm]
  exact each _ chars_ascii

end Spelling

/-! ### Reading -/

def unsigned (cs : List Char) : List Char := if cs.head? = some '-' then cs.tail else cs

theorem Spelling.head?_chars (s : Spelling) : s.chars.head? = some '-' ↔ s.negative = true := by
  unfold chars sign
  split
  next minus => simp [minus]
  next plus =>
    obtain ⟨c, rest, shape⟩ := List.exists_cons_of_ne_nil s.filled
    rw [List.nil_append, shape]
    apply iff_of_false _ plus
    rintro ⟨rfl⟩
    exact s.dash_notMem (shape ▸ .head _)

theorem Spelling.unsigned_chars (s : Spelling) : unsigned s.chars = s.integer ++ s.tail := by
  unfold unsigned
  split
  next minus =>
    rw [chars, sign, if_pos (s.head?_chars.mp minus)]
    rfl
  next plus =>
    rw [chars, sign, if_neg fun minus => plus (s.head?_chars.mpr minus)]
    rfl

/-- A minus in front and what follows it. -/
theorem sign_unsigned (cs : List Char) :
    (if cs.head? = some '-' then ['-'] else []) ++ unsigned cs = cs := by
  unfold unsigned
  split
  next minus =>
    obtain ⟨rest, rfl⟩ : ∃ rest, cs = '-' :: rest := List.head?_eq_some_iff.mp minus
    rfl
  · rfl

/-- The fractional digits behind the point, or none where nothing follows the integer. -/
def Fraction (rest digits : List Char) : Prop :=
  rest = [] ∧ digits = [] ∨
    rest = '.' :: digits ∧ digits ≠ [] ∧ ∀ c ∈ digits, c.isDigit = true

instance (rest digits : List Char) : Decidable (Fraction rest digits) :=
  have : Decidable (∀ c ∈ digits, c.isDigit = true) := List.decidableBAll _ digits
  inferInstanceAs (Decidable (_ ∧ _ ∨ _ ∧ _ ∧ _))

theorem Spelling.fraction_tail (s : Spelling) : Fraction s.tail s.fraction := by
  unfold tail
  split
  next empty => exact .inl ⟨rfl, empty⟩
  next filled => exact .inr ⟨rfl, filled, s.fractionDigits⟩

theorem Fraction.tail_eq {rest digits : List Char} (fraction : Fraction rest digits) :
    rest.tail = digits := by
  rcases fraction with ⟨rfl, rfl⟩ | ⟨rfl, _⟩
  · rfl
  · rfl

def assemble (negative : Bool) (integer rest : List Char) : Option Spelling :=
  if spells : (integer.all Char.isDigit = true ∧ integer ≠ []) ∧
      (integer.head? = some '0' → integer = ['0']) ∧ Fraction rest rest.tail then
    some
      { negative, integer, fraction := rest.tail
        wholeDigits := List.all_eq_true.mp spells.1.1
        fractionDigits := by
          rcases spells.2.2 with ⟨_, empty⟩ | ⟨_, _, digits⟩
          · rw [empty]
            exact fun c mem => absurd mem List.not_mem_nil
          · exact digits
        filled := spells.1.2
        lean := spells.2.1 }
  else none

theorem assemble_eq_some {negative : Bool} {integer rest : List Char} {s : Spelling} :
    assemble negative integer rest = some s ↔
      s.negative = negative ∧ s.integer = integer ∧ s.tail = rest := by
  unfold assemble
  constructor
  · split
    next spells =>
      rintro ⟨rfl⟩
      refine ⟨rfl, rfl, ?_⟩
      unfold Spelling.tail
      rcases spells.2.2 with ⟨none_, empty⟩ | ⟨point, filled, _⟩
      · rw [if_pos empty, none_]
      · rw [if_neg filled]
        exact point.symm
    · exact nofun
  · rintro ⟨rfl, rfl, rfl⟩
    have digits := s.fraction_tail.tail_eq
    rw [dif_pos ⟨⟨List.all_eq_true.mpr s.wholeDigits, s.filled⟩, s.lean, digits ▸ s.fraction_tail⟩]
    congr 1
    cases s
    simp only [Spelling.mk.injEq, true_and]
    exact digits

def read (cs : List Char) : Option Spelling :=
  assemble (cs.head? = some '-') ((unsigned cs).takeWhile Char.isDigit)
    ((unsigned cs).dropWhile Char.isDigit)

/-- Reading gives back the spelling, and nothing else is read. -/
theorem read_eq_some {cs : List Char} {s : Spelling} : read cs = some s ↔ s.chars = cs := by
  rw [read, assemble_eq_some]
  constructor
  · rintro ⟨negative, whole, rest⟩
    rw [Spelling.chars, whole, rest, List.takeWhile_append_dropWhile, Spelling.sign, negative]
    simp only [decide_eq_true_eq]
    exact sign_unsigned cs
  · rintro rfl
    have stop : ∀ c ∈ s.tail.head?, c.isDigit = false := by
      unfold Spelling.tail
      split
      · simp
      · rintro c ⟨rfl⟩
        rfl
    have none_ : s.tail.takeWhile Char.isDigit = [] := by
      cases shape : s.tail with
      | nil => rfl
      | cons c rest =>
        rw [List.takeWhile_cons_of_neg]
        rw [stop c (by rw [shape]; rfl)]
        decide
    rw [s.unsigned_chars, List.takeWhile_append_of_pos s.wholeDigits,
      List.dropWhile_append_of_pos s.wholeDigits, Text.dropWhile_eq_self stop, none_,
      List.append_nil]
    refine ⟨?_, rfl, rfl⟩
    rw [Bool.eq_iff_iff, decide_eq_true_eq]
    exact s.head?_chars.symm

/-! ### Writing -/

/-- The lowest `k` decimal digits, the highest of them first. -/
def fixedDigits : Nat → Nat → List Char
  | 0, _ => []
  | k + 1, n => fixedDigits k (n / 10) ++ [(n % 10).digitChar]

theorem length_fixedDigits (k n : Nat) : (fixedDigits k n).length = k := by
  induction k generalizing n with
  | zero => rfl
  | succ k ih => simp [fixedDigits, ih]

theorem fixedDigits_digits {k n : Nat} {c : Char} (mem : c ∈ fixedDigits k n) :
    c.isDigit = true := by
  induction k generalizing n with
  | zero => cases mem
  | succ k ih =>
    rcases List.mem_append.mp mem with before | last
    · exact ih before
    · rw [List.mem_singleton.mp last]
      rw [Nat.isDigit_digitChar]
      exact decide_eq_true (Nat.mod_lt n (by decide))

theorem ofDigitChars_fixedDigits (k n start : Nat) :
    Nat.ofDigitChars 10 (fixedDigits k n) start = 10 ^ k * start + n % 10 ^ k := by
  induction k generalizing n with
  | zero => simp [fixedDigits, Nat.mod_one]
  | succ k ih =>
    have last : n % 10 < 10 := Nat.mod_lt n (by decide)
    rw [fixedDigits, Nat.ofDigitChars_append, ih,
      Nat.ofDigitChars_cons_digitChar_of_lt_ten last, Nat.ofDigitChars_nil, Nat.pow_succ',
      Nat.mod_mul]
    ring

theorem toDigits_lean {n : Nat} (zero : (Nat.toDigits 10 n).head? = some '0') :
    Nat.toDigits 10 n = ['0'] := by
  rcases Nat.eq_zero_or_pos n with rfl | positive
  · exact Nat.toDigits_zero 10
  · obtain ⟨c, rest, shape, lead⟩ := Json.toDigits_head positive
    rw [shape] at zero
    exact absurd (Option.some.inj zero) lead

/-- The spelling of `m / 10 ^ scale` with exactly `scale` fractional digits. -/
def spelled (negative : Bool) (m scale : Nat) : Spelling where
  negative := negative
  integer := Nat.toDigits 10 (m / 10 ^ scale)
  fraction := fixedDigits scale m
  wholeDigits := fun _ mem => Nat.isDigit_of_mem_toDigits (by decide) (by decide) mem
  fractionDigits := fun _ => fixedDigits_digits
  filled := Nat.toDigits_ne_nil
  lean := toDigits_lean

theorem spelled_mantissa (negative : Bool) (m scale : Nat) :
    (spelled negative m scale).mantissa = m := by
  unfold Spelling.mantissa spelled
  rw [Nat.ofDigitChars_append, ofDigitChars_fixedDigits, Nat.ofDigitChars_ten_toDigits]
  exact Nat.div_add_mod m (10 ^ scale)

theorem spelled_scale (negative : Bool) (m scale : Nat) :
    (spelled negative m scale).scale = scale := length_fixedDigits scale m

def spelledInt (m : Int) (scale : Nat) : Spelling := spelled (m < 0) m.natAbs scale

theorem spelledInt_signed (m : Int) (scale : Nat) : (spelledInt m scale).signed = m := by
  unfold Spelling.signed spelledInt
  rw [spelled_mantissa]
  split
  next negative =>
    have below : m < 0 := of_decide_eq_true negative
    omega
  next positive =>
    have above : ¬m < 0 := fun below => positive (decide_eq_true below)
    omega

theorem spelledInt_value (m : Int) (scale : Nat) :
    (spelledInt m scale).value = m / 10 ^ scale := by
  rw [Spelling.value, spelledInt_signed, spelledInt, spelled_scale]

theorem length_spelled {negative : Bool} {m scale width : Nat} (small : m < 10 ^ width)
    (filled : 0 < width) : (spelled negative m scale).chars.length ≤ 1 + (width + (1 + scale)) := by
  have whole : (Nat.toDigits 10 (m / 10 ^ scale)).length ≤ width := by
    rw [Nat.length_toDigits_le_iff (by decide) filled]
    exact Nat.lt_of_le_of_lt (Nat.div_le_self _ _) small
  have signs : (spelled negative m scale).sign.length ≤ 1 := by
    unfold Spelling.sign
    split <;> simp
  have tails : (spelled negative m scale).tail.length ≤ 1 + scale := by
    unfold Spelling.tail
    split
    · simp
    · rw [List.length_cons, Nat.add_comm]
      exact Nat.add_le_add_left (Nat.le_of_eq (length_fixedDigits scale m)) 1
  rw [Spelling.chars, List.length_append, List.length_append]
  exact Nat.add_le_add signs (Nat.add_le_add whole tails)

end DecimalText
