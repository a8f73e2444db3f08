import GraphqlOrm.Foundation.Bytes
import Mathlib.Data.List.Infix

/-!
# String functions of databases

Where a text occurs in another one and what is cut from its ends, as `instr`, `strpos`,
`substr`, `left` and `right` compute it, and the order of numerals of one width.
-/
namespace Sql

/-! ### Occurrences -/

section Occurrences

variable {α : Type} [DecidableEq α]

/-- The place of the first occurrence, counted from one; zero without any. -/
def position (needle : List α) : List α → Nat
  | [] => if needle <+: [] then 1 else 0
  | c :: rest =>
    if needle <+: c :: rest then 1
    else
      match position needle rest with
      | 0 => 0
      | n + 1 => n + 2

theorem position_pos {needle hay : List α} : 0 < position needle hay ↔ needle <:+: hay := by
  induction hay with
  | nil =>
    rw [position, List.infix_nil, ← List.prefix_nil]
    split
    next empty => exact iff_of_true Nat.one_pos empty
    next filled => exact iff_of_false (Nat.lt_irrefl 0) filled
  | cons c rest ih =>
    rw [position, List.infix_cons_iff, ← ih]
    split
    next here => exact iff_of_true Nat.one_pos (.inl here)
    next later =>
      cases position needle rest with
      | zero => simp [later]
      | succ n => simp

theorem position_eq_one {needle hay : List α} : position needle hay = 1 ↔ needle <+: hay := by
  cases hay with
  | nil =>
    rw [position]
    split
    next here => exact iff_of_true rfl here
    next absent => exact iff_of_false nofun absent
  | cons c rest =>
    rw [position]
    split
    next here => exact iff_of_true rfl here
    next later =>
      -- A later occurrence starts at two or behind it.
      refine iff_of_false ?_ later
      cases position needle rest <;> simp

end Occurrences

/-! ### Ends of a text -/

section Ends

variable {α : Type}

/-- `left`: a negative number leaves that many elements out at the other end. -/
def leftmost (xs : List α) : Int → List α
  | .ofNat n => xs.take n
  | .negSucc n => xs.take (xs.length - (n + 1))

/-- `right` -/
def rightmost (xs : List α) : Int → List α
  | .ofNat n => xs.drop (xs.length - n)
  | .negSucc n => xs.drop (n + 1)

/-- `substr` without a length: places count from one, a negative one from the end, and zero
stands before the first. -/
def substrFrom (xs : List α) : Int → List α
  | .ofNat n => xs.drop (n - 1)
  | .negSucc n => xs.drop (xs.length - (n + 1))

variable {xs ys : List α}

theorem leftmost_eq : leftmost xs ys.length = ys ↔ ys <+: xs := by
  rw [List.prefix_iff_eq_take, eq_comm]
  exact Iff.rfl

theorem rightmost_eq : rightmost xs ys.length = ys ↔ ys <:+ xs := by
  rw [List.suffix_iff_eq_drop, eq_comm]
  exact Iff.rfl

theorem length_substrFrom_le (start : Int) : (substrFrom xs start).length ≤ xs.length := by
  cases start <;> simp [substrFrom]

/-- Starting where a suffix of that length would; an operand that is too long starts
before the text and never equals what is left of it. -/
theorem substrFrom_eq : substrFrom xs ((xs.length : Int) - ys.length + 1) = ys ↔ ys <:+ xs := by
  rcases Nat.lt_or_ge xs.length ys.length with long | short
  · refine iff_of_false (fun same => ?_) fun suffix => ?_
    · have cut : (substrFrom xs ((xs.length : Int) - ys.length + 1)).length ≤ xs.length :=
        length_substrFrom_le _
      rw [same] at cut
      omega
    · have fits := suffix.length_le
      omega
  · have start : (xs.length : Int) - ys.length + 1 = .ofNat (xs.length - ys.length + 1) := by
      simp only [Int.ofNat_eq_natCast]
      omega
    rw [start, substrFrom, Nat.add_sub_cancel, List.suffix_iff_eq_drop, eq_comm]

end Ends

/-! ### Numerals of one width -/

section Numerals

def compareText (cs ds : List Char) : Ordering :=
  List.compareLex compare (cs.flatMap String.utf8EncodeChar) (ds.flatMap String.utf8EncodeChar)

theorem compareLex_append {α : Type} {cmp : α → α → Ordering} {xs ys : List α} (zs ws : List α)
    (same : xs.length = ys.length) :
    List.compareLex cmp (xs ++ zs) (ys ++ ws) =
      (List.compareLex cmp xs ys).then (List.compareLex cmp zs ws) := by
  induction xs generalizing ys with
  | nil =>
    obtain rfl := List.length_eq_zero_iff.mp same.symm
    rfl
  | cons x xs ih =>
    cases ys with
    | nil => cases same
    | cons y ys =>
      rw [List.cons_append, List.cons_append, List.compareLex_cons_cons, List.compareLex_cons_cons,
        ih (Nat.succ.inj same), Ordering.then_assoc]

theorem exists_digitChar {c : Char} (digit : c.isDigit = true) : ∃ n < 10, c = Nat.digitChar n := by
  have bounds : 48 ≤ c.toNat ∧ c.toNat ≤ 57 := by
    simp only [Char.isDigit, ge_iff_le, Bool.and_eq_true, decide_eq_true_eq] at digit
    exact digit
  rw [← Char.ofNat_toNat c]
  obtain ⟨low, high⟩ := bounds
  generalize c.toNat = code at low high
  refine ⟨code - 48, by omega, ?_⟩
  interval_cases code <;> rfl

theorem compare_digitBytes : ∀ m < 10, ∀ n < 10,
    List.compareLex compare (String.utf8EncodeChar (Nat.digitChar m))
      (String.utf8EncodeChar (Nat.digitChar n)) = compare m n := by decide

theorem length_digitBytes : ∀ n < 10, (String.utf8EncodeChar (Nat.digitChar n)).length = 1 := by decide

theorem compare_shifted {a b : Nat} (small : a < 10) (other : b < 10) (m n : Nat) :
    compare (10 * m + a) (10 * n + b) = (compare m n).then (compare a b) := by
  rcases Nat.lt_trichotomy m n with less | rfl | more
  · rw [Nat.compare_eq_lt.mpr less, Ordering.lt_then]
    exact Nat.compare_eq_lt.mpr (by omega)
  · rw [Nat.compare_eq_eq.mpr rfl, Ordering.eq_then]
    rcases Nat.lt_trichotomy a b with less | rfl | more
    · rw [Nat.compare_eq_lt.mpr less]
      exact Nat.compare_eq_lt.mpr (by omega)
    · rw [Nat.compare_eq_eq.mpr rfl, Nat.compare_eq_eq.mpr rfl]
    · rw [Nat.compare_eq_gt.mpr more]
      exact Nat.compare_eq_gt.mpr (by omega)
  · rw [Nat.compare_eq_gt.mpr more, Ordering.gt_then]
    exact Nat.compare_eq_gt.mpr (by omega)

/-- Numerals of one length are ordered like the numbers that they continue, and then like
their bytes. -/
theorem compare_ofDigitChars {cs ds : List Char} (same : cs.length = ds.length)
    (left : ∀ c ∈ cs, c.isDigit = true) (right : ∀ d ∈ ds, d.isDigit = true) (m n : Nat) :
    compare (Nat.ofDigitChars 10 cs m) (Nat.ofDigitChars 10 ds n) =
      (compare m n).then (compareText cs ds) := by
  induction cs generalizing ds m n with
  | nil =>
    obtain rfl := List.length_eq_zero_iff.mp same.symm
    exact (Ordering.then_eq).symm
  | cons c cs ih =>
    cases ds with
    | nil => cases same
    | cons d ds =>
      obtain ⟨a, small, rfl⟩ := exists_digitChar (left c (.head _))
      obtain ⟨b, other, rfl⟩ := exists_digitChar (right d (.head _))
      have later := ih (Nat.succ.inj same) (fun c mem => left c (.tail _ mem))
        (fun d mem => right d (.tail _ mem)) (10 * m + a) (10 * n + b)
      rw [Nat.ofDigitChars_cons_digitChar_of_lt_ten small,
        Nat.ofDigitChars_cons_digitChar_of_lt_ten other, later, compare_shifted small other,
        Ordering.then_assoc, compareText, compareText, List.flatMap_cons, List.flatMap_cons,
        compareLex_append _ _ ((length_digitBytes a small).trans (length_digitBytes b other).symm),
        compare_digitBytes a small b other]

theorem length_numeralBytes {cs : List Char} (digits : ∀ c ∈ cs, c.isDigit = true) :
    (cs.flatMap String.utf8EncodeChar).length = cs.length := by
  induction cs with
  | nil => rfl
  | cons c cs ih =>
    obtain ⟨a, small, rfl⟩ := exists_digitChar (digits c (.head _))
    rw [List.flatMap_cons, List.length_append, length_digitBytes a small,
      ih fun c mem => digits c (.tail _ mem), List.length_cons, Nat.add_comm]

abbrev Layout := List (Nat × Char)

namespace Layout

def Fits : Layout → List Char → Prop
  | [], cs => cs = []
  | (width, separator) :: rest, cs =>
    ∃ digits remaining, cs = digits ++ separator :: remaining ∧ digits.length = width ∧
      (∀ c ∈ digits, c.isDigit = true) ∧ Fits rest remaining

def numbers : Layout → List Char → List Nat
  | [], _ => []
  | (width, _) :: rest, cs =>
    Nat.ofDigitChars 10 (cs.take width) 0 :: numbers rest (cs.drop (width + 1))

/-- One numeral at its place, and the others behind it. -/
theorem fits_drop {rest : Layout} {cs : List Char} {i width : Nat} {separator : Char}
    (digits : ((cs.drop i).take width).all Char.isDigit = true)
    (behind : cs[i + width]? = some separator) (later : rest.Fits (cs.drop (i + width + 1))) :
    Layout.Fits ((width, separator) :: rest) (cs.drop i) := by
  obtain ⟨inside, found⟩ := List.getElem?_eq_some_iff.mp behind
  refine ⟨(cs.drop i).take width, cs.drop (i + width + 1), ?_, ?_, List.all_eq_true.mp digits, later⟩
  · have tail : (cs.drop i).drop width = separator :: cs.drop (i + width + 1) := by
      rw [List.drop_drop, List.drop_eq_getElem_cons inside, found]
    rw [← tail, List.take_append_drop]
  · rw [List.length_take, List.length_drop]
    omega

/-- The byte order of such texts is the order of their numbers from the first to the last. -/
theorem compare_numbers {layout : Layout} {cs ds : List Char} (left : layout.Fits cs)
    (right : layout.Fits ds) :
    List.compareLex compare (layout.numbers cs) (layout.numbers ds) = compareText cs ds := by
  induction layout generalizing cs ds with
  | nil =>
    obtain rfl : cs = [] := left
    obtain rfl : ds = [] := right
    rfl
  | cons part rest ih =>
    obtain ⟨width, separator⟩ := part
    obtain ⟨first, cs, rfl, rfl, firstDigits, left⟩ := left
    obtain ⟨second, ds, rfl, wide, secondDigits, right⟩ := right
    have here := compare_ofDigitChars wide.symm firstDigits secondDigits 0 0
    rw [Nat.compare_eq_eq.mpr rfl, Ordering.eq_then] at here
    have separated : List.compareLex compare (String.utf8EncodeChar separator)
        (String.utf8EncodeChar separator) = .eq := Std.ReflCmp.compare_self
    have dropped (digits remaining : List Char) :
        (digits ++ separator :: remaining).drop (digits.length + 1) = remaining := by
      rw [← List.drop_drop, List.drop_left, List.drop_one, List.tail_cons]
    rw [numbers, numbers, List.compareLex_cons_cons, List.take_left, dropped, ← wide, List.take_left,
      dropped, here, ih left right, compareText, compareText, compareText, List.flatMap_append,
      List.flatMap_append, compareLex_append _ _
        (by rw [length_numeralBytes firstDigits, length_numeralBytes secondDigits, wide]),
      List.flatMap_cons, List.flatMap_cons, compareLex_append _ _ rfl, separated, Ordering.eq_then]

end Layout

end Numerals

end Sql
