import Mathlib.Data.List.Basic

/-!
# Numbers padded with zeros

Decimal numbers of at least a given width. Leading zeros do not change the number that the digits
make, so the number is determined by its text.
-/
namespace FixedWidth

def padded (width n : Nat) : List Char :=
  List.replicate (width - (Nat.toDigits 10 n).length) '0' ++ Nat.toDigits 10 n

def zeroPadded (width : Nat) (value : Int) : List Char :=
  if value < 0 then '-' :: padded (width - 1) value.natAbs else padded width value.natAbs

theorem ofDigitChars_padded (width n : Nat) : Nat.ofDigitChars 10 (padded width n) 0 = n := by
  rw [padded, Nat.ofDigitChars_append, Nat.ofDigitChars_replicate_zero, Nat.mul_zero,
    Nat.ofDigitChars_ten_toDigits]

theorem padded_injective {width n m : Nat} (same : padded width n = padded width m) : n = m := by
  rw [← ofDigitChars_padded width n, same, ofDigitChars_padded]

theorem isDigit_of_mem_padded {width n : Nat} {c : Char} (mem : c ∈ padded width n) :
    c.isDigit = true := by
  rcases List.mem_append.mp mem with zero | digit
  · rw [List.eq_of_mem_replicate zero]
    rfl
  · exact Nat.isDigit_of_mem_toDigits (by decide) (by decide) digit

theorem zeroPadded_injective {width : Nat} {a b : Int} (same : zeroPadded width a = zeroPadded width b) :
    a = b := by
  -- No digit is a minus.
  have other {width n : Nat} {rest : List Char} (equal : padded width n = '-' :: rest) : False := by
    have digit := isDigit_of_mem_padded (equal ▸ .head _ : '-' ∈ padded width n)
    cases digit
  unfold zeroPadded at same
  split at same
  next negative =>
    split at same
    · have size := padded_injective (List.cons.inj same).2
      omega
    · exact (other same.symm).elim
  next positive =>
    split at same
    · exact (other same).elim
    · have size := padded_injective same
      omega

/-- The plain text of an integer has no zeros in front. -/
theorem toString_eq (value : Int) : toString value = String.ofList (zeroPadded 0 value) := by
  have plain (n : Nat) : padded 0 n = Nat.toDigits 10 n := by
    rw [padded, Nat.zero_sub, List.replicate_zero, List.nil_append]
  apply String.toList_injective
  unfold zeroPadded
  rw [plain, String.toList_ofList]
  cases value with
  | ofNat n => exact Nat.toList_repr
  | negSucc n =>
    rw [if_pos (Int.negSucc_lt_zero n)]
    change ("-" ++ (n + 1).repr).toList = _
    rw [String.toList_append, Nat.toList_repr]
    rfl

theorem toString_injective {a b : Int} (same : toString a = toString b) : a = b := by
  rw [toString_eq, toString_eq, String.ofList_inj] at same
  exact zeroPadded_injective same

end FixedWidth
