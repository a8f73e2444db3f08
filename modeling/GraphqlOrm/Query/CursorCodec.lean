import GraphqlOrm.Foundation.Slices
import GraphqlOrm.Query.KeysetWalk

/-!
# The cursor codec

Decoding a cursor as the source does it, with slices at byte offsets, and what a cursor
text that is accepted has gone through.

## Main result

`cursor_codec`: a cursor leads back to its values under its own order and number of values
and under no other, no text stops the decoder, and an accepted text has the right checksum.
-/
namespace GraphqlOrm.Query

open Text Json Bytes

/-! ### Hexadecimal digits by byte offset -/

/-- `u8::is_ascii_hexdigit`. -/
def isAsciiHexdigit (b : UInt8) : Bool :=
  (48 ≤ b.toNat && b.toNat ≤ 57) || (97 ≤ b.toNat && b.toNat ≤ 102) ||
    (65 ≤ b.toNat && b.toNat ≤ 70)

/-- `u8::from_str_radix` of radix 16: an optional plus sign, then digits that fit a byte. -/
def fromStrRadix16 (text : List Char) : Option UInt8 :=
  let digits := if text.head? = some '+' then text.tail else text
  if digits = [] then none
  else ((digits.foldlM (fun n c => (hexValue c).map (16 * n + ·)) 0).filter (· < 256)).map UInt8.ofNat

/-- The bytes at the given offsets; the outer option is empty where a slice would stop the
program. -/
def decodePairs (value : List Char) : List Nat → Option (Option (List UInt8))
  | [] => some (some [])
  | index :: more => do
    let pair ← slice value index (index + 2)
    match fromStrRadix16 pair with
    | none => return none
    | some b => return (← decodePairs value more).map (b :: ·)

def hexDecodeSliced (value : String) : Option (Option (List UInt8)) :=
  if (utf8 value).length % 2 ≠ 0 ∨ (utf8 value).all isAsciiHexdigit = false then some none
  else decodePairs value.toList ((List.range ((utf8 value).length / 2)).map (2 * ·))

/-- A character is a digit exactly if all its bytes are. -/
theorem all_isAsciiHexdigit (c : Char) :
    (String.utf8EncodeChar c).all isAsciiHexdigit = (hexValue c).isSome := by
  have digit : c.isDigit = true ↔ 48 ≤ c.toNat ∧ c.toNat ≤ 57 := by
    simp only [Char.isDigit, Bool.and_eq_true, decide_eq_true_eq, ge_iff_le,
      UInt32.le_iff_toNat_le]
    exact Iff.rfl
  have small : ('a' ≤ c ∧ c ≤ 'f') ↔ 97 ≤ c.toNat ∧ c.toNat ≤ 102 := by
    simp only [Char.le_def, UInt32.le_iff_toNat_le]
    exact Iff.rfl
  have large : ('A' ≤ c ∧ c ≤ 'F') ↔ 65 ≤ c.toNat ∧ c.toNat ≤ 70 := by
    simp only [Char.le_def, UInt32.le_iff_toNat_le]
    exact Iff.rfl
  have value : (hexValue c).isSome = true ↔ (48 ≤ c.toNat ∧ c.toNat ≤ 57) ∨
      (97 ≤ c.toNat ∧ c.toNat ≤ 102) ∨ (65 ≤ c.toNat ∧ c.toNat ≤ 70) := by
    unfold hexValue
    split
    next inside => exact iff_of_true rfl (.inl (digit.mp inside))
    next noDigit =>
      split
      next inside => exact iff_of_true rfl (.inr (.inl (small.mp inside)))
      next noSmall =>
        split
        next inside => exact iff_of_true rfl (.inr (.inr (large.mp inside)))
        next noLarge =>
          refine iff_of_false Bool.false_ne_true ?_
          rintro (inside | inside | inside)
          · exact noDigit (digit.mpr inside)
          · exact noSmall (small.mpr inside)
          · exact noLarge (large.mpr inside)
  rw [Bool.eq_iff_iff, value]
  by_cases ascii : c.toNat < 128
  · rw [utf8EncodeChar_ascii ascii]
    have code : (UInt8.ofNat c.toNat).toNat = c.toNat := by
      rw [UInt8.toNat_ofNat']
      omega
    simp [isAsciiHexdigit, code, or_assoc]
  · constructor
    · intro all
      obtain ⟨b, mem⟩ := List.exists_mem_of_ne_nil _ (@String.utf8EncodeChar_ne_nil c)
      have byte := List.all_eq_true.mp all b mem
      have wide := utf8EncodeChar_wide (by omega) b mem
      simp only [isAsciiHexdigit, Bool.or_eq_true, Bool.and_eq_true, decide_eq_true_eq] at byte
      omega
    · omega

theorem all_hexdigit (value : String) :
    (utf8 value).all isAsciiHexdigit = value.toList.all fun c => (hexValue c).isSome := by
  rw [utf8, List.all_flatMap]
  simp only [all_isAsciiHexdigit]

theorem hexPairs_digits {cs : List Char} {bytes : List UInt8} (read : hexPairs cs = some bytes) :
    cs.length % 2 = 0 ∧ cs.all (fun c => (hexValue c).isSome) = true := by
  induction cs using hexPairs.induct generalizing bytes with
  | case1 => exact ⟨rfl, rfl⟩
  | case2 => cases read
  | case3 high low rest ih =>
    rw [hexPairs] at read
    obtain ⟨h, first, read⟩ := Option.bind_eq_some_iff.mp read
    obtain ⟨l, second, read⟩ := Option.bind_eq_some_iff.mp read
    obtain ⟨others, found, -⟩ := Option.bind_eq_some_iff.mp read
    obtain ⟨even, digits⟩ := ih found
    refine ⟨by simp only [List.length_cons]; omega, ?_⟩
    simp [first, second, digits]

theorem hexValue_lt {c : Char} {n : Nat} (read : hexValue c = some n) : n < 16 := by
  unfold hexValue at read
  split at read
  next inside =>
    simp only [Char.isDigit, Bool.and_eq_true, decide_eq_true_eq, UInt32.le_iff_toNat_le] at inside
    have high : c.toNat ≤ 57 := inside.2
    have zero : '0'.toNat = 48 := rfl
    have value := Option.some.inj read
    omega
  split at read
  next inside =>
    have high : c.toNat ≤ 102 := inside.2
    have first : 'a'.toNat = 97 := rfl
    have value := Option.some.inj read
    omega
  split at read
  next inside =>
    have high : c.toNat ≤ 70 := inside.2
    have first : 'A'.toNat = 65 := rfl
    have value := Option.some.inj read
    omega
  · cases read

/-- A digit has one byte. -/
theorem utf8Size_digit {c : Char} (digit : (hexValue c).isSome = true) : c.utf8Size = 1 := by
  apply utf8Size_ascii
  by_contra wide
  rw [← all_isAsciiHexdigit] at digit
  obtain ⟨b, mem⟩ := List.exists_mem_of_ne_nil _ (@String.utf8EncodeChar_ne_nil c)
  have byte := List.all_eq_true.mp digit b mem
  have large := utf8EncodeChar_wide (by omega) b mem
  simp only [isAsciiHexdigit, Bool.or_eq_true, Bool.and_eq_true, decide_eq_true_eq] at byte
  omega

theorem fromStrRadix16_pair {high low : Char} {h l : Nat} (first : hexValue high = some h)
    (second : hexValue low = some l) :
    fromStrRadix16 [high, low] = some (UInt8.ofNat (16 * h + l)) := by
  have unsigned : high ≠ '+' := by
    rintro rfl
    cases first
  have small := hexValue_lt first
  have small' := hexValue_lt second
  have fits : 16 * h + l < 256 := by omega
  simp [fromStrRadix16, unsigned, first, second, fits, Option.filter]

/-- On digits every slice is a pair of characters, and the pairs are read in turn. -/
theorem decodePairs_eq {rest : List Char} (before : List Char) (even : rest.length % 2 = 0)
    (digits : rest.all (fun c => (hexValue c).isSome) = true) :
    decodePairs (before ++ rest)
        ((List.range (rest.length / 2)).map (byteLength before + 2 * ·)) =
      some (hexPairs rest) := by
  induction rest using hexPairs.induct generalizing before with
  | case1 => rfl
  | case2 => cases even
  | case3 high low rest ih =>
    simp only [List.all_cons, Bool.and_eq_true] at digits
    obtain ⟨first, second, others⟩ := digits
    obtain ⟨h, value⟩ := Option.isSome_iff_exists.mp first
    obtain ⟨l, value'⟩ := Option.isSome_iff_exists.mp second
    have size : byteLength [high, low] = 2 := by
      simp [utf8Size_digit first, utf8Size_digit second]
    have cut := slice_append before [high, low] rest
    rw [size, List.append_assoc] at cut
    have onward := ih (before ++ [high, low]) (by simp only [List.length_cons] at even; omega) others
    rw [List.append_assoc, byteLength_append, size] at onward
    have positions : (List.range ((high :: low :: rest).length / 2)).map (byteLength before + 2 * ·) =
        byteLength before :: (List.range (rest.length / 2)).map (byteLength before + 2 + 2 * ·) := by
      rw [List.length_cons, List.length_cons, show (rest.length + 1 + 1) / 2 = rest.length / 2 + 1 by omega,
        List.range_succ_eq_map, List.map_cons, List.map_map]
      simp only [Nat.mul_zero, Nat.add_zero, List.cons.injEq, true_and]
      apply List.map_congr_left
      intro k _
      simp only [Function.comp_apply]
      omega
    rw [positions, decodePairs]
    change (slice (before ++ ([high, low] ++ rest)) _ _).bind _ = _
    rw [cut, Option.bind_some, fromStrRadix16_pair value value', hexPairs, value, value']
    change (decodePairs (before ++ ([high, low] ++ rest)) _).bind _ = _
    rw [onward]
    cases hexPairs rest <;> rfl

theorem length_utf8_digits {value : String}
    (digits : value.toList.all (fun c => (hexValue c).isSome) = true) :
    (utf8 value).length = value.toList.length := by
  rw [utf8]
  generalize value.toList = cs at digits ⊢
  induction cs with
  | nil => rfl
  | cons c rest ih =>
    rw [List.all_cons, Bool.and_eq_true] at digits
    rw [List.flatMap_cons, List.length_append, String.length_utf8EncodeChar, utf8Size_digit digits.1,
      ih digits.2, List.length_cons, Nat.add_comm]

/-- The slices of the source never stop the program, and give what reading by characters
gives. -/
theorem hexDecodeSliced_eq (value : String) : hexDecodeSliced value = some (hexDecode value) := by
  unfold hexDecodeSliced
  rw [all_hexdigit]
  split
  next refused =>
    cases read : hexDecode value with
    | none => rfl
    | some bytes =>
      obtain ⟨even, digits⟩ := hexPairs_digits read
      rw [length_utf8_digits digits] at refused
      exact absurd refused (by simp [even, digits])
  next accepted =>
    simp only [not_or, not_not, Bool.not_eq_false] at accepted
    obtain ⟨even, digits⟩ := accepted
    rw [length_utf8_digits digits] at even ⊢
    have read := decodePairs_eq [] even digits
    simpa [hexDecode] using read

/-! ### The decoder -/

section Codec

variable {φ : Type} (floats : FloatText φ)

/-- The decoder with the slices of the source; without an answer where one would stop the
program. -/
def decodeKeysetCursorSliced (cursor expectedOrder : String) (expectedValues : Nat) :
    Option (Except OrmErrorCode (List (KeysetValue φ))) := do
  let payload ← match stripLead "gomk1." cursor with
    | none => some none
    | some digits => hexDecodeSliced digits
  return match payload with
  | none => .error .cursorInvalid
  | some payload =>
    match KeysetCursorEnvelope.fromSlice floats payload with
    | none => .error .cursorInvalid
    | some envelope =>
      if envelope.version ≠ 1 ∨ envelope.order ≠ expectedOrder ∨
          envelope.values.length ≠ expectedValues ∨
          envelope.checksum ≠ cursorChecksum floats envelope.version envelope.order envelope.values
      then .error .cursorInvalid
      else .ok envelope.values

theorem decodeKeysetCursorSliced_eq (cursor expectedOrder : String) (expectedValues : Nat) :
    decodeKeysetCursorSliced floats cursor expectedOrder expectedValues =
      some (decodeKeysetCursor floats cursor expectedOrder expectedValues) := by
  unfold decodeKeysetCursorSliced decodeKeysetCursor
  cases stripLead "gomk1." cursor with
  | none => rfl
  | some digits =>
    simp only [hexDecodeSliced_eq, Option.bind_eq_bind, Option.bind_some]
    rfl

def cursorEnvelope (cursor : String) : Option (KeysetCursorEnvelope φ) :=
  ((stripLead "gomk1." cursor).bind hexDecode).bind (KeysetCursorEnvelope.fromSlice floats)

/-- What an accepted cursor has been checked for: its version, its order and its checksum,
recomputed from what was decoded. -/
def Accepted (cursor order : String) (values : List (KeysetValue φ)) : Prop :=
  ∃ checksum, cursorEnvelope floats cursor = some ⟨1, order, values, checksum⟩ ∧
    checksum = cursorChecksum floats 1 order values

variable {floats}

theorem decodeKeysetCursor_eq_ok {cursor order : String} {count : Nat}
    {values : List (KeysetValue φ)}
    (decoded : decodeKeysetCursor floats cursor order count = .ok values) :
    Accepted floats cursor order values ∧ values.length = count := by
  unfold decodeKeysetCursor at decoded
  split at decoded
  · cases decoded
  next payload stripped =>
    split at decoded
    · cases decoded
    next envelope read =>
      split at decoded
      · cases decoded
      next passed =>
        obtain rfl := Except.ok.inj decoded
        simp only [ne_eq, not_or, not_not] at passed
        obtain ⟨version, own, length, checksum⟩ := passed
        refine ⟨⟨envelope.checksum, ?_, ?_⟩, length⟩
        · rw [cursorEnvelope, stripped, Option.bind_some, read, ← version, ← own]
        · rw [checksum, version, own]

theorem decodeKeysetCursor_eq_error {cursor order : String} {count : Nat} {code : OrmErrorCode}
    (refused : decodeKeysetCursor floats cursor order count = .error code) :
    code = .cursorInvalid := by
  unfold decodeKeysetCursor at refused
  split at refused
  · exact (Except.error.inj refused).symm
  split at refused
  · exact (Except.error.inj refused).symm
  split at refused
  · exact (Except.error.inj refused).symm
  · cases refused

/-- A cursor text is accepted for one order and one number of values at most. -/
theorem decodeKeysetCursor_elsewhere {cursor order order' : String} {count count' : Nat}
    {values : List (KeysetValue φ)}
    (decoded : decodeKeysetCursor floats cursor order count = .ok values)
    (other : order' ≠ order ∨ count' ≠ count) :
    decodeKeysetCursor floats cursor order' count' = .error .cursorInvalid := by
  cases again : decodeKeysetCursor floats cursor order' count' with
  | error code => rw [decodeKeysetCursor_eq_error again]
  | ok values' =>
    obtain ⟨⟨checksum, held, -⟩, length⟩ := decodeKeysetCursor_eq_ok decoded
    obtain ⟨⟨checksum', held', -⟩, length'⟩ := decodeKeysetCursor_eq_ok again
    rw [held] at held'
    obtain ⟨-, rfl, rfl, -⟩ := KeysetCursorEnvelope.mk.inj (Option.some.inj held')
    exact absurd (length'.symm.trans length) (by simpa using other)

/-- A cursor leads back to its values, if the texts of its numbers do, under its own order
and number of values and under no other. Decoding stops on no text, and what it accepts has
the checksum of what it contains. -/
theorem cursor_codec (floats : FloatText φ) :
    (∀ (order : String) (values : List (KeysetValue φ)), (∀ value ∈ values, value.InRange) →
      (∀ value ∈ values, value.Survives floats) →
      decodeKeysetCursor floats (encodeKeysetCursor floats order values) order values.length =
          .ok values ∧
        ∀ order' count, order' ≠ order ∨ count ≠ values.length →
          decodeKeysetCursor floats (encodeKeysetCursor floats order values) order' count =
            .error .cursorInvalid) ∧
      (∀ cursor order count, decodeKeysetCursorSliced floats cursor order count =
        some (decodeKeysetCursor floats cursor order count)) ∧
      ∀ cursor order count values, decodeKeysetCursor floats cursor order count = .ok values →
        Accepted floats cursor order values ∧ values.length = count := by
  refine ⟨fun order values inRange survives => ?_, decodeKeysetCursorSliced_eq floats,
    fun _ _ _ _ => decodeKeysetCursor_eq_ok⟩
  have back := decode_encodeKeysetCursor order inRange survives
  exact ⟨back, fun order' count => decodeKeysetCursor_elsewhere back⟩

end Codec

theorem cursor_codec_scores :
    decodeKeysetCursor scoreFloats
        (encodeKeysetCursor scoreFloats "score" [.float (some 1), .string "é", .null]) "score" 3 =
      .ok [.float (some 1), .string "é", .null] := by
  refine ((cursor_codec scoreFloats).1 "score" [.float (some 1), .string "é", .null] ?_ ?_).1
  · simp [KeysetValue.InRange]
  · simp [KeysetValue.Survives, FloatText.Survives, scoreFloats]

end GraphqlOrm.Query
