import GraphqlOrm.Foundation.JsonText

/-!
# Bytes

Text as UTF-8 and bytes as hexadecimal digits, with the readers that undo them.
-/
namespace Bytes

open Text Json

/-- `str::as_bytes`. -/
def utf8 (s : String) : List UInt8 := s.toList.flatMap String.utf8EncodeChar

/-- `str::from_utf8`. -/
def fromUtf8 (bytes : List UInt8) : Option String := String.fromUTF8? bytes.toByteArray

theorem fromUtf8_utf8 (s : String) : fromUtf8 (utf8 s) = some s := by
  have bytes : (utf8 s).toByteArray = s.toByteArray := by
    conv_rhs => rw [← String.ofList_toList (s := s), String.toByteArray_ofList]
    rfl
  have valid : (utf8 s).toByteArray.IsValidUTF8 := by
    rw [bytes]
    exact s.isValidUTF8
  rw [fromUtf8, String.fromUTF8?, dif_pos valid, Option.some.injEq, ← String.toByteArray_inj]
  exact bytes

theorem utf8_injective {s t : String} (same : utf8 s = utf8 t) : s = t := by
  have read := congrArg fromUtf8 same
  rw [fromUtf8_utf8, fromUtf8_utf8] at read
  exact Option.some.inj read

theorem utf8_append (s t : String) : utf8 (s ++ t) = utf8 s ++ utf8 t := by
  simp [utf8]

theorem le_length_utf8 (s : String) : s.length ≤ (utf8 s).length := by
  rw [utf8, ← String.length_toList]
  induction s.toList with
  | nil => simp
  | cons c cs ih =>
    have filled := c.utf8Size_pos
    simp only [List.flatMap_cons, List.length_append, String.length_utf8EncodeChar, List.length_cons]
    omega

theorem length_utf8_le (s : String) : (utf8 s).length ≤ 4 * s.length := by
  rw [utf8, ← String.length_toList]
  induction s.toList with
  | nil => simp
  | cons c cs ih =>
    have small := c.utf8Size_le_four
    simp only [List.flatMap_cons, List.length_append, String.length_utf8EncodeChar, List.length_cons]
    omega

/-! ### Hexadecimal digits -/

def hexByte (b : UInt8) : List Char := [hexDigit (b.toNat / 16), hexDigit (b.toNat % 16)]

def hexEncode (bytes : List UInt8) : String := String.ofList (bytes.flatMap hexByte)

/-- Two digits for each byte; anything else is refused. -/
def hexPairs : List Char → Option (List UInt8)
  | [] => some []
  | [_] => none
  | high :: low :: rest => do
    let h ← hexValue high
    let l ← hexValue low
    return UInt8.ofNat (16 * h + l) :: (← hexPairs rest)

def hexDecode (text : String) : Option (List UInt8) := hexPairs text.toList

theorem hexDecode_hexEncode (bytes : List UInt8) : hexDecode (hexEncode bytes) = some bytes := by
  rw [hexDecode, hexEncode, String.toList_ofList]
  induction bytes with
  | nil => rfl
  | cons b bytes ih =>
    have small := b.toNat_lt
    have high : hexValue (hexDigit (b.toNat / 16)) = some (b.toNat / 16) :=
      hexValue_hexDigit (by omega)
    have low : hexValue (hexDigit (b.toNat % 16)) = some (b.toNat % 16) :=
      hexValue_hexDigit (by omega)
    have whole : UInt8.ofNat (16 * (b.toNat / 16) + b.toNat % 16) = b := by
      rw [show 16 * (b.toNat / 16) + b.toNat % 16 = b.toNat by omega, UInt8.ofNat_toNat]
    rw [List.flatMap_cons, hexByte, List.cons_append, List.singleton_append, hexPairs, high, low, ih]
    simp only [Option.bind_eq_bind, Option.bind_some, whole]
    rfl

theorem length_hexEncode (bytes : List UInt8) : (hexEncode bytes).length = 2 * bytes.length := by
  rw [hexEncode, String.length_ofList]
  induction bytes with
  | nil => rfl
  | cons b bytes ih => simp [hexByte, ih]; omega

/-- `String::len`. -/
theorem utf8ByteSize_ofList (cs : List Char) :
    (String.ofList cs).utf8ByteSize = (cs.map Char.utf8Size).sum := by
  induction cs with
  | nil => rfl
  | cons c cs ih =>
    rw [String.ofList_cons, String.utf8ByteSize_append, String.utf8ByteSize_singleton, ih,
      List.map_cons, List.sum_cons]

theorem utf8Size_hexDigit {n : Nat} (small : n < 16) : (hexDigit n).utf8Size = 1 := by
  interval_cases n <;> rfl

theorem utf8ByteSize_hexEncode (bytes : List UInt8) :
    (hexEncode bytes).utf8ByteSize = 2 * bytes.length := by
  rw [hexEncode, utf8ByteSize_ofList]
  induction bytes with
  | nil => rfl
  | cons b bytes ih =>
    have small := b.toNat_lt
    rw [List.flatMap_cons, List.map_append, List.sum_append, ih, hexByte]
    simp only [List.map_cons, List.map_nil, List.sum_cons, List.sum_nil,
      utf8Size_hexDigit (show b.toNat / 16 < 16 by omega),
      utf8Size_hexDigit (show b.toNat % 16 < 16 by omega), List.length_cons]
    omega

/-! ### Prefixes and suffixes -/

/-- `str::strip_prefix`. -/
def stripLead (lead text : String) : Option String :=
  (lead.toList.isPrefixOf? text.toList).map String.ofList

@[simp] theorem stripLead_append (lead text : String) :
    stripLead lead (lead ++ text) = some text := by
  have stripped (cs ds : List Char) : cs.isPrefixOf? (cs ++ ds) = some ds := by
    induction cs with
    | nil => rfl
    | cons c cs ih => simp [List.isPrefixOf?, ih]
  simp [stripLead, stripped]

theorem stripLead_eq_some {lead text rest : String} (stripped : stripLead lead text = some rest) :
    text = lead ++ rest := by
  have split (cs ds es : List Char) (found : cs.isPrefixOf? ds = some es) : ds = cs ++ es := by
    induction cs generalizing ds with
    | nil => simpa [List.isPrefixOf?] using found
    | cons c cs ih =>
      cases ds with
      | nil => simp [List.isPrefixOf?] at found
      | cons d ds =>
        simp only [List.isPrefixOf?] at found
        split at found
        next same => rw [ih ds found, eq_of_beq same, List.cons_append]
        · cases found
  obtain ⟨chars, found, rfl⟩ := Option.map_eq_some_iff.mp stripped
  apply String.toList_injective
  simp [split _ _ _ found]

/-- `str::strip_suffix`. -/
def stripTail (tail text : String) : Option String :=
  (stripLead (String.ofList tail.toList.reverse) (String.ofList text.toList.reverse)).map
    fun rest => String.ofList rest.toList.reverse

@[simp] theorem stripTail_append (text tail : String) :
    stripTail tail (text ++ tail) = some text := by
  have turned : String.ofList (text ++ tail).toList.reverse =
      String.ofList tail.toList.reverse ++ String.ofList text.toList.reverse := by
    apply String.toList_injective
    simp
  rw [stripTail, turned, stripLead_append]
  simp

theorem stripTail_eq_some {tail text front : String} (stripped : stripTail tail text = some front) :
    text = front ++ tail := by
  obtain ⟨rest, found, rfl⟩ := Option.map_eq_some_iff.mp stripped
  have turned := congrArg String.toList (stripLead_eq_some found)
  rw [String.toList_ofList, String.toList_append, String.toList_ofList] at turned
  have straight := congrArg List.reverse turned
  rw [List.reverse_reverse, List.reverse_append, List.reverse_reverse] at straight
  apply String.toList_injective
  rw [straight, String.toList_append, String.toList_ofList]

end Bytes
