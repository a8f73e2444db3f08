import GraphqlOrm.Foundation.Bytes
import GraphqlOrm.Foundation.Slices

/-!
# Canonical base64

Bytes as text of 64 characters, and the decoder that takes only the one spelling that the
encoder writes. An index or a slice past the end stops the program and gives nothing.

## Main result

`base64_canonical`: a text is decoded exactly if it is the encoding of few enough bytes, and
then to these.
-/
namespace GraphqlOrm.Runtime

open Bytes

/-- Why a default literal is rejected. -/
inductive RuntimeDefaultProblem where
  | malformed
  | nonCanonical
  | outOfRange
  | nonfinite
  | tooLarge
  | tooDeep
  | duplicateKey
  | impossibleDateTime
  | unsupportedPrecision
  | kindMismatch

def maxBytesDefaultDecoded : Nat := 8 * 1024

def base64Alphabet : List Char :=
  "ABCDEFGHIJKLMNOPQRSTUVWXYZabcdefghijklmnopqrstuvwxyz0123456789+/".toList

/-! ### Slices -/

/-- The pieces of a length, the last one perhaps shorter. Every round takes at least one
element, so the length is enough fuel. -/
def chunksFrom {α : Type} (size : Nat) : Nat → List α → List (List α)
  | 0, _ => []
  | _ + 1, [] => []
  | fuel + 1, x :: xs => (x :: xs).take size :: chunksFrom size fuel ((x :: xs).drop size)

def chunks {α : Type} (size : Nat) (xs : List α) : List (List α) := chunksFrom size xs.length xs

/-- `&xs[..n]`. -/
def sliceTo {α : Type} (xs : List α) (n : Nat) : Option (List α) :=
  if n ≤ xs.length then some (xs.take n) else none

/-! ### The codec -/

def encodeBlock (chunk : List UInt8) : Option (List Char) := do
  let first ← chunk[0]?
  let block := first.toNat <<< 16 ||| (chunk.getD 1 0).toNat <<< 8 ||| (chunk.getD 2 0).toNat
  (List.range 4).mapM fun index =>
    if index ≤ chunk.length then base64Alphabet[block >>> (18 - 6 * index) &&& 0x3f]?
    else some '='

def base64Encode (bytes : List UInt8) : Option String :=
  ((chunks 3 bytes).mapM encodeBlock).map fun blocks => String.ofList blocks.flatten

def base64Value (byte : UInt8) : Option Nat :=
  base64Alphabet.findIdx? fun candidate => candidate.toNat = byte.toNat

def base64Values : List UInt8 → Nat → Option Nat
  | [], value => some value
  | byte :: rest, value => do
    let sextet ← base64Value byte
    base64Values rest (value <<< 6 ||| sextet)

/-- One block; `last` tells whether it ends the text. -/
def decodeBlock (last : Bool) (block : List UInt8) :
    Option (Except RuntimeDefaultProblem (List UInt8)) := do
  let padding := (block.reverse.takeWhile fun byte => byte.toNat = '='.toNat).length
  if padding > 2 ∨ padding > 0 ∧ last = false then return .error .malformed
  else
    let digits ← sliceTo block (4 - padding)
    match base64Values digits 0 with
    | none => return .error .malformed
    | some value =>
      let value := value <<< (6 * padding)
      let decoded := [UInt8.ofNat (value >>> 16), UInt8.ofNat (value >>> 8), UInt8.ofNat value]
      return .ok (← sliceTo decoded (3 - padding))

def decodeBlocks : List (List UInt8) → Option (Except RuntimeDefaultProblem (List UInt8))
  | [] => some (.ok [])
  | block :: rest => do
    match ← decodeBlock rest.isEmpty block with
    | .error problem => return .error problem
    | .ok bytes =>
      match ← decodeBlocks rest with
      | .error problem => return .error problem
      | .ok more => return .ok (bytes ++ more)

def base64DecodeCanonical (text : String) :
    Option (Except RuntimeDefaultProblem (List UInt8)) := do
  let maxEncoded := (maxBytesDefaultDecoded + 2) / 3 * 4
  let bytes := utf8 text
  if bytes.length > maxEncoded then return .error .tooLarge
  else if bytes.length % 4 ≠ 0 then return .error .malformed
  else
    match ← decodeBlocks (chunks 4 bytes) with
    | .error problem => return .error problem
    | .ok out =>
      if out.length > maxBytesDefaultDecoded then return .error .tooLarge
      else if (← base64Encode out) ≠ text then return .error .nonCanonical
      else return .ok out

/-! ### Pieces -/

section Pieces

variable {α : Type} {size : Nat}

theorem chunksFrom_eq (positive : 0 < size) (xs : List α) :
    ∀ fuel, xs.length ≤ fuel → chunksFrom size fuel xs = chunks size xs := by
  have any : ∀ fuel fuel' (xs : List α), xs.length ≤ fuel → xs.length ≤ fuel' →
      chunksFrom size fuel xs = chunksFrom size fuel' xs := by
    intro fuel
    induction fuel with
    | zero =>
      intro fuel' xs enough _
      obtain rfl := List.eq_nil_of_length_eq_zero (Nat.le_zero.mp enough)
      cases fuel' <;> rfl
    | succ fuel ih =>
      intro fuel' xs enough enough'
      cases xs with
      | nil => cases fuel' <;> rfl
      | cons x xs =>
        obtain ⟨fuel', rfl⟩ : ∃ n, fuel' = n + 1 := ⟨fuel' - 1, by simp at enough'; omega⟩
        rw [chunksFrom, chunksFrom, ih fuel']
        · rw [List.length_drop]
          omega
        · rw [List.length_drop]
          omega
  exact fun fuel enough => any fuel xs.length xs enough (Nat.le_refl _)

theorem chunks_append (positive : 0 < size) {piece : List α} (full : piece.length = size)
    (rest : List α) : chunks size (piece ++ rest) = piece :: chunks size rest := by
  obtain ⟨x, xs, rfl⟩ : ∃ x xs, piece = x :: xs := by
    cases piece with
    | nil => exact absurd full (by simp; omega)
    | cons x xs => exact ⟨x, xs, rfl⟩
  rw [chunks, List.cons_append, List.length_cons, chunksFrom, ← List.cons_append, List.take_left' full,
    List.drop_left' full]
  congr 1
  apply chunksFrom_eq positive
  rw [List.length_append]
  omega

theorem chunks_short {x : α} {xs : List α} (short : xs.length < size) :
    chunks size (x :: xs) = [x :: xs] := by
  rw [chunks, List.length_cons, chunksFrom, List.take_of_length_le (by simpa using Nat.succ_le_of_lt short),
    List.drop_of_length_le (by simpa using Nat.succ_le_of_lt short)]
  cases xs.length <;> rfl

end Pieces

/-! ### The encoding, block by block -/

def digit (value : Nat) : Char := base64Alphabet.getD value '='

def encoded : List UInt8 → List Char
  | [] => []
  | [a] => [digit (a.toNat / 4), digit (a.toNat % 4 * 16), '=', '=']
  | [a, b] =>
    [digit (a.toNat / 4), digit (a.toNat % 4 * 16 + b.toNat / 16), digit (b.toNat % 16 * 4), '=']
  | a :: b :: c :: rest =>
    digit (a.toNat / 4) :: digit (a.toNat % 4 * 16 + b.toNat / 16) ::
      digit (b.toNat % 16 * 4 + c.toNat / 64) :: digit (c.toNat % 64) :: encoded rest

def byteOf (c : Char) : UInt8 := UInt8.ofNat c.toNat

/-- What is needed of the 64 digits. -/
theorem digit_facts {value : Nat} (small : value < 64) :
    base64Alphabet[value]? = some (digit value) ∧ (digit value).toNat < 128 ∧
      base64Value (byteOf (digit value)) = some value ∧ (byteOf (digit value)).toNat ≠ '='.toNat := by
  revert value
  decide +kernel

theorem alphabet_get {value : Nat} (small : value < 64) :
    base64Alphabet[value]? = some (digit value) :=
  (digit_facts small).1

theorem block_value {a b c : Nat} (second : b < 256) (third : c < 256) :
    a <<< 16 ||| b <<< 8 ||| c = a * 65536 + b * 256 + c := by
  have low : b <<< 8 ||| c = b * 256 + c := by
    rw [← Nat.shiftLeft_add_eq_or_of_lt (by omega : c < 2 ^ 8), Nat.shiftLeft_eq]
  rw [Nat.or_assoc, low, ← Nat.shiftLeft_add_eq_or_of_lt (by omega : b * 256 + c < 2 ^ 16),
    Nat.shiftLeft_eq, Nat.add_assoc]

theorem sextet_value (block shift : Nat) : block >>> shift &&& 0x3f = block / 2 ^ shift % 64 := by
  rw [Nat.shiftRight_eq_div_pow, show (0x3f : Nat) = 2 ^ 6 - 1 from rfl, Nat.and_two_pow_sub_one_eq_mod]

theorem sextet_get (block shift : Nat) :
    base64Alphabet[block >>> shift &&& 0x3f]? = some (digit (block / 2 ^ shift % 64)) := by
  rw [sextet_value]
  exact alphabet_get (Nat.mod_lt _ (by decide))

/-- The four characters of a block of one, two or three bytes. -/
theorem encodeBlock_eq (a : UInt8) (rest : List UInt8) :
    encodeBlock (a :: rest) =
      ([0, 1, 2, 3].mapM fun index =>
        if index ≤ rest.length + 1 then
          some (digit ((a.toNat * 65536 + (rest.getD 0 0).toNat * 256 + (rest.getD 1 0).toNat) /
            2 ^ (18 - 6 * index) % 64))
        else some '=') := by
  have value := @block_value a.toNat _ _ (rest.getD 0 0).toNat_lt (rest.getD 1 0).toNat_lt
  have opened : encodeBlock (a :: rest) = [0, 1, 2, 3].mapM fun index =>
      if index ≤ rest.length + 1 then
        base64Alphabet[(a.toNat <<< 16 ||| (rest.getD 0 0).toNat <<< 8 ||| (rest.getD 1 0).toNat) >>>
          (18 - 6 * index) &&& 0x3f]?
      else some '=' := rfl
  rw [opened, value]
  simp only [sextet_get]

theorem encodeBlock_encoded (a : UInt8) {rest : List UInt8} (short : rest.length ≤ 2) :
    encodeBlock (a :: rest) = some (encoded (a :: rest)) := by
  have first := a.toNat_lt
  -- A block with fewer bytes has zeros in their place.
  have bits (b c : Nat) (second : b < 256) (third : c < 256) :
      (a.toNat * 65536 + b * 256 + c) / 262144 % 64 = a.toNat / 4 ∧
        (a.toNat * 65536 + b * 256 + c) / 4096 % 64 = a.toNat % 4 * 16 + b / 16 ∧
        (a.toNat * 65536 + b * 256 + c) / 64 % 64 = b % 16 * 4 + c / 64 ∧
        (a.toNat * 65536 + b * 256 + c) % 64 = c % 64 := by
    omega
  rw [encodeBlock_eq]
  match rest, short with
  | [], _ =>
    have zeros := bits 0 0 (by decide) (by decide)
    simp only [Nat.zero_mul, Nat.zero_div, Nat.zero_mod, Nat.add_zero] at zeros
    simp [encoded, zeros]
  | [b], _ =>
    have zero := bits b.toNat 0 b.toNat_lt (by decide)
    simp only [Nat.zero_div, Nat.zero_mod, Nat.add_zero] at zero
    simp [encoded, zero]
  | [b, c], _ => simp [encoded, bits b.toNat c.toNat b.toNat_lt c.toNat_lt]

theorem base64Encode_eq (bytes : List UInt8) :
    base64Encode bytes = some (String.ofList (encoded bytes)) := by
  suffices blocks : ((chunks 3 bytes).mapM encodeBlock).map List.flatten = some (encoded bytes) by
    obtain ⟨pieces, found, whole⟩ := Option.map_eq_some_iff.mp blocks
    rw [base64Encode, found, Option.map_some, whole]
  induction bytes using encoded.induct with
  | case1 => rfl
  | case2 a | case3 a b =>
    rw [chunks_short (by simp)]
    simp [encodeBlock_encoded]
  | case4 a b c rest ih =>
    have pieces : chunks 3 (a :: b :: c :: rest) = [a, b, c] :: chunks 3 rest :=
      chunks_append (by decide : 0 < 3) (rfl : [a, b, c].length = 3) rest
    obtain ⟨later, found, whole⟩ := Option.map_eq_some_iff.mp ih
    rw [pieces, List.mapM_cons, @encodeBlock_encoded a [b, c] (Nat.le_refl 2), found]
    simp [encoded, whole]

/-! ### The decoder on encodings -/

theorem digit_ascii {value : Nat} (small : value < 64) : (digit value).toNat < 128 :=
  (digit_facts small).2.1

theorem base64Value_digit {value : Nat} (small : value < 64) :
    base64Value (byteOf (digit value)) = some value :=
  (digit_facts small).2.2.1

theorem byteOf_digit_no_padding {value : Nat} (small : value < 64) :
    (byteOf (digit value)).toNat ≠ '='.toNat :=
  (digit_facts small).2.2.2

section

variable {sextets : List Nat} (small : ∀ sextet ∈ sextets, sextet < 64)
include small

theorem base64Values_digits (value : Nat) :
    base64Values (sextets.map fun sextet => byteOf (digit sextet)) value =
      some (sextets.foldl (fun value sextet => value * 64 + sextet) value) := by
  induction sextets generalizing value with
  | nil => rfl
  | cons sextet rest ih =>
    have six := small sextet (.head _)
    have joined : value <<< 6 ||| sextet = value * 64 + sextet := by
      rw [← Nat.shiftLeft_add_eq_or_of_lt (by omega : sextet < 2 ^ 6), Nat.shiftLeft_eq]
    rw [List.map_cons, base64Values, base64Value_digit six]
    simp only [Option.bind_eq_bind, Option.bind_some, joined, List.foldl_cons]
    exact ih (fun sextet mem => small sextet (.tail _ mem)) _

theorem padding_length (padding : Nat) :
    (((sextets.map fun sextet => byteOf (digit sextet)) ++
      List.replicate padding (byteOf '=')).reverse.takeWhile
        fun byte => byte.toNat = '='.toNat).length = padding := by
  have pads : ∀ byte ∈ List.replicate padding (byteOf '='),
      decide (byte.toNat = '='.toNat) = true := by
    intro byte mem
    rw [List.eq_of_mem_replicate mem]
    rfl
  rw [List.reverse_append, List.reverse_replicate, List.takeWhile_append_of_pos pads,
    List.length_append, List.length_replicate, Nat.add_eq_left, List.length_eq_zero_iff]
  -- The digit before the padding stops the count.
  cases stop : (sextets.map fun sextet => byteOf (digit sextet)).reverse with
  | nil => rfl
  | cons byte rest =>
    have mem : byte ∈ (sextets.map fun sextet => byteOf (digit sextet)).reverse := by simp [stop]
    obtain ⟨sextet, inside, rfl⟩ := List.mem_map.mp (List.mem_reverse.mp mem)
    rw [List.takeWhile_cons, if_neg]
    simpa using byteOf_digit_no_padding (small sextet inside)

/-- A block of digits and padding gives the bytes of its value. -/
theorem decodeBlock_digits {padding value : Nat} (whole : sextets.length + padding = 4) (short : padding ≤ 2) {last : Bool}
    (ends : padding = 0 ∨ last = true)
    (same : sextets.foldl (fun value sextet => value * 64 + sextet) 0 * 2 ^ (6 * padding) = value) :
    decodeBlock last ((sextets.map fun sextet => byteOf (digit sextet)) ++
        List.replicate padding (byteOf '=')) =
      some (.ok ([UInt8.ofNat (value / 65536), UInt8.ofNat (value / 256), UInt8.ofNat value].take
        (3 - padding))) := by
  have front : sliceTo ((sextets.map fun sextet => byteOf (digit sextet)) ++
      List.replicate padding (byteOf '=')) (4 - padding) =
        some (sextets.map fun sextet => byteOf (digit sextet)) := by
    rw [sliceTo, if_pos (by simp; omega), List.take_left' (by simp; omega)]
  have accepted : ¬(padding > 2 ∨ padding > 0 ∧ last = false) := by
    rintro (long | ⟨some, early⟩)
    · omega
    · rcases ends with rfl | late
      · cases some
      · rw [late] at early
        cases early
  simp only [decodeBlock, padding_length small, if_neg accepted, front, Option.bind_eq_bind,
    Option.bind_some, base64Values_digits small, Nat.shiftLeft_eq, same,
    Nat.shiftRight_eq_div_pow]
  rw [sliceTo, if_pos (by simp)]
  rfl

end

/-- The three bytes of a block's value. -/
theorem bytes_value (a b c : UInt8) : [UInt8.ofNat ((a.toNat * 65536 + b.toNat * 256 + c.toNat) / 65536),
    UInt8.ofNat ((a.toNat * 65536 + b.toNat * 256 + c.toNat) / 256),
    UInt8.ofNat (a.toNat * 65536 + b.toNat * 256 + c.toNat)] = [a, b, c] := by
  have first := a.toNat_lt
  have second := b.toNat_lt
  have third := c.toNat_lt
  simp only [List.cons.injEq, UInt8.ofNat_eq_iff_mod_eq_toNat, and_true]
  omega

theorem decodeBlock_three (last : Bool) (a b c : UInt8) :
    decodeBlock last ((encoded [a, b, c]).map byteOf) = some (.ok [a, b, c]) := by
  have first := a.toNat_lt
  have second := b.toNat_lt
  have third := c.toNat_lt
  have small : ∀ sextet ∈ [a.toNat / 4, a.toNat % 4 * 16 + b.toNat / 16,
      b.toNat % 16 * 4 + c.toNat / 64, c.toNat % 64], sextet < 64 := by
    intro sextet mem
    simp only [List.mem_cons, List.not_mem_nil, or_false] at mem
    omega
  have value : (((0 * 64 + a.toNat / 4) * 64 + (a.toNat % 4 * 16 + b.toNat / 16)) * 64 +
      (b.toNat % 16 * 4 + c.toNat / 64)) * 64 + c.toNat % 64 =
        a.toNat * 65536 + b.toNat * 256 + c.toNat := by
    omega
  have read := @decodeBlock_digits _ small 0 (a.toNat * 65536 + b.toNat * 256 + c.toNat) rfl
    (by decide) last (.inl rfl) (by simpa using value)
  rw [bytes_value] at read
  exact read

theorem decodeBlock_two (a b : UInt8) :
    decodeBlock true ((encoded [a, b]).map byteOf) = some (.ok [a, b]) := by
  have first := a.toNat_lt
  have second := b.toNat_lt
  have small : ∀ sextet ∈ [a.toNat / 4, a.toNat % 4 * 16 + b.toNat / 16, b.toNat % 16 * 4],
      sextet < 64 := by
    intro sextet mem
    simp only [List.mem_cons, List.not_mem_nil, or_false] at mem
    omega
  have value : (((0 * 64 + a.toNat / 4) * 64 + (a.toNat % 4 * 16 + b.toNat / 16)) * 64 +
      b.toNat % 16 * 4) * 64 = a.toNat * 65536 + b.toNat * 256 := by
    omega
  have read := @decodeBlock_digits _ small 1 (a.toNat * 65536 + b.toNat * 256 + (0 : UInt8).toNat)
    rfl (by decide) true (.inr rfl) (by simpa using value)
  rw [bytes_value] at read
  exact read

theorem decodeBlock_one (a : UInt8) :
    decodeBlock true ((encoded [a]).map byteOf) = some (.ok [a]) := by
  have first := a.toNat_lt
  have small : ∀ sextet ∈ [a.toNat / 4, a.toNat % 4 * 16], sextet < 64 := by
    intro sextet mem
    simp only [List.mem_cons, List.not_mem_nil, or_false] at mem
    omega
  have value : ((0 * 64 + a.toNat / 4) * 64 + a.toNat % 4 * 16) * 4096 = a.toNat * 65536 := by
    omega
  have read := @decodeBlock_digits _ small 2
    (a.toNat * 65536 + (0 : UInt8).toNat * 256 + (0 : UInt8).toNat) rfl (by decide) true (.inr rfl)
    (by simpa using value)
  rw [bytes_value] at read
  exact read

theorem decodeBlocks_encoded (bytes : List UInt8) :
    decodeBlocks (chunks 4 ((encoded bytes).map byteOf)) = some (.ok bytes) := by
  induction bytes using encoded.induct with
  | case1 => rfl
  | case2 a =>
    have piece : chunks 4 ((encoded [a]).map byteOf) = [(encoded [a]).map byteOf] :=
      chunks_short (by simp)
    rw [piece, decodeBlocks, List.isEmpty_nil, decodeBlock_one]
    rfl
  | case3 a b =>
    have piece : chunks 4 ((encoded [a, b]).map byteOf) = [(encoded [a, b]).map byteOf] :=
      chunks_short (by simp)
    rw [piece, decodeBlocks, List.isEmpty_nil, decodeBlock_two]
    rfl
  | case4 a b c rest ih =>
    have pieces : chunks 4 ((encoded (a :: b :: c :: rest)).map byteOf) =
        (encoded [a, b, c]).map byteOf :: chunks 4 ((encoded rest).map byteOf) :=
      chunks_append (by decide : 0 < 4) (rfl : ((encoded [a, b, c]).map byteOf).length = 4) _
    rw [pieces, decodeBlocks, decodeBlock_three, ih]
    rfl

/-! ### Texts -/

theorem encoded_ascii (bytes : List UInt8) : ∀ c ∈ encoded bytes, c.toNat < 128 := by
  have pad : '='.toNat < 128 := by decide
  induction bytes using encoded.induct with
  | case1 => exact fun c mem => absurd mem List.not_mem_nil
  | case2 a =>
    have first := a.toNat_lt
    simp only [encoded, List.forall_mem_cons]
    exact ⟨digit_ascii (by omega), digit_ascii (by omega), pad, pad, by simp⟩
  | case3 a b =>
    have first := a.toNat_lt
    have second := b.toNat_lt
    simp only [encoded, List.forall_mem_cons]
    exact ⟨digit_ascii (by omega), digit_ascii (by omega), digit_ascii (by omega), pad, by simp⟩
  | case4 a b c rest ih =>
    have first := a.toNat_lt
    have second := b.toNat_lt
    have third := c.toNat_lt
    simp only [encoded, List.forall_mem_cons]
    exact ⟨digit_ascii (by omega), digit_ascii (by omega), digit_ascii (by omega),
      digit_ascii (by omega), ih⟩

theorem utf8_ascii {cs : List Char} (ascii : ∀ c ∈ cs, c.toNat < 128) :
    utf8 (String.ofList cs) = cs.map byteOf := by
  rw [utf8, String.toList_ofList]
  induction cs with
  | nil => rfl
  | cons c cs ih =>
    rw [List.flatMap_cons, Text.utf8EncodeChar_ascii (ascii c (.head _)),
      ih fun d mem => ascii d (.tail _ mem)]
    rfl

theorem length_encoded (bytes : List UInt8) :
    (encoded bytes).length = (bytes.length + 2) / 3 * 4 := by
  induction bytes using encoded.induct with
  | case1 => rfl
  | case2 a | case3 a b => simp [encoded]
  | case4 a b c rest ih =>
    simp only [encoded, List.length_cons, ih]
    omega

theorem base64DecodeCanonical_encoded {bytes : List UInt8}
    (few : bytes.length ≤ maxBytesDefaultDecoded) :
    base64DecodeCanonical (String.ofList (encoded bytes)) = some (.ok bytes) := by
  have text := utf8_ascii (encoded_ascii bytes)
  have size : ((encoded bytes).map byteOf).length = (bytes.length + 2) / 3 * 4 := by
    rw [List.length_map, length_encoded]
  have fits : ¬(bytes.length + 2) / 3 * 4 > (maxBytesDefaultDecoded + 2) / 3 * 4 := by omega
  have whole : ¬(bytes.length + 2) / 3 * 4 % 4 ≠ 0 := by omega
  rw [base64DecodeCanonical]
  simp only [text, size, if_neg fits, if_neg whole, decodeBlocks_encoded, Option.bind_eq_bind,
    Option.bind_some, if_neg (Nat.not_lt.mpr few), base64Encode_eq, ne_eq, not_true_eq_false,
    if_false]
  rfl

/-- The decoder runs to its end on every text. -/
theorem decodeBlock_isSome (last : Bool) {block : List UInt8} (four : block.length = 4) :
    (decodeBlock last block).isSome = true := by
  rw [decodeBlock]
  simp only
  split
  · rfl
  next accepted =>
    have front : sliceTo block (4 - (block.reverse.takeWhile fun byte =>
        byte.toNat = '='.toNat).length) = some (block.take (4 - (block.reverse.takeWhile fun byte =>
          byte.toNat = '='.toNat).length)) := by
      rw [sliceTo, if_pos (by omega)]
    rw [front, Option.bind_eq_bind, Option.bind_some]
    split
    · rfl
    · rw [sliceTo, if_pos (by simp)]
      rfl

theorem decodeBlocks_isSome {blocks : List (List UInt8)} (four : ∀ block ∈ blocks, block.length = 4) :
    (decodeBlocks blocks).isSome = true := by
  induction blocks with
  | nil => rfl
  | cons block rest ih =>
    obtain ⟨first, found⟩ := Option.isSome_iff_exists.mp
      (decodeBlock_isSome rest.isEmpty (four block (.head _)))
    obtain ⟨later, found'⟩ := Option.isSome_iff_exists.mp
      (ih fun block mem => four block (.tail _ mem))
    rw [decodeBlocks, found, found']
    cases first with
    | error problem => rfl
    | ok bytes => cases later <;> rfl

theorem chunks_full {α : Type} {size : Nat} (positive : 0 < size) {xs : List α}
    (whole : xs.length % size = 0) : ∀ piece ∈ chunks size xs, piece.length = size := by
  induction length : xs.length using Nat.strong_induction_on generalizing xs with
  | _ n ih =>
    cases xs with
    | nil => exact fun piece mem => absurd mem List.not_mem_nil
    | cons x rest =>
      have enough : size ≤ (x :: rest).length := by
        by_contra short
        rw [Nat.mod_eq_of_lt (by omega)] at whole
        cases whole
      have split := List.take_append_drop size (x :: rest)
      have full : ((x :: rest).take size).length = size := List.length_take_of_le enough
      rw [← split, chunks_append positive full]
      intro piece mem
      rcases List.mem_cons.mp mem with rfl | later
      · exact full
      · have shorter : ((x :: rest).drop size).length = n - size := by rw [List.length_drop, length]
        apply ih (n - size) (by rw [length] at enough; omega) _ shorter piece later
        rw [List.length_drop, ← Nat.mod_eq_sub_mod enough]
        exact whole

theorem base64DecodeCanonical_isSome (text : String) :
    (base64DecodeCanonical text).isSome = true := by
  rw [base64DecodeCanonical]
  split
  · rfl
  split
  · rfl
  next whole =>
    rw [not_not] at whole
    obtain ⟨read, found⟩ := Option.isSome_iff_exists.mp
      (decodeBlocks_isSome (chunks_full (by decide) whole))
    rw [found, Option.bind_eq_bind, Option.bind_some]
    cases read with
    | error problem => rfl
    | ok out =>
      simp only [base64Encode_eq, Option.bind_eq_bind, Option.bind_some]
      split
      · rfl
      split <;> rfl

theorem base64DecodeCanonical_eq_ok {text : String} {bytes : List UInt8}
    (read : base64DecodeCanonical text = some (.ok bytes)) :
    bytes.length ≤ maxBytesDefaultDecoded ∧ text = String.ofList (encoded bytes) := by
  rw [base64DecodeCanonical] at read
  split at read
  · cases read
  split at read
  · cases read
  obtain ⟨blocks, found, read⟩ := Option.bind_eq_some_iff.mp read
  cases blocks with
  | error problem => cases read
  | ok out =>
    simp only [base64Encode_eq, Option.bind_eq_bind, Option.bind_some] at read
    split at read
    · cases read
    next few =>
      split at read
      · cases read
      next same =>
        cases read
        exact ⟨Nat.not_lt.mp few, (not_not.mp same).symm⟩

/-- The encoder always gives a text and the decoder an answer. Up to 8192 bytes come back
from their encoding, and the texts that are decoded are these encodings. -/
theorem base64_canonical :
    (∀ bytes, ∃ text, base64Encode bytes = some text ∧
      (bytes.length ≤ maxBytesDefaultDecoded → base64DecodeCanonical text = some (.ok bytes))) ∧
    (∀ text, (base64DecodeCanonical text).isSome = true) ∧
    ∀ text, (∃ bytes, base64DecodeCanonical text = some (.ok bytes)) ↔
      ∃ bytes, bytes.length ≤ maxBytesDefaultDecoded ∧ base64Encode bytes = some text := by
  refine ⟨?_, base64DecodeCanonical_isSome, ?_⟩
  · intro bytes
    exact ⟨_, base64Encode_eq bytes, base64DecodeCanonical_encoded⟩
  · intro text
    constructor
    · rintro ⟨bytes, read⟩
      obtain ⟨few, rfl⟩ := base64DecodeCanonical_eq_ok read
      exact ⟨bytes, few, base64Encode_eq bytes⟩
    · rintro ⟨bytes, few, written⟩
      rw [base64Encode_eq, Option.some.injEq] at written
      subst written
      exact ⟨bytes, base64DecodeCanonical_encoded few⟩

/-- One byte more than the decoder takes does not come back. -/
theorem base64_too_large :
    ∃ bytes : List UInt8, ∃ text, base64Encode bytes = some text ∧
      ∀ read, base64DecodeCanonical text ≠ some (.ok read) := by
  refine ⟨List.replicate 8193 0, _, base64Encode_eq _, ?_⟩
  intro read decoded
  obtain ⟨few, same⟩ := base64DecodeCanonical_eq_ok decoded
  have same := String.ofList_injective same
  have back := decodeBlocks_encoded (List.replicate 8193 0)
  rw [same, decodeBlocks_encoded] at back
  cases back
  rw [List.length_replicate] at few
  revert few
  decide

end GraphqlOrm.Runtime
