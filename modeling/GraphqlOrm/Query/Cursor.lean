import GraphqlOrm.Foundation.Bytes
import GraphqlOrm.Foundation.Checked
import GraphqlOrm.Migration.CreateTable
import GraphqlOrm.Query.Keyset

/-!
# Keyset cursors

The opaque text of a position: a checksummed JSON envelope in hexadecimal digits, bound
to the fingerprint of one order. Floating-point numbers are written and read by the JSON
library, so how they are is a parameter here.
-/
namespace GraphqlOrm.Query

open Json Bytes

/-- The text of floating-point numbers. A number without one, such as an infinity, is
written as null. -/
structure FloatText (φ : Type) where
  write : φ → Option Number
  read : Number → Option φ

def FloatText.Survives {φ : Type} (floats : FloatText φ) (x : φ) : Prop :=
  ∃ n, floats.write x = some n ∧ floats.read n = some x

structure KeysetCursorEnvelope (φ : Type) where
  version : UInt8
  order : String
  values : List (KeysetValue φ)
  checksum : String

section Codec

variable {φ : Type} (floats : FloatText φ)

/-! ### Writing -/

def tagged (tag : String) (content : Value String) : Value String :=
  .object [("t", .text tag), ("v", content)]

def KeysetValue.toJson : KeysetValue φ → Value String
  | .null => .object [("t", .text "Null")]
  | .string value => tagged "String" (.text value)
  | .int value => tagged "Int" (.number (.ofInt value))
  | .float value => tagged "Float" ((floats.write value).elim .null .number)
  | .bool value => tagged "Bool" (.bool value)
  | .uuid value => tagged "Uuid" (.text value)
  | .bytes value => tagged "Bytes" (.array (value.map fun b => .number (.ofNat b.toNat)))

def KeysetCursorEnvelope.toJson (envelope : KeysetCursorEnvelope φ) : Value String :=
  .object [("version", .number (.ofNat envelope.version.toNat)), ("order", .text envelope.order),
    ("values", .array (envelope.values.map (KeysetValue.toJson floats))),
    ("checksum", .text envelope.checksum)]

def cursorChecksum (version : UInt8) (order : String) (values : List (KeysetValue φ)) : String :=
  let payload : Value String := .array [.number (.ofNat version.toNat), .text order,
    .array (values.map (KeysetValue.toJson floats))]
  Migration.hex64 (Migration.fnv1a64 (utf8 payload.write))

def encodeKeysetCursor (order : String) (values : List (KeysetValue φ)) : String :=
  let envelope : KeysetCursorEnvelope φ := ⟨1, order, values, cursorChecksum floats 1 order values⟩
  "gomk1." ++ hexEncode (utf8 (envelope.toJson floats).write)

/-! ### Reading -/

/-- The member of a key; a repeated one is refused. -/
def optionalMember (key : String) (members : List (String × Value String)) :
    Option (Option (Value String)) :=
  match members.filter fun m => m.1 = key with
  | [] => some none
  | [m] => some (some m.2)
  | _ => none

def requiredMember (key : String) (members : List (String × Value String)) :
    Option (Value String) := do
  (← optionalMember key members)

def asU8 (v : Value String) : Option UInt8 := (v.asU64.filter (· < 256)).map UInt8.ofNat

def asFloat : Value String → Option φ
  | .number n => floats.read n
  | _ => none

def asBytes : Value String → Option (List UInt8)
  | .array vs => vs.mapM asU8
  | _ => none

def KeysetValue.ofTagged (tag : String) (content : Option (Value String)) :
    Option (KeysetValue φ) :=
  match content with
  | none => if tag = "Null" then some .null else none
  | some content =>
    if tag = "Null" then (match content with
      | .null => some .null
      | _ => none)
    else if tag = "String" then content.asStr.map .string
    else if tag = "Int" then content.asI64.map .int
    else if tag = "Float" then (asFloat floats content).map .float
    else if tag = "Bool" then content.asBool.map .bool
    else if tag = "Uuid" then content.asStr.map .uuid
    else if tag = "Bytes" then (asBytes content).map .bytes
    else none

/-- Tagged values are read from objects and, as by every derived reader, from arrays. -/
def KeysetValue.ofJson : Value String → Option (KeysetValue φ)
  | .object members => do
    let tag ← (← requiredMember "t" members).asStr
    KeysetValue.ofTagged floats tag (← optionalMember "v" members)
  | .array [tag, content] => do KeysetValue.ofTagged floats (← tag.asStr) (some content)
  | _ => none

def KeysetCursorEnvelope.ofParts (version order values checksum : Value String) :
    Option (KeysetCursorEnvelope φ) := do
  return ⟨← asU8 version, ← order.asStr, ← (← values.asArray).mapM (KeysetValue.ofJson floats),
    ← checksum.asStr⟩

def KeysetCursorEnvelope.ofJson : Value String → Option (KeysetCursorEnvelope φ)
  | .object members => do
    KeysetCursorEnvelope.ofParts floats (← requiredMember "version" members)
      (← requiredMember "order" members) (← requiredMember "values" members)
      (← requiredMember "checksum" members)
  | .array [version, order, values, checksum] =>
    KeysetCursorEnvelope.ofParts floats version order values checksum
  | _ => none

/-- `serde_json::from_slice`. -/
def KeysetCursorEnvelope.fromSlice (payload : List UInt8) : Option (KeysetCursorEnvelope φ) := do
  KeysetCursorEnvelope.ofJson floats (← parse (← fromUtf8 payload))

def decodeKeysetCursor (cursor expectedOrder : String) (expectedValues : Nat) :
    Except OrmErrorCode (List (KeysetValue φ)) :=
  match (stripLead "gomk1." cursor).bind hexDecode with
  | none => .error .cursorInvalid
  | some payload =>
    match KeysetCursorEnvelope.fromSlice floats payload with
    | none => .error .cursorInvalid
    | some envelope =>
      if envelope.version ≠ 1 ∨ envelope.order ≠ expectedOrder ∨
          envelope.values.length ≠ expectedValues ∨
          envelope.checksum ≠ cursorChecksum floats envelope.version envelope.order envelope.values
      then .error .cursorInvalid
      else .ok envelope.values

/-! ### Round trips -/

/-- The integers of the source have 64 bits. -/
def KeysetValue.InRange : KeysetValue φ → Prop
  | .int value => Checked.InRange value
  | _ => True

def KeysetValue.Survives : KeysetValue φ → Prop
  | .float value => floats.Survives value
  | _ => True

variable {floats}

/-- Reading what was written, element by element. -/
theorem mapM_map_some {α β : Type} {f : β → Option α} {g : α → β} {xs : List α}
    (back : ∀ x ∈ xs, f (g x) = some x) : (xs.map g).mapM f = some xs := by
  induction xs with
  | nil => rfl
  | cons x xs ih =>
    have rest := ih fun y mem => back y (List.mem_cons_of_mem x mem)
    rw [List.map_cons, List.mapM_cons, back x (.head _), rest]
    rfl

theorem asU8_ofNat (b : UInt8) : asU8 (.number (.ofNat b.toNat)) = some b := by
  have small : b.toNat < 256 := b.toNat_lt
  rw [asU8, Value.asU64_ofNat (by omega)]
  simp [Option.filter, small]

theorem ofJson_tagged (tag : String) (content : Value String) :
    KeysetValue.ofJson floats (tagged tag content) =
      KeysetValue.ofTagged floats tag (some content) := by
  simp [tagged, KeysetValue.ofJson, requiredMember, optionalMember]

theorem ofJson_toJson {value : KeysetValue φ} (inRange : value.InRange)
    (survives : value.Survives floats) :
    KeysetValue.ofJson floats (value.toJson floats) = some value := by
  cases value with
  | null =>
    simp [KeysetValue.toJson, KeysetValue.ofJson, requiredMember, optionalMember,
      KeysetValue.ofTagged]
  | string value | bool value | uuid value =>
    simp [KeysetValue.toJson, ofJson_tagged, KeysetValue.ofTagged]
  | int value =>
    simp [KeysetValue.toJson, ofJson_tagged, KeysetValue.ofTagged,
      Value.asI64_ofInt inRange.1 inRange.2]
  | float value =>
    obtain ⟨n, written, read⟩ := survives
    simp [KeysetValue.toJson, ofJson_tagged, KeysetValue.ofTagged, written, asFloat, read]
  | bytes value =>
    have all : (value.map fun b => Value.number (.ofNat b.toNat)).mapM asU8 = some value :=
      mapM_map_some fun b _ => asU8_ofNat b
    simp only [KeysetValue.toJson, ofJson_tagged, KeysetValue.ofTagged, asBytes, all]
    rfl

/-- A number without a text is written as null, and null is no number. -/
theorem ofJson_unwritten {x : φ} (unwritten : floats.write x = none) :
    KeysetValue.ofJson floats (KeysetValue.toJson floats (.float x)) = none := by
  simp [KeysetValue.toJson, ofJson_tagged, KeysetValue.ofTagged, unwritten, asFloat]

theorem envelope_ofJson_toJson (envelope : KeysetCursorEnvelope φ) :
    KeysetCursorEnvelope.ofJson floats (envelope.toJson floats) =
      ((envelope.values.map (KeysetValue.toJson floats)).mapM (KeysetValue.ofJson floats)).map
        fun values => { envelope with values } := by
  simp [KeysetCursorEnvelope.toJson, KeysetCursorEnvelope.ofJson, requiredMember,
    optionalMember, KeysetCursorEnvelope.ofParts, asU8_ofNat, Option.map_eq_bind,
    Function.comp_def]

theorem fromSlice_write (envelope : KeysetCursorEnvelope φ) :
    KeysetCursorEnvelope.fromSlice floats (utf8 (envelope.toJson floats).write) =
      ((envelope.values.map (KeysetValue.toJson floats)).mapM (KeysetValue.ofJson floats)).map
        fun values => { envelope with values } := by
  rw [KeysetCursorEnvelope.fromSlice, fromUtf8_utf8, Option.bind_eq_bind, Option.bind_some,
    parse_write]
  exact envelope_ofJson_toJson envelope

theorem payload_encodeKeysetCursor (order : String) (values : List (KeysetValue φ)) :
    (stripLead "gomk1." (encodeKeysetCursor floats order values)).bind hexDecode =
      some (utf8 (KeysetCursorEnvelope.toJson floats
        ⟨1, order, values, cursorChecksum floats 1 order values⟩).write) := by
  rw [encodeKeysetCursor, stripLead_append, Option.bind_some, hexDecode_hexEncode]

/-- A cursor leads back to its position if its numbers survive. -/
theorem decode_encodeKeysetCursor (order : String) {values : List (KeysetValue φ)}
    (inRange : ∀ value ∈ values, value.InRange) (survives : ∀ value ∈ values, value.Survives floats) :
    decodeKeysetCursor floats (encodeKeysetCursor floats order values) order values.length =
      .ok values := by
  have back := mapM_map_some fun value mem =>
    ofJson_toJson (inRange value mem) (survives value mem)
  simp [decodeKeysetCursor, payload_encodeKeysetCursor, fromSlice_write, back]

/-- A cursor of an unwritten number is refused by every call. -/
theorem decode_encodeKeysetCursor_unwritten (order expected : String) (count : Nat)
    {values : List (KeysetValue φ)} {x : φ} (mem : .float x ∈ values)
    (unwritten : floats.write x = none) :
    decodeKeysetCursor floats (encodeKeysetCursor floats order values) expected count =
      .error .cursorInvalid := by
  have lost : (values.map (KeysetValue.toJson floats)).mapM (KeysetValue.ofJson floats) = none := by
    obtain ⟨before, after, rfl⟩ := List.append_of_mem mem
    simp only [List.map_append, List.map_cons, List.mapM_append, List.mapM_cons,
      ofJson_unwritten unwritten]
    simp
  simp [decodeKeysetCursor, payload_encodeKeysetCursor, fromSlice_write, lost]

/-- A text takes at least two characters of the cursor for each of its own. -/
theorem length_le_encodeKeysetCursor (order key : String) :
    2 * key.length ≤ (utf8 (encodeKeysetCursor floats order [.string key])).length := by
  let v : Value String := KeysetCursorEnvelope.toJson floats
        ⟨1, order, [.string key], cursorChecksum floats 1 order [.string key]⟩
  have inside : .text (key.toList.flatMap Text.jsonChar) ∈
      (v.map fun s => s.toList.flatMap Text.jsonChar).tokens := by
    simp only [v, KeysetCursorEnvelope.toJson, KeysetValue.toJson, tagged, List.map_cons,
      List.map_nil, Value.map, mapMembers, mapElements, Value.tokens, memberTokens, elementTokens]
    simp only [List.mem_append, List.mem_cons, true_or, or_true]
  have written : key.length ≤ v.write.length := by
    rw [← String.length_toList]
    exact (length_le_jsonChars _).trans (length_le_print inside)
  refine le_trans ?_ (le_length_utf8 _)
  rw [encodeKeysetCursor, String.length_append, length_hexEncode]
  have wide := le_length_utf8 v.write
  change 2 * key.length ≤ "gomk1.".length + 2 * (utf8 v.write).length
  omega

/-- A cursor is short if the text of its envelope is, whatever the checksum. -/
theorem length_encodeKeysetCursor_le (order : String) (values : List (KeysetValue φ)) {n : Nat}
    (short : ∀ check : String, check.length = 16 →
      (KeysetCursorEnvelope.toJson floats ⟨1, order, values, check⟩).write.length ≤ n) :
    (utf8 (encodeKeysetCursor floats order values)).length ≤ 24 + 32 * n := by
  have digits : (cursorChecksum floats 1 order values).length = 16 := by
    simp [cursorChecksum, Migration.hex64]
  have written := short _ digits
  have payload := length_utf8_le (KeysetCursorEnvelope.toJson floats
    ⟨1, order, values, cursorChecksum floats 1 order values⟩).write
  refine (length_utf8_le _).trans ?_
  rw [encodeKeysetCursor, String.length_append, length_hexEncode]
  have lead : "gomk1.".length = 6 := by decide
  omega


theorem length_cursorText_le (order key check : String) :
    (KeysetCursorEnvelope.toJson floats ⟨1, order, [.string key], check⟩).write.length ≤
      280 + 6 * (order.length + key.length + check.length) := by
  have text (s : String) : (s.toList.flatMap Text.jsonChar).length ≤ 6 * s.length := by
    rw [← String.length_toList]
    exact length_jsonChars_le s.toList
  -- A literal of the envelope takes at most six characters for each of its own.
  have own := text order
  have value := text key
  have tag := text check
  have version : ("version".toList.flatMap Text.jsonChar).length ≤ 6 * 7 := text _
  have mem : ("order".toList.flatMap Text.jsonChar).length ≤ 6 * 5 := text _
  have values : ("values".toList.flatMap Text.jsonChar).length ≤ 6 * 6 := text _
  have checksum : ("checksum".toList.flatMap Text.jsonChar).length ≤ 6 * 8 := text _
  have t : ("t".toList.flatMap Text.jsonChar).length ≤ 6 * 1 := text _
  have v : ("v".toList.flatMap Text.jsonChar).length ≤ 6 * 1 := text _
  have string : ("String".toList.flatMap Text.jsonChar).length ≤ 6 * 6 := text _
  have one : (Number.ofNat 1).literal.toList.length = 1 := rfl
  have number : (UInt8.toNat 1) = 1 := rfl
  simp only [Value.write, KeysetCursorEnvelope.toJson, KeysetValue.toJson, tagged, List.map_cons,
    List.map_nil, Value.map, mapMembers, mapElements, Value.print, Value.tokens, memberTokens,
    elementTokens, String.length_ofList, List.flatMap_cons, List.flatMap_nil,
    List.length_append, Token.chars, quoted, List.length_cons, List.length_nil, List.cons_append,
    List.nil_append, number, one]
  omega

end Codec

end GraphqlOrm.Query
