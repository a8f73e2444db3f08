import GraphqlOrm.Decimals.PlainDecimal
import GraphqlOrm.Foundation.Bytes
import GraphqlOrm.Foundation.UuidText

/-!
# Identifiers of composite keys

One text for an ordered list of key values. Every component opens with a tag of its own;
texts and documents carry their length, and no other component contains the separator.

## Main result

`compositeKeyId_injective`: equal identifiers come from keys of one length with the same
components.
-/
namespace GraphqlOrm.Keys

open Bytes Decimals Text

/-- The values that statements bind. A floating-point number is its bits. -/
inductive SqlValue {δ : Type} (rust : DecimalLibrary δ) where
  | string (value : String)
  | stringNull
  | bytes (value : List UInt8)
  | bytesNull
  | json (value : Json.Value String)
  | jsonNull
  | uuid (value : BitVec 128)
  | uuidNull
  | int (value : Int)
  | intNull
  | float (bits : BitVec 64)
  | floatNull
  | decimal (value : DecimalValue rust)
  | decimalNull (definition : DecimalDef)
  | bool (value : Bool)
  | boolNull
  | null

def binaryKeyId (value : List UInt8) : String := "bin:" ++ hexEncode value

def byteSize (s : String) : Nat := byteLength s.toList

variable {δ : Type} (rust : DecimalLibrary δ)

def component : SqlValue rust → String
  | .string value => "s" ++ (byteSize value).repr ++ ":" ++ value
  | .bytes value => binaryKeyId value
  | .uuid value => "u:" ++ UuidText.hyphenated value
  | .int value => "i:" ++ value.repr
  | .float bits => "f:" ++ String.ofList (UuidText.hexDigits 16 bits.toNat)
  | .decimal value =>
    "d" ++ value.definition.precision.repr ++ ":" ++ value.definition.scale.repr ++ ":" ++
      rust.toString value.value
  | .bool value => "b:" ++ if value then "true" else "false"
  | .json value => "j" ++ (byteSize value.write).repr ++ ":" ++ value.write
  | .stringNull | .bytesNull | .jsonNull | .uuidNull | .intNull | .floatNull | .decimalNull _
  | .boolNull | .null => "n"

def compositeKeyId (values : List (SqlValue rust)) : String :=
  "key:" ++ join "|" (values.map (component rust))

/-! ### Components -/

/-- A component as keys compare it: nulls are one value, and a decimal is its definition and
its printed value. -/
inductive Component where
  | string (value : String)
  | bytes (value : List UInt8)
  | uuid (value : BitVec 128)
  | int (value : Int)
  | float (bits : BitVec 64)
  | decimal (definition : DecimalDef) (printed : String)
  | bool (value : Bool)
  | json (value : Json.Value String)
  | null

def SqlValue.toComponent {rust : DecimalLibrary δ} : SqlValue rust → Component
  | .string value => .string value
  | .bytes value => .bytes value
  | .uuid value => .uuid value
  | .int value => .int value
  | .float bits => .float bits
  | .decimal value => .decimal value.definition (rust.toString value.value)
  | .bool value => .bool value
  | .json value => .json value
  | .stringNull | .bytesNull | .jsonNull | .uuidNull | .intNull | .floatNull | .decimalNull _
  | .boolNull | .null => .null

namespace Component

def tag : Component → String
  | string value => "s" ++ (byteSize value).repr
  | bytes _ => "bin"
  | uuid _ => "u"
  | int _ => "i"
  | float _ => "f"
  | decimal definition _ => "d" ++ definition.precision.repr
  | bool _ => "b"
  | json value => "j" ++ (byteSize value.write).repr
  | null => "n"

def payload : Component → String
  | string value => value
  | bytes value => hexEncode value
  | uuid value => UuidText.hyphenated value
  | int value => value.repr
  | float bits => String.ofList (UuidText.hexDigits 16 bits.toNat)
  | decimal definition printed => definition.scale.repr ++ ":" ++ printed
  | bool value => if value then "true" else "false"
  | json value => value.write
  | null => ""

def isNull : Component → Bool
  | null => true
  | _ => false

def text (k : Component) : String := k.tag ++ if k.isNull then "" else ":" ++ k.payload

/-- The payload says where it ends: it is empty, counted by the tag or free of separators. -/
def Bounded : Component → Prop
  | decimal _ printed => Free ['|'] printed
  | _ => True

inductive Kind where
  | string | bytes | uuid | int | float | decimal | bool | json | null

def kind : Component → Kind
  | string _ => .string
  | bytes _ => .bytes
  | uuid _ => .uuid
  | int _ => .int
  | float _ => .float
  | decimal _ _ => .decimal
  | bool _ => .bool
  | json _ => .json
  | null => .null

def kindOfTag : List Char → Kind
  | 's' :: _ => .string
  | ['b'] => .bool
  | 'b' :: _ => .bytes
  | 'u' :: _ => .uuid
  | 'i' :: _ => .int
  | 'f' :: _ => .float
  | 'd' :: _ => .decimal
  | 'j' :: _ => .json
  | _ => .null

theorem kindOfTag_tag (k : Component) : kindOfTag k.tag.toList = k.kind := by
  cases k <;> simp [tag, kindOfTag, kind]

theorem tag_free (k : Component) : Free [':', '|'] k.tag := by
  have sized (letter : String) (n : Nat) (plain : Free [':', '|'] letter) :
      Free [':', '|'] (letter ++ n.repr) := plain.append (free_natRepr n (by decide))
  cases k with
  | string value | decimal definition printed | json value => exact sized _ _ (by decide)
  | _ => simp [tag, Free]

theorem toList_text (k : Component) :
    k.text.toList = k.tag.toList ++ if k.isNull then [] else ':' :: k.payload.toList := by
  unfold text
  rw [String.toList_append]
  cases k.isNull
  · simp
  · simp

theorem text_ne_empty (k : Component) : k.text ≠ "" := by
  intro empty
  have chars := congrArg String.toList empty
  rw [toList_text, String.toList_empty, List.append_eq_nil_iff] at chars
  have blank := String.toList_eq_nil_iff.mp chars.1
  cases k <;> simp [tag] at blank

end Component

/-! ### Where a payload ends -/

section Cuts

variable {p q : String} {us vs : List Char}

theorem cut_free (left : Free ['|'] p) (right : Free ['|'] q) (leftEnd : ∀ u ∈ us.head?, u = '|')
    (rightEnd : ∀ v ∈ vs.head?, v = '|') (same : p.toList ++ us = q.toList ++ vs) :
    p = q ∧ us = vs := by
  obtain ⟨texts, rests⟩ := @append_cut Char (· = '|') _ _ _ _
    (fun c mem bar => left c mem (by simp [bar]))
    (fun c mem bar => right c mem (by simp [bar])) leftEnd rightEnd same
  exact ⟨String.toList_inj.mp texts, rests⟩

/-- A counted payload may contain anything. -/
theorem cut_sized (size : byteSize p = byteSize q) (same : p.toList ++ us = q.toList ++ vs) :
    p = q ∧ us = vs := by
  have first := splitAtByte_append p.toList us
  have second := splitAtByte_append q.toList vs
  unfold byteSize at size
  rw [same, size, second] at first
  obtain ⟨texts, rests⟩ := Prod.mk.inj (Option.some.inj first)
  exact ⟨(String.toList_inj.mp texts).symm, rests.symm⟩

theorem hexDigit_ne_bar : ∀ d, d < 16 → hexDigit d ≠ '|' := by decide

theorem free_bar {s : String} (absent : '|' ∉ s.toList) : Free ['|'] s := by
  intro c mem bar
  rw [List.mem_singleton.mp bar] at mem
  exact absent mem

theorem free_hexEncode (bytes : List UInt8) : Free ['|'] (hexEncode bytes) := by
  apply free_bar
  rw [hexEncode, String.toList_ofList, List.mem_flatMap]
  rintro ⟨b, _, mem⟩
  have small := b.toNat_lt
  rcases List.mem_cons.mp mem with high | low
  · exact hexDigit_ne_bar _ (by omega) high.symm
  · exact hexDigit_ne_bar _ (Nat.mod_lt _ (by decide)) (List.mem_singleton.mp low).symm

theorem free_hexDigits (k n : Nat) : Free ['|'] (String.ofList (UuidText.hexDigits k n)) := by
  apply free_bar
  rw [String.toList_ofList]
  intro mem
  obtain ⟨d, small, same⟩ := UuidText.mem_hexDigits mem
  exact hexDigit_ne_bar d small same.symm

theorem hexDigits_injective {a b : BitVec 64}
    (same : UuidText.hexDigits 16 a.toNat = UuidText.hexDigits 16 b.toNat) : a = b := by
  have read := congrArg UuidText.hexNumber same
  have width : (16 : Nat) ^ 16 = 2 ^ 64 := by decide
  rw [UuidText.hexNumber_hexDigits, UuidText.hexNumber_hexDigits, width,
    Nat.mod_eq_of_lt a.isLt, Nat.mod_eq_of_lt b.isLt] at read
  exact BitVec.eq_of_toNat_eq (Option.some.inj read)

end Cuts

/-- A decimal's scale and its printed value. -/
theorem decimal_injective {a b : DecimalDef} {x y : String}
    (tags : (Component.decimal a x).tag = (Component.decimal b y).tag)
    (payloads : (Component.decimal a x).payload = (Component.decimal b y).payload) :
    a = b ∧ x = y := by
  have precision := repr_inj ((String.append_right_inj "d").mp tags)
  have texts := congrArg String.toList payloads
  simp only [Component.payload, String.toList_append, List.append_assoc] at texts
  have plain (n : Nat) : ∀ c ∈ n.repr.toList, c ≠ ':' := fun c mem colon =>
    @free_natRepr [':'] n (by decide) c mem (by simp [colon])
  obtain ⟨scales, printed⟩ := @append_cut Char (· = ':') _ _ _ _ (plain a.scale) (plain b.scale)
    (by rintro _ ⟨rfl⟩; rfl) (by rintro _ ⟨rfl⟩; rfl) texts
  have scale := repr_inj (String.toList_inj.mp scales)
  exact ⟨DecimalDef.ext_digits precision scale,
    String.toList_inj.mp (List.append_cancel_left printed)⟩

theorem text_selfDelimited : SelfDelimited '|' Component.text Component.Bounded := by
  intro k l us vs left right leftEnd rightEnd same
  rw [Component.toList_text, Component.toList_text, List.append_assoc, List.append_assoc] at same
  have opened (k : Component) (us : List Char) (ends : ∀ u ∈ us.head?, u = '|') :
      ∀ c ∈ ((if k.isNull then [] else ':' :: k.payload.toList) ++ us).head?, c = ':' ∨ c = '|' := by
    split
    · exact fun c mem => .inr (ends c mem)
    · rintro c ⟨rfl⟩
      exact .inl rfl
  have apart (k : Component) : ∀ c ∈ k.tag.toList, ¬(c = ':' ∨ c = '|') := fun c mem either =>
    k.tag_free c mem (by simpa using either)
  obtain ⟨tags, rests⟩ := append_cut (apart k) (apart l) (opened k us leftEnd)
    (opened l vs rightEnd) same
  have kinds : k.kind = l.kind := by rw [← k.kindOfTag_tag, tags, l.kindOfTag_tag]
  have tags := String.toList_inj.mp tags
  -- Components of one kind: what follows the tag is cut by its length or at the separator.
  cases k with
  | string value =>
    cases l with
    | string other =>
      have size := repr_inj ((String.append_right_inj "s").mp tags)
      obtain ⟨rfl, rfl⟩ := cut_sized size (List.cons.inj rests).2
      exact ⟨rfl, rfl⟩
    | _ => cases kinds
  | json value =>
    cases l with
    | json other =>
      have size := repr_inj ((String.append_right_inj "j").mp tags)
      obtain ⟨written, rfl⟩ := cut_sized size (List.cons.inj rests).2
      exact ⟨by rw [Json.write_injective written], rfl⟩
    | _ => cases kinds
  | bytes value =>
    cases l with
    | bytes other =>
      obtain ⟨written, rfl⟩ := cut_free (free_hexEncode _) (free_hexEncode _) leftEnd rightEnd
        (List.cons.inj rests).2
      have decoded := congrArg hexDecode written
      rw [hexDecode_hexEncode, hexDecode_hexEncode] at decoded
      exact ⟨by rw [Option.some.inj decoded], rfl⟩
    | _ => cases kinds
  | uuid value =>
    cases l with
    | uuid other =>
      have plain (id : BitVec 128) : Free ['|'] (UuidText.hyphenated id) :=
        free_bar (UuidText.notMem_hyphenated hexDigit_ne_bar (by decide) id)
      obtain ⟨written, rfl⟩ := cut_free (plain _) (plain _) leftEnd rightEnd (List.cons.inj rests).2
      exact ⟨by rw [UuidText.hyphenated_injective written], rfl⟩
    | _ => cases kinds
  | int value =>
    cases l with
    | int other =>
      have plain (n : Int) : Free ['|'] n.repr := free_intRepr n (by decide) (by decide)
      obtain ⟨written, rfl⟩ := cut_free (plain _) (plain _) leftEnd rightEnd (List.cons.inj rests).2
      exact ⟨by rw [intRepr_injective written], rfl⟩
    | _ => cases kinds
  | float bits =>
    cases l with
    | float other =>
      obtain ⟨written, rfl⟩ := cut_free (free_hexDigits _ _) (free_hexDigits _ _) leftEnd rightEnd
        (List.cons.inj rests).2
      exact ⟨by rw [hexDigits_injective (String.ofList_injective written)], rfl⟩
    | _ => cases kinds
  | decimal definition printed =>
    cases l with
    | decimal definition' printed' =>
      have plain {d : DecimalDef} {x : String} (bounded : Free ['|'] x) :
          Free ['|'] (Component.decimal d x).payload :=
        ((free_natRepr _ (by decide)).append (by decide)).append bounded
      obtain ⟨written, rfl⟩ := cut_free (plain left) (plain right) leftEnd rightEnd
        (List.cons.inj rests).2
      obtain ⟨rfl, rfl⟩ := decimal_injective tags written
      exact ⟨rfl, rfl⟩
    | _ => cases kinds
  | bool value =>
    cases l with
    | bool other =>
      have plain (b : Bool) : Free ['|'] (if b then "true" else "false") := by
        cases b <;> decide
      obtain ⟨written, rfl⟩ := cut_free (plain value) (plain other) leftEnd rightEnd
        (List.cons.inj rests).2
      cases value <;> cases other
      · exact ⟨rfl, rfl⟩
      · exact absurd written (by decide)
      · exact absurd written (by decide)
      · exact ⟨rfl, rfl⟩
    | _ => cases kinds
  | null =>
    cases l with
    | null => exact ⟨rfl, rests⟩
    | _ => cases kinds

/-! ### Keys -/

variable {rust}

theorem component_eq (value : SqlValue rust) : component rust value = value.toComponent.text := by
  have marked (letter payload : String) :
      (letter ++ ":") ++ payload = letter ++ (":" ++ payload) := String.append_assoc
  cases value with
  | bytes value => exact marked "bin" _
  | uuid value => exact marked "u" _
  | int value => exact marked "i" _
  | float bits => exact marked "f" _
  | bool value => exact marked "b" _
  | _ => simp [component, SqlValue.toComponent, Component.text, Component.tag,
      Component.payload, Component.isNull, String.append_assoc]

/-- A printed decimal has digits, a sign and a point only. -/
theorem toComponent_bounded (exact : rust.Exact) (value : SqlValue rust) :
    value.toComponent.Bounded := by
  cases value with
  | decimal value =>
    intro c mem bar
    rw [List.mem_singleton.mp bar, exact.toString, String.toList_ofList] at mem
    rcases DecimalText.Spelling.mem_chars mem with digit | dash | point
    · exact absurd digit (by decide)
    · exact absurd dash (by decide)
    · exact absurd point (by decide)
  | _ => trivial

/-- Identifiers agree exactly if the keys do, component by component. -/
theorem compositeKeyId_injective (exact : rust.Exact) (xs ys : List (SqlValue rust)) :
    compositeKeyId rust xs = compositeKeyId rust ys ↔
      xs.map SqlValue.toComponent = ys.map SqlValue.toComponent := by
  have components (zs : List (SqlValue rust)) :
      zs.map (component rust) = (zs.map SqlValue.toComponent).map Component.text := by
    rw [List.map_map]
    exact List.map_congr_left fun value _ => component_eq value
  have bounded (zs : List (SqlValue rust)) : ∀ k ∈ zs.map SqlValue.toComponent, k.Bounded := by
    intro k mem
    obtain ⟨value, _, rfl⟩ := List.mem_map.mp mem
    exact toComponent_bounded exact value
  unfold compositeKeyId
  rw [components, components, String.append_right_inj]
  constructor
  · exact join_selfDelimited text_selfDelimited Component.text_ne_empty (bounded xs) (bounded ys)
  · intro same
    rw [same]

/-- A text that looks like two components stays one. -/
theorem compositeKeyId_lookalike :
    compositeKeyId plain [.string "a|s1:b"] ≠ compositeKeyId plain [.string "a", .string "b"] := by
  rw [ne_eq, compositeKeyId_injective plain_exact]
  intro same
  cases congrArg List.length same

end GraphqlOrm.Keys
