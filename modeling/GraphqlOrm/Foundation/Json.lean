import GraphqlOrm.Foundation.Records
import Mathlib.Data.List.TakeDrop
import Mathlib.Data.List.TakeWhile
import Mathlib.Tactic.IntervalCases

/-!
# JSON documents

The grammar of RFC 8259 as a reader in two stages: an automaton that cuts the text
into tokens, then a parser of tokens. Values are generic in the type of their texts,
so that a document as it is written and the document as it is read are values of one
type: the first holds what stands between the quotes, the second what that means.
-/
namespace Json

open Text

/-! ### Numbers -/

/-- The characters of numbers and of `true`, `false` and `null`. -/
def isWordChar (c : Char) : Bool := c.isAlphanum || c == '+' || c == '-' || c == '.'

def isDigits (cs : List Char) : Bool := cs != [] && cs.all Char.isDigit

def isInteger : List Char → Bool
  | ['0'] => true
  | '0' :: _ => false
  | cs => isDigits cs

def isExponent : List Char → Bool
  | '+' :: cs => isDigits cs
  | '-' :: cs => isDigits cs
  | cs => isDigits cs

def isUnsigned (cs : List Char) : Bool :=
  let (mantissa, exponent) := cs.span fun c => c != 'e' && c != 'E'
  let (whole, fraction) := mantissa.span fun c => c != '.'
  isInteger whole && (fraction == [] || isDigits fraction.tail) &&
    (exponent == [] || isExponent exponent.tail)

def isNumber (cs : List Char) : Bool :=
  cs.all isWordChar && match cs with
    | '-' :: rest => isUnsigned rest
    | _ => isUnsigned cs

/-- A number as it is written. -/
structure Number where
  literal : String
  valid : isNumber literal.toList = true

theorem toDigits_head {n : Nat} (positive : 0 < n) :
    ∃ c rest, Nat.toDigits 10 n = c :: rest ∧ c ≠ '0' := by
  induction n using Nat.strongRecOn with
  | _ n ih =>
    rcases Nat.lt_or_ge n 10 with small | large
    · refine ⟨n.digitChar, [], Nat.toDigits_of_lt_base small, ?_⟩
      interval_cases n <;> decide
    · obtain ⟨c, rest, shape, lead⟩ := ih (n / 10) (by omega) (by omega)
      exact ⟨c, rest ++ [(n % 10).digitChar],
        by rw [Nat.toDigits_of_base_le (by decide) large, shape, List.cons_append], lead⟩

/-- Decimal digits without leading zeros are a number. -/
theorem isNumber_repr (n : Nat) : isNumber n.repr.toList = true := by
  rw [Nat.toList_repr]
  have digits : ∀ c ∈ Nat.toDigits 10 n, c.isDigit = true := fun c mem =>
    Nat.isDigit_of_mem_toDigits (by decide) (by decide) mem
  have words : (Nat.toDigits 10 n).all isWordChar = true := by
    rw [List.all_eq_true]
    intro c mem
    simp [isWordChar, Char.isAlphanum, digits c mem]
  have apart {d : Char} (other : d.isDigit = false) : ∀ c ∈ Nat.toDigits 10 n, c ≠ d := by
    rintro c mem rfl
    rw [digits c mem] at other
    cases other
  have integer : isInteger (Nat.toDigits 10 n) = true := by
    have all : isDigits (Nat.toDigits 10 n) = true := by
      simpa [isDigits, Nat.toDigits_ne_nil] using digits
    rcases Nat.eq_zero_or_pos n with rfl | positive
    · rw [Nat.toDigits_zero]
      rfl
    · obtain ⟨c, rest, shape, lead⟩ := toDigits_head positive
      rw [shape] at all ⊢
      rw [isInteger]
      · exact all
      · simp [lead]
      · simp [lead]
  have unsigned : isUnsigned (Nat.toDigits 10 n) = true := by
    have whole {p : Char → Bool} (kept : ∀ c ∈ Nat.toDigits 10 n, p c = true) :
        (Nat.toDigits 10 n).span p = (Nat.toDigits 10 n, []) := by
      rw [List.span_eq_takeWhile_dropWhile, List.takeWhile_eq_self_iff.mpr kept,
        List.dropWhile_eq_nil_iff.mpr kept]
    rw [isUnsigned, whole fun c mem => by
      simp [apart (d := 'e') (by decide) c mem, apart (d := 'E') (by decide) c mem]]
    simp only
    rw [whole fun c mem => by simp [apart (d := '.') (by decide) c mem]]
    simp [integer]
  simp only [isNumber, words, Bool.true_and]
  split
  next rest shape =>
    exact absurd rfl (apart (d := '-') (by decide) '-' (shape ▸ .head _))
  · exact unsigned

def Number.ofNat (n : Nat) : Number := ⟨n.repr, isNumber_repr n⟩

theorem isNumber_neg (n : Nat) : isNumber ('-' :: n.repr.toList) = true := by
  have digits := isNumber_repr n
  simp only [isNumber, Bool.and_eq_true, List.all_cons] at digits ⊢
  refine ⟨⟨by decide, digits.1⟩, ?_⟩
  have unsigned := digits.2
  split at unsigned
  next rest shape =>
    have mem : '-' ∈ Nat.toDigits 10 n := by
      rw [← Nat.toList_repr, shape]
      exact .head _
    exact absurd (Nat.isDigit_of_mem_toDigits (by decide) (by decide) mem) (by decide)
  · exact unsigned

def Number.ofInt : Int → Number
  | .ofNat n => .ofNat n
  | .negSucc n => ⟨String.ofList ('-' :: (n + 1).repr.toList),
      by rw [String.toList_ofList]; exact isNumber_neg (n + 1)⟩

/-! ### Values -/

inductive Value (σ : Type) where
  | null
  | bool (value : Bool)
  | number (value : Number)
  | text (value : σ)
  | array (elements : List (Value σ))
  | object (members : List (σ × Value σ))

/-- Induction over a document and the documents in it. -/
@[induction_eliminator]
theorem Value.induction {σ : Type} {motive : Value σ → Prop} (null : motive .null)
    (bool : ∀ b, motive (.bool b)) (number : ∀ n, motive (.number n)) (text : ∀ s, motive (.text s))
    (array : ∀ vs, (∀ v ∈ vs, motive v) → motive (.array vs))
    (object : ∀ ms, (∀ m ∈ ms, motive m.2) → motive (.object ms)) : ∀ v, motive v
  | .null => null
  | .bool b => bool b
  | .number n => number n
  | .text s => text s
  | .array vs => array vs fun v _ => induction null bool number text array object v
  | .object ms => object ms fun m _ => induction null bool number text array object m.2
decreasing_by
  next mem =>
    have inside := List.sizeOf_lt_of_mem mem
    grind
  next mem =>
    have inside := List.sizeOf_lt_of_mem mem
    cases m
    grind

mutual

def Value.map {σ τ : Type} (f : σ → τ) : Value σ → Value τ
  | .null => .null
  | .bool b => .bool b
  | .number n => .number n
  | .text s => .text (f s)
  | .array vs => .array (mapElements f vs)
  | .object ms => .object (mapMembers f ms)

def mapElements {σ τ : Type} (f : σ → τ) : List (Value σ) → List (Value τ)
  | [] => []
  | v :: vs => v.map f :: mapElements f vs

def mapMembers {σ τ : Type} (f : σ → τ) : List (σ × Value σ) → List (τ × Value τ)
  | [] => []
  | (key, v) :: ms => (f key, v.map f) :: mapMembers f ms

end

theorem mapElements_eq {σ τ : Type} (f : σ → τ) (vs : List (Value σ)) :
    mapElements f vs = vs.map (Value.map f) := by
  induction vs with
  | nil => rfl
  | cons v vs ih => rw [mapElements, ih, List.map_cons]

theorem mapMembers_eq {σ τ : Type} (f : σ → τ) (ms : List (σ × Value σ)) :
    mapMembers f ms = ms.map fun m => (f m.1, m.2.map f) := by
  induction ms with
  | nil => rfl
  | cons m ms ih => rw [mapMembers, ih, List.map_cons]

namespace Value

/-- `Value::get`. A repeated key replaces the earlier member. -/
def get (key : String) : Value String → Option (Value String)
  | .object members => members.reverse.lookup key
  | _ => none

def asStr : Value String → Option String
  | .text s => some s
  | _ => none

def asBool : Value String → Option Bool
  | .bool b => some b
  | _ => none

def asArray : Value String → Option (List (Value String))
  | .array vs => some vs
  | _ => none

/-- `Value::as_u64`: integers that fit; a sign, a fraction or an exponent makes a
number a float. -/
def asU64 : Value String → Option Nat
  | .number n =>
    let value := Nat.ofDigitChars 10 n.literal.toList 0
    if isDigits n.literal.toList && value < 2 ^ 64 then some value else none
  | _ => none

/-- `Value::as_i64`. A negative zero is a float. -/
def asI64 : Value String → Option Int
  | .number n =>
    match n.literal.toList with
    | '-' :: digits =>
      let value := Nat.ofDigitChars 10 digits 0
      if isDigits digits && value != 0 && value ≤ 2 ^ 63 then some (-value) else none
    | digits =>
      let value := Nat.ofDigitChars 10 digits 0
      if isDigits digits && value < 2 ^ 63 then some value else none
  | _ => none

@[simp] theorem asStr_text (s : String) : asStr (.text s) = some s := rfl

@[simp] theorem asBool_bool (b : Bool) : asBool (.bool b) = some b := rfl

@[simp] theorem asArray_array (vs : List (Value String)) : asArray (.array vs) = some vs := rfl

theorem isDigits_toDigits (n : Nat) : isDigits (Nat.toDigits 10 n) = true := by
  simp only [isDigits, Bool.and_eq_true, bne_iff_ne, ne_eq, Nat.toDigits_ne_nil,
    not_false_eq_true, List.all_eq_true, true_and]
  exact fun c mem => Nat.isDigit_of_mem_toDigits (by decide) (by decide) mem

theorem asU64_ofNat {n : Nat} (bounded : n < 2 ^ 64) :
    asU64 (.number (Number.ofNat n)) = some n := by
  simp only [asU64, Number.ofNat, Nat.toList_repr, Nat.ofDigitChars_ten_toDigits,
    isDigits_toDigits n, Bool.true_and, decide_eq_true_eq]
  rw [if_pos bounded]

theorem asI64_ofInt {n : Int} (low : -2 ^ 63 ≤ n) (high : n < 2 ^ 63) :
    asI64 (.number (Number.ofInt n)) = some n := by
  cases n with
  | ofNat n =>
    simp only [Number.ofInt, asI64, Number.ofNat, Nat.toList_repr]
    split
    next digits shape =>
      have mem : '-' ∈ Nat.toDigits 10 n := shape ▸ .head _
      exact absurd (Nat.isDigit_of_mem_toDigits (by decide) (by decide) mem) (by decide)
    · have bounded : n < 2 ^ 63 := by
        simp only [Int.ofNat_eq_natCast] at high
        omega
      simp only [Nat.ofDigitChars_ten_toDigits, isDigits_toDigits n, Bool.true_and,
        decide_eq_true_eq]
      rw [if_pos bounded]
      rfl
  | negSucc n =>
    have bounded : n + 1 ≤ 2 ^ 63 := by omega
    simp only [Number.ofInt, asI64, String.toList_ofList, Nat.toList_repr,
      Nat.ofDigitChars_ten_toDigits, isDigits_toDigits, Bool.true_and]
    rw [if_pos (by simpa using bounded)]
    rfl

/-- No deeper than the given number of containers, and no number but an unsigned one
of 64 bits. -/
def Fits : Nat → Value String → Prop
  | _, .number n => (asU64 (.number n)).isSome
  | 0, .array _ => False
  | 0, .object _ => False
  | depth + 1, .array vs => ∀ v ∈ vs, Fits depth v
  | depth + 1, .object ms => ∀ m ∈ ms, Fits depth m.2
  | _, _ => True

section Fits

variable {depth : Nat}

attribute [local simp] Fits

@[simp] theorem fits_null : Fits depth .null := by simp [Fits]

@[simp] theorem fits_bool (b : Bool) : Fits depth (.bool b) := by simp [Fits]

@[simp] theorem fits_text (s : String) : Fits depth (.text s) := by simp [Fits]

theorem fits_ofNat {n : Nat} (bounded : n < 2 ^ 64) : Fits depth (.number (Number.ofNat n)) := by
  simp [Fits, asU64_ofNat bounded]

theorem fits_array {vs : List (Value String)} (each : ∀ v ∈ vs, Fits depth v) :
    Fits (depth + 1) (.array vs) := by
  simpa [Fits] using each

theorem fits_object {ms : List (String × Value String)} (each : ∀ m ∈ ms, Fits depth m.2) :
    Fits (depth + 1) (.object ms) := by
  rw [Fits]
  exact each

end Fits

end Value

/-! ### Tokens -/

inductive Token (σ : Type) where
  | openObject | closeObject | openArray | closeArray | comma | colon
  | word (value : String)
  | text (value : σ)

mutual

def Value.tokens {σ : Type} : Value σ → List (Token σ)
  | .null => [.word "null"]
  | .bool b => [.word (if b then "true" else "false")]
  | .number n => [.word n.literal]
  | .text s => [.text s]
  | .array vs => .openArray :: (elementTokens vs ++ [.closeArray])
  | .object ms => .openObject :: (memberTokens ms ++ [.closeObject])

def elementTokens {σ : Type} : List (Value σ) → List (Token σ)
  | [] => []
  | [v] => v.tokens
  | v :: vs => v.tokens ++ .comma :: elementTokens vs

def memberTokens {σ : Type} : List (σ × Value σ) → List (Token σ)
  | [] => []
  | [(key, v)] => .text key :: .colon :: v.tokens
  | (key, v) :: ms => .text key :: .colon :: (v.tokens ++ .comma :: memberTokens ms)

end

section Members

variable {σ : Type}

theorem elementTokens_eq (vs : List (Value σ)) :
    elementTokens vs = [Token.comma].intercalate (vs.map Value.tokens) := by
  induction vs with
  | nil => simp [elementTokens]
  | cons v vs ih =>
    cases vs with
    | nil => simp [elementTokens]
    | cons w vs => simp_all [elementTokens, List.intercalate_cons_cons]

theorem memberTokens_eq (ms : List (σ × Value σ)) :
    memberTokens ms =
      [Token.comma].intercalate (ms.map fun m => .text m.1 :: .colon :: m.2.tokens) := by
  induction ms with
  | nil => simp [memberTokens]
  | cons m ms ih =>
    cases ms with
    | nil => simp [memberTokens]
    | cons n ms => simp_all [memberTokens, List.intercalate_cons_cons]

variable {token : Token σ}

theorem mem_tokens_array {vs : List (Value σ)} : token ∈ (Value.array vs).tokens ↔
    token = .openArray ∨ (token = .comma ∧ 1 < vs.length ∨ ∃ v ∈ vs, token ∈ v.tokens) ∨
      token = .closeArray := by
  simp only [Value.tokens, elementTokens_eq, List.mem_cons, List.mem_append, mem_intercalate_iff,
    List.length_map, List.mem_map, exists_exists_and_eq_and, List.not_mem_nil, or_false]

theorem mem_tokens_object {ms : List (σ × Value σ)} : token ∈ (Value.object ms).tokens ↔
    token = .openObject ∨ (token = .comma ∧ 1 < ms.length ∨
      ∃ m ∈ ms, token = .text m.1 ∨ token = .colon ∨ token ∈ m.2.tokens) ∨
        token = .closeObject := by
  simp only [Value.tokens, memberTokens_eq, List.mem_cons, List.mem_append, mem_intercalate_iff,
    List.length_map, List.mem_map, exists_exists_and_eq_and, List.not_mem_nil, or_false]

end Members

def Value.Every {σ : Type} (P : σ → Prop) (v : Value σ) : Prop := ∀ s, .text s ∈ v.tokens → P s

section Every

variable {σ : Type} {P : σ → Prop}

attribute [local simp] Value.tokens elementTokens memberTokens

@[simp] theorem every_null : (Value.null (σ := σ)).Every P := by simp [Value.Every, Value.tokens]

@[simp] theorem every_bool (b : Bool) : (Value.bool (σ := σ) b).Every P := by
  simp [Value.Every, Value.tokens]

@[simp] theorem every_number (n : Number) : (Value.number (σ := σ) n).Every P := by
  simp [Value.Every, Value.tokens]

@[simp] theorem every_text (s : σ) : (Value.text s).Every P ↔ P s := by
  simp [Value.Every, Value.tokens]

@[simp] theorem every_array (vs : List (Value σ)) :
    (Value.array vs).Every P ↔ ∀ v ∈ vs, v.Every P := by
  simp only [Value.Every, mem_tokens_array, reduceCtorEq, false_and, false_or, or_false]
  exact ⟨fun all v own s mem => all s ⟨v, own, mem⟩, fun all s ⟨v, own, mem⟩ => all v own s mem⟩

@[simp] theorem every_object (ms : List (σ × Value σ)) :
    (Value.object ms).Every P ↔ ∀ m ∈ ms, P m.1 ∧ m.2.Every P := by
  simp only [Value.Every, mem_tokens_object, reduceCtorEq, false_and, false_or, or_false,
    Token.text.injEq]
  constructor
  · exact fun all m own => ⟨all m.1 ⟨m, own, .inl rfl⟩, fun s mem => all s ⟨m, own, .inr mem⟩⟩
  · rintro all s ⟨m, own, rfl | inside⟩
    · exact (all m own).1
    · exact (all m own).2 s inside

end Every

/-! ### The lexer -/

def isSpace (c : Char) : Bool := c == ' ' || c == '\t' || c == '\n' || c == '\r'

def punctuation {σ : Type} : Char → Option (Token σ)
  | '\x7b' => some .openObject
  | '\x7d' => some .closeObject
  | '[' => some .openArray
  | ']' => some .closeArray
  | ',' => some .comma
  | ':' => some .colon
  | _ => none

def simpleEscape : Char → Option Char
  | '"' => some '"'
  | '\\' => some '\\'
  | '/' => some '/'
  | 'b' => some '\x08'
  | 'f' => some '\x0c'
  | 'n' => some '\n'
  | 'r' => some '\r'
  | 't' => some '\t'
  | _ => none

def hexValue (c : Char) : Option Nat :=
  if c.isDigit then some (c.toNat - '0'.toNat)
  else if 'a' ≤ c ∧ c ≤ 'f' then some (c.toNat - 'a'.toNat + 10)
  else if 'A' ≤ c ∧ c ≤ 'F' then some (c.toNat - 'A'.toNat + 10)
  else none

/-- Where the lexer stands, with what it has read of the current word or text. -/
inductive Mode where
  | outside (word : List Char)
  | text (seen : List Char)
  | escape (seen : List Char)
  | unicode (seen : List Char) (high : Option Nat) (digits : List Nat)
  /-- After a leading surrogate: `\` and then `u` must follow. -/
  | paired (seen : List Char) (high : Nat)
  | pairedEscape (seen : List Char) (high : Nat)

structure State where
  tokens : List (Token String)
  mode : Mode

def flush (tokens : List (Token String)) (word : List Char) : List (Token String) :=
  if word = [] then tokens else tokens ++ [.word (String.ofList word)]

/-- A complete `\u` escape: a character, or half of a surrogate pair. -/
def codeUnit (seen : List Char) (high : Option Nat) (unit : Nat) : Option Mode :=
  match high with
  | none =>
    if 0xD800 ≤ unit ∧ unit < 0xDC00 then some (.paired seen unit)
    else if 0xDC00 ≤ unit ∧ unit < 0xE000 then none
    else some (.text (seen ++ [Char.ofNat unit]))
  | some lead =>
    if 0xDC00 ≤ unit ∧ unit < 0xE000 then
      some (.text (seen ++ [Char.ofNat (0x10000 + (lead - 0xD800) * 0x400 + (unit - 0xDC00))]))
    else none

def stepOutside (tokens : List (Token String)) (word : List Char) (c : Char) : Option State :=
  if c = '"' then some ⟨flush tokens word, .text []⟩
  else if isSpace c then some ⟨flush tokens word, .outside []⟩
  else match punctuation c with
    | some token => some ⟨flush tokens word ++ [token], .outside []⟩
    | none => if isWordChar c then some ⟨tokens, .outside (word ++ [c])⟩ else none

def stepText (tokens : List (Token String)) (seen : List Char) (c : Char) : Option State :=
  if c = '"' then some ⟨tokens ++ [.text (String.ofList seen)], .outside []⟩
  else if c = '\\' then some ⟨tokens, .escape seen⟩
  -- A control character must be escaped.
  else if c.val < 0x20 then none
  else some ⟨tokens, .text (seen ++ [c])⟩

/-- The modes in the middle of an escape never end a token. -/
def stepEscape : Mode → Char → Option Mode
  | .escape seen, c =>
    if c = 'u' then some (.unicode seen none []) else (simpleEscape c).map fun d => .text (seen ++ [d])
  | .unicode seen high digits, c => do
    let digit ← hexValue c
    let digits := digits ++ [digit]
    if digits.length < 4 then some (.unicode seen high digits)
    else codeUnit seen high (digits.foldl (fun unit d => unit * 16 + d) 0)
  | .paired seen high, c => if c = '\\' then some (.pairedEscape seen high) else none
  | .pairedEscape seen high, c => if c = 'u' then some (.unicode seen (some high) []) else none
  | _, _ => none

def step (s : State) (c : Char) : Option State :=
  match s.mode with
  | .outside word => stepOutside s.tokens word c
  | .text seen => stepText s.tokens seen c
  | mode => (stepEscape mode c).map fun next => ⟨s.tokens, next⟩

def run (s : State) (cs : List Char) : Option State := cs.foldlM step s

def lex (cs : List Char) : Option (List (Token String)) :=
  match run ⟨[], .outside []⟩ cs with
  | some ⟨tokens, .outside word⟩ => some (flush tokens word)
  | _ => none

/-! ### The parser -/

def ofWord (w : String) : Option (Value String) :=
  if w = "null" then some .null
  else if w = "true" then some (.bool true)
  else if w = "false" then some (.bool false)
  else if valid : isNumber w.toList = true then some (.number ⟨w, valid⟩)
  else none

mutual

/-- The parser's first value and what is left; the first argument bounds the depth of calls. -/
def parseValue : Nat → List (Token String) → Option (Value String × List (Token String))
  | _ + 1, .text s :: rest => some (.text s, rest)
  | _ + 1, .word w :: rest => (ofWord w).map fun v => (v, rest)
  | _ + 1, .openArray :: .closeArray :: rest => some (.array [], rest)
  | fuel + 1, .openArray :: rest =>
    (parseElements fuel rest).map fun (vs, rest) => (.array vs, rest)
  | _ + 1, .openObject :: .closeObject :: rest => some (.object [], rest)
  | fuel + 1, .openObject :: rest =>
    (parseMembers fuel rest).map fun (ms, rest) => (.object ms, rest)
  | _, _ => none

def parseElements : Nat → List (Token String) → Option (List (Value String) × List (Token String))
  | 0, _ => none
  | fuel + 1, tokens =>
    match parseValue fuel tokens with
    | some (v, .comma :: rest) => (parseElements fuel rest).map fun (vs, rest) => (v :: vs, rest)
    | some (v, .closeArray :: rest) => some ([v], rest)
    | _ => none

def parseMembers :
    Nat → List (Token String) → Option (List (String × Value String) × List (Token String))
  | fuel + 1, .text key :: .colon :: tokens =>
    match parseValue fuel tokens with
    | some (v, .comma :: rest) =>
      (parseMembers fuel rest).map fun (ms, rest) => ((key, v) :: ms, rest)
    | some (v, .closeObject :: rest) => some ([(key, v)], rest)
    | _ => none
  | _, _ => none

end

attribute [local simp] parseValue parseElements parseMembers

def parse (text : String) : Option (Value String) := do
  let tokens ← lex text.toList
  match parseValue (2 * tokens.length) tokens with
  | some (v, []) => some v
  | _ => none

/-- What a JSON library promises: it reads documents only, and every document that is
not too deep and has no number but unsigned 64-bit ones is read as what it says. -/
structure IsReader (fromStr : String → Option (Value String)) : Prop where
  sound : ∀ text v, fromStr text = some v → parse text = some v
  complete : ∀ text v, parse text = some v → v.Fits 127 → fromStr text = some v

theorem isReader_parse : IsReader parse := ⟨fun _ _ read => read, fun _ _ read _ => read⟩

/-! ### What is written is parsed -/

/-- A value's first token opens it, so it is never taken for the end of a container. -/
theorem Value.tokens_ne_close (v : Value String) :
    ∃ first rest, v.tokens = first :: rest ∧ first ≠ .closeArray ∧ first ≠ .closeObject := by
  cases v with
  | null | bool b | number n | text s | array vs | object ms =>
    exact ⟨_, _, by rw [Value.tokens], by simp, by simp⟩

theorem ofWord_literal (n : Number) : ofWord n.literal = some (.number n) := by
  have other {w : String} (word : isNumber w.toList = false) : n.literal ≠ w := by
    intro equal
    rw [← equal, n.valid] at word
    cases word
  rw [ofWord, if_neg (other (by decide)), if_neg (other (by decide)), if_neg (other (by decide)),
    dif_pos n.valid]

/-- An array whose first token does not close it has elements. -/
private theorem parseValue_array {first : Token String} {rest : List (Token String)} (fuel : Nat)
    (opens : first ≠ .closeArray) :
    parseValue (fuel + 1) (.openArray :: first :: rest) =
      (parseElements fuel (first :: rest)).map fun (vs, rest) => (.array vs, rest) := by
  cases first <;> first | exact absurd rfl opens | simp only [parseValue]

private theorem memberTokens_cons (key : String) (v : Value String)
    (ms : List (String × Value String)) :
    ∃ more, memberTokens ((key, v) :: ms) = .text key :: .colon :: more := by
  cases ms with
  | nil => exact ⟨_, by rw [memberTokens]⟩
  | cons m ms => exact ⟨_, by rw [memberTokens]; exact List.cons_ne_nil m ms⟩

private theorem elementTokens_cons (v : Value String) (vs : List (Value String)) :
    ∃ more, elementTokens (v :: vs) = v.tokens ++ more := by
  cases vs with
  | nil => exact ⟨[], by rw [elementTokens, List.append_nil]⟩
  | cons w vs => exact ⟨_, by rw [elementTokens]; exact List.cons_ne_nil w vs⟩

mutual

/-- Each token of a value costs at most two calls. -/
theorem parseValue_tokens (v : Value String) (rest : List (Token String)) {fuel : Nat}
    (enough : 2 * v.tokens.length ≤ fuel) :
    parseValue fuel (v.tokens ++ rest) = some (v, rest) := by
  match v with
  | .null =>
    obtain ⟨fuel, rfl⟩ : ∃ n, fuel = n + 1 := ⟨fuel - 1, by simp [Value.tokens] at enough; omega⟩
    simp [Value.tokens, parseValue, ofWord]
  | .bool b =>
    obtain ⟨fuel, rfl⟩ : ∃ n, fuel = n + 1 := ⟨fuel - 1, by simp [Value.tokens] at enough; omega⟩
    cases b <;> simp [Value.tokens, parseValue, ofWord]
  | .number n =>
    obtain ⟨fuel, rfl⟩ : ∃ n, fuel = n + 1 := ⟨fuel - 1, by simp [Value.tokens] at enough; omega⟩
    simp [Value.tokens, parseValue, ofWord_literal]
  | .text s =>
    obtain ⟨fuel, rfl⟩ : ∃ n, fuel = n + 1 := ⟨fuel - 1, by simp [Value.tokens] at enough; omega⟩
    simp [Value.tokens, parseValue]
  | .array [] =>
    obtain ⟨fuel, rfl⟩ : ∃ n, fuel = n + 1 := ⟨fuel - 1, by simp [Value.tokens] at enough; omega⟩
    simp [Value.tokens, elementTokens, parseValue]
  | .array (w :: vs) =>
    rw [Value.tokens] at enough ⊢
    simp only [List.length_cons, List.length_append, List.length_nil] at enough
    obtain ⟨fuel, rfl⟩ : ∃ n, fuel = n + 1 := ⟨fuel - 1, by omega⟩
    have read : parseElements fuel (elementTokens (w :: vs) ++ .closeArray :: rest) = _ :=
      parseElements_tokens (w :: vs) (List.cons_ne_nil w vs) rest (by omega)
    obtain ⟨first, others, shape, opens, _⟩ := w.tokens_ne_close
    obtain ⟨more, split⟩ := elementTokens_cons w vs
    rw [split, shape] at read ⊢
    simp only [List.cons_append, List.append_assoc, List.nil_append] at read ⊢
    rw [parseValue_array fuel opens, read]
    rfl
  | .object [] =>
    obtain ⟨fuel, rfl⟩ : ∃ n, fuel = n + 1 := ⟨fuel - 1, by simp [Value.tokens] at enough; omega⟩
    simp [Value.tokens, memberTokens, parseValue]
  | .object ((key, w) :: ms) =>
    rw [Value.tokens] at enough ⊢
    simp only [List.length_cons, List.length_append, List.length_nil] at enough
    obtain ⟨fuel, rfl⟩ : ∃ n, fuel = n + 1 := ⟨fuel - 1, by omega⟩
    have read : parseMembers fuel (memberTokens ((key, w) :: ms) ++ .closeObject :: rest) = _ :=
      parseMembers_tokens ((key, w) :: ms) (List.cons_ne_nil _ ms) rest (by omega)
    obtain ⟨more, split⟩ := memberTokens_cons key w ms
    rw [split] at read ⊢
    simp only [List.cons_append, List.append_assoc, List.nil_append] at read ⊢
    rw [parseValue, read]
    · rfl
    · simp

theorem parseElements_tokens (vs : List (Value String)) (filled : vs ≠ [])
    (rest : List (Token String)) {fuel : Nat} (enough : 2 * (elementTokens vs).length < fuel) :
    parseElements fuel (elementTokens vs ++ .closeArray :: rest) = some (vs, rest) := by
  obtain ⟨fuel, rfl⟩ : ∃ n, fuel = n + 1 := ⟨fuel - 1, by omega⟩
  match vs with
  | [] => exact absurd rfl filled
  | [v] =>
    rw [elementTokens] at enough ⊢
    rw [parseElements, parseValue_tokens v (.closeArray :: rest) (by omega)]
  | v :: w :: vs =>
    rw [elementTokens] at enough ⊢
    · simp only [List.length_cons, List.length_append] at enough
      rw [List.append_assoc, List.cons_append, parseElements, parseValue_tokens v _ (by omega)]
      simp only
      rw [parseElements_tokens (w :: vs) (List.cons_ne_nil w vs) rest (by omega)]
      rfl
    · simp
    · simp

theorem parseMembers_tokens (ms : List (String × Value String)) (filled : ms ≠ [])
    (rest : List (Token String)) {fuel : Nat} (enough : 2 * (memberTokens ms).length < fuel) :
    parseMembers fuel (memberTokens ms ++ .closeObject :: rest) = some (ms, rest) := by
  obtain ⟨fuel, rfl⟩ : ∃ n, fuel = n + 1 := ⟨fuel - 1, by omega⟩
  match ms with
  | [] => exact absurd rfl filled
  | [(key, v)] =>
    rw [memberTokens] at enough ⊢
    simp only [List.length_cons] at enough
    rw [List.cons_append, List.cons_append, parseMembers,
      parseValue_tokens v (.closeObject :: rest) (by omega)]
  | (key, v) :: (other, w) :: ms =>
    rw [memberTokens] at enough ⊢
    · simp only [List.length_cons, List.length_append] at enough
      rw [List.cons_append, List.cons_append, List.append_assoc, List.cons_append, parseMembers,
        parseValue_tokens v _ (by omega)]
      simp only
      rw [parseMembers_tokens ((other, w) :: ms) (List.cons_ne_nil _ ms) rest (by omega)]
      rfl
    · simp
    · simp

end

end Json
