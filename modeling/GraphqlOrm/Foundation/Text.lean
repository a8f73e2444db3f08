import Mathlib.Data.List.Basic
import Mathlib.Data.String.Basic

/-!
# Text

String operations of the standard library, written over lists of characters so
that they compute in the kernel. Byte offsets never appear: the scanners that
use these operations only ever stop at ASCII characters, and no byte of a
multi-byte character is ASCII.
-/
namespace Text

/-- `char::is_whitespace`: the Unicode `White_Space` property. -/
def isWhitespace (c : Char) : Bool :=
  (0x09 ≤ c.val && c.val ≤ 0x0d) || c.val == 0x20 || c.val == 0x85 || c.val == 0xa0 ||
    c.val == 0x1680 || (0x2000 ≤ c.val && c.val ≤ 0x200a) || c.val == 0x2028 ||
    c.val == 0x2029 || c.val == 0x202f || c.val == 0x205f || c.val == 0x3000

/-- `u8::is_ascii_whitespace`, which unlike the above excludes the vertical tab. -/
def isAsciiWhitespace (c : Char) : Bool :=
  c == ' ' || c == '\t' || c == '\n' || c == '\r' || c == '\x0c'

def isAscii (c : Char) : Bool := c.val < 0x80

def trimList (p : Char → Bool) (cs : List Char) : List Char :=
  ((cs.dropWhile p).reverse.dropWhile p).reverse

/-- `str::trim`. -/
def trim (s : String) : String := String.ofList (trimList isWhitespace s.toList)

/-- `str::to_ascii_lowercase`. -/
def lower (s : String) : String := String.ofList (s.toList.map Char.toLower)

/-- `str::to_ascii_uppercase`. -/
def upper (s : String) : String := String.ofList (s.toList.map Char.toUpper)

/-- `str::eq_ignore_ascii_case`. -/
def eqIgnoreCase (a b : String) : Bool := lower a == lower b

/-- `str::replace` of one character. -/
def replace (c : Char) (by_ : List Char) (s : String) : String :=
  String.ofList (s.toList.flatMap fun x => if x = c then by_ else [x])

/-- `[String]::join`. -/
def join (separator : String) : List String → String
  | [] => ""
  | [s] => s
  | s :: rest => s ++ separator ++ join separator rest

/-- `str::starts_with` and `str::ends_with` of one character. -/
def startsWith (c : Char) (s : String) : Bool := s.toList.head? == some c

def endsWith (c : Char) (s : String) : Bool := s.toList.getLast? == some c

@[simp] theorem eqIgnoreCase_self (s : String) : eqIgnoreCase s s = true := by
  simp [eqIgnoreCase]

/-! ### JSON string literals -/

def hexDigit (n : Nat) : Char :=
  if n < 10 then Char.ofNat ('0'.toNat + n) else Char.ofNat ('a'.toNat + (n - 10))

/-- The escape of one character in a JSON string: quotes, backslashes and
controls only. -/
def jsonChar (c : Char) : List Char :=
  if c = '"' then ['\\', '"']
  else if c = '\\' then ['\\', '\\']
  else if c = '\x08' then ['\\', 'b']
  else if c = '\x0c' then ['\\', 'f']
  else if c = '\n' then ['\\', 'n']
  else if c = '\r' then ['\\', 'r']
  else if c = '\t' then ['\\', 't']
  else if c.val < 0x20 then
    ['\\', 'u', '0', '0', hexDigit (c.toNat / 16), hexDigit (c.toNat % 16)]
  else [c]

def jsonString (s : String) : String :=
  String.ofList (['"'] ++ s.toList.flatMap jsonChar ++ ['"'])

/-- A number is read back from its digits. -/
theorem repr_inj {n m : Nat} (same : n.repr = m.repr) : n = m := by
  have digits := congrArg String.toList same
  rw [Nat.toList_repr, Nat.toList_repr] at digits
  rw [← Nat.ofDigitChars_ten_toDigits (n := n), digits, Nat.ofDigitChars_ten_toDigits]

/-! ### Texts inside others -/

def Within (text whole : String) : Prop := ∃ before after, whole = before ++ text ++ after

def Follows : List String → String → String → Prop
  | [], text, whole => Within text whole
  | clause :: rest, text, whole =>
    ∃ before after, whole = before ++ clause ++ after ∧ Follows rest text after

theorem Within.refl (text : String) : Within text text := ⟨"", "", by simp⟩

theorem Within.trans {inner text whole : String} (inside : Within inner text)
    (occurs : Within text whole) : Within inner whole := by
  obtain ⟨before, after, rfl⟩ := inside
  obtain ⟨first, last, rfl⟩ := occurs
  exact ⟨first ++ before, after ++ last, by simp [String.append_assoc]⟩

/-- Every part of a joined text occurs in it. -/
theorem within_join {separator text : String} {parts : List String} (mem : text ∈ parts) :
    Within text (join separator parts) := by
  induction parts with
  | nil => cases mem
  | cons part rest ih =>
    cases rest with
    | nil =>
      rw [List.mem_singleton.mp mem]
      exact .refl part
    | cons next others =>
      rcases List.mem_cons.mp mem with rfl | later
      · exact ⟨"", separator ++ join separator (next :: others), by
          simp [join, String.append_assoc]⟩
      · exact (ih later).trans ⟨part ++ separator, "", by simp [join]⟩

theorem Follows.within {clauses : List String} {text part whole : String}
    (follows : Follows clauses text part) (occurs : Within part whole) :
    Follows clauses text whole := by
  cases clauses with
  | nil => exact Within.trans follows occurs
  | cons clause rest =>
    -- The clause stands in the part, and what follows it there follows it in the whole.
    obtain ⟨before, after, rfl, later⟩ := follows
    obtain ⟨first, last, rfl⟩ := occurs
    exact ⟨first ++ before, after ++ last, by simp [String.append_assoc],
      later.within ⟨"", last, by simp⟩⟩

end Text
