import GraphqlOrm.Foundation.Slices
import GraphqlOrm.Query.Placeholders

/-!
# The lexical structure of a statement

What a PostgreSQL statement is made of: strings, quoted identifiers, comments and dollar-quoted
strings, the parameters between them, and single characters. Every statement can be read in
this way.

## Main results

* `Lexed.exists_pieces`: every text has a reading.
* `Lexed.spell`: the pieces of a reading, written down, are the text.
-/
namespace GraphqlOrm.Query

/-- A part that is copied, a parameter with its digits, or an anonymous placeholder. -/
inductive Piece where
  | text (cs : List Char)
  | parameter (digits : List Char)
  | anonymous (sign : List Char)

def Piece.spelled : Piece → List Char
  | text cs => cs
  | parameter digits => '$' :: digits
  | anonymous sign => sign

def identifierChar (c : Char) : Bool := c.isAlphanum || c == '_' || c == '$' || 128 ≤ c.toNat

/-- What the characters before a position say about it: whether the last one belongs to an
identifier, and whether it makes a quote open an escape string. -/
structure Context where
  identifier : Bool
  escape : Bool

namespace Context

def start : Context := ⟨false, false⟩

def after (context : Context) (c : Char) : Context where
  identifier := identifierChar c
  escape := (c == 'e' || c == 'E') && !context.identifier

def past (context : Context) (cs : List Char) : Context := cs.foldl after context

@[simp] theorem past_nil (context : Context) : context.past [] = context := rfl

@[simp] theorem past_cons (context : Context) (c : Char) (cs : List Char) :
    context.past (c :: cs) = (context.after c).past cs := rfl

theorem past_append (context : Context) (cs ds : List Char) :
    context.past (cs ++ ds) = (context.past cs).past ds := List.foldl_append

end Context

/-! ### Parts that are copied as a whole -/

/-- What stands in a quoted part: quotes are doubled, and where a backslash escapes, any character
may follow it. -/
inductive Inside (quote : Char) (escapes : Bool) : List Char → Prop where
  | nil : Inside quote escapes []
  | escaped (c : Char) {cs : List Char} (allowed : escapes = true) (rest : Inside quote escapes cs) :
    Inside quote escapes ('\\' :: c :: cs)
  | doubled {cs : List Char} (rest : Inside quote escapes cs) :
    Inside quote escapes (quote :: quote :: cs)
  | plain {c : Char} {cs : List Char} (other : c ≠ quote) (stays : ¬(escapes = true ∧ c = '\\'))
    (rest : Inside quote escapes cs) : Inside quote escapes (c :: cs)

/-- How a quoted part ends: with its quote, or with the text. -/
inductive Ending (quote : Char) (escapes : Bool) : List Char → List Char → Prop where
  | closed {rest : List Char} (single : rest.head? ≠ some quote) : Ending quote escapes [quote] rest
  | unclosed : Ending quote escapes [] []
  | backslash (allowed : escapes = true) : Ending quote escapes ['\\'] []

/-- A quoted part and what follows it. -/
inductive QuotedPart (quote : Char) (escapes : Bool) : List Char → List Char → Prop where
  | mk {body tail rest : List Char} (inside : Inside quote escapes body)
    (ending : Ending quote escapes tail rest) :
    QuotedPart quote escapes (quote :: (body ++ tail)) rest

/-- Text within comments that are nested to a depth, until the depth is `last`. -/
inductive Nested (last : Nat) : Nat → List Char → Prop where
  | done : Nested last last []
  | opens {depth : Nat} {cs : List Char} (rest : Nested last (depth + 2) cs) :
    Nested last (depth + 1) ('/' :: '*' :: cs)
  | closes {depth : Nat} {cs : List Char} (rest : Nested last depth cs) :
    Nested last (depth + 1) ('*' :: '/' :: cs)
  | skips {depth : Nat} {c : Char} {cs : List Char} (noOpening : ¬(c = '/' ∧ cs.head? = some '*'))
    (noClosing : ¬(c = '*' ∧ cs.head? = some '/')) (rest : Nested last (depth + 1) cs) :
    Nested last (depth + 1) (c :: cs)

def tagStart (c : Char) : Bool := c.isAlpha || c == '_' || 128 ≤ c.toNat

def tagChar (c : Char) : Bool := c.isAlphanum || c == '_' || 128 ≤ c.toNat

def IsTag (tag : List Char) : Prop := (∀ c ∈ tag.head?, tagStart c = true) ∧ ∀ c ∈ tag, tagChar c = true

def OpensDollar (rest : List Char) : Prop := ∃ tag, IsTag tag ∧ tag ++ ['$'] <+: rest

def delimiterOf (tag : List Char) : List Char := '$' :: (tag ++ ['$'])

/-- A part that is copied as a whole, and what follows it. -/
inductive Region (context : Context) : List Char → List Char → Prop where
  | string {part rest : List Char} (quoted : QuotedPart '\'' context.escape part rest) :
    Region context part rest
  | identifier {part rest : List Char} (quoted : QuotedPart '"' false part rest) :
    Region context part rest
  | line {body rest : List Char} (inside : ∀ c ∈ body, c ≠ '\n' ∧ c ≠ '\r')
    (ends : ∀ c ∈ rest.head?, c = '\n' ∨ c = '\r') : Region context ('-' :: '-' :: body) rest
  | block {body rest : List Char} (nested : Nested 0 1 body) :
    Region context ('/' :: '*' :: body) rest
  | unclosedBlock {body : List Char} {depth : Nat} (nested : Nested (depth + 1) 1 body) :
    Region context ('/' :: '*' :: body) []
  | dollar {tag body rest : List Char} (free : context.identifier = false) (named : IsTag tag)
    (first : ∀ front, front ++ delimiterOf tag <+: body ++ delimiterOf tag →
      body.length ≤ front.length) :
    Region context (delimiterOf tag ++ body ++ delimiterOf tag) rest
  | unclosedDollar {tag body : List Char} (free : context.identifier = false) (named : IsTag tag)
    (never : ¬delimiterOf tag <:+: body) : Region context (delimiterOf tag ++ body) []

/-! ### The reading of a statement -/

/-- An anonymous placeholder with the digits that belong to it. -/
inductive Sign : List Char → Prop where
  | mark {digits : List Char} (digit : ∀ c ∈ digits, c.isDigit = true) : Sign ('?' :: digits)
  | sign {p : Char} {digits : List Char} (letter : isP p = true)
    (digit : ∀ c ∈ digits, c.isDigit = true) : Sign ('@' :: p :: digits)

/-- A character that is copied by itself. -/
structure Plain (context : Context) (c : Char) (rest : List Char) : Prop where
  quotes : c ≠ '\'' ∧ c ≠ '"'
  line : c = '-' → rest.head? ≠ some '-'
  block : c = '/' → rest.head? ≠ some '*'
  mark : c ≠ '?'
  sign : c = '@' → ∀ p ∈ rest.head?, isP p = false
  dollar : c = '$' → context.identifier = false →
    (∀ d ∈ rest.head?, d.isDigit = false) ∧ ¬OpensDollar rest

def DigitsEnd (rest : List Char) : Prop := ∀ c ∈ rest.head?, c.isDigit = false

/-- The pieces that a text is read as in a context. -/
inductive Lexed : Context → List Char → List Piece → Prop where
  | nil (context : Context) : Lexed context [] []
  | region {context : Context} {part rest : List Char} {pieces : List Piece}
    (region : Region context part rest) (after : Lexed (context.past part) rest pieces) :
    Lexed context (part ++ rest) (.text part :: pieces)
  | parameter {context : Context} {digits rest : List Char} {pieces : List Piece}
    (free : context.identifier = false) (some_ : digits ≠ [])
    (digit : ∀ c ∈ digits, c.isDigit = true) (ends : DigitsEnd rest)
    (after : Lexed (context.past ('$' :: digits)) rest pieces) :
    Lexed context ('$' :: digits ++ rest) (.parameter digits :: pieces)
  | anonymous {context : Context} {sign rest : List Char} {pieces : List Piece}
    (read : Sign sign) (ends : DigitsEnd rest) (after : Lexed (context.past sign) rest pieces) :
    Lexed context (sign ++ rest) (.anonymous sign :: pieces)
  | plain {context : Context} {c : Char} {rest : List Char} {pieces : List Piece}
    (alone : Plain context c rest) (after : Lexed (context.after c) rest pieces) :
    Lexed context (c :: rest) (.text [c] :: pieces)

def spell (pieces : List Piece) : List Char := pieces.flatMap Piece.spelled

theorem Lexed.spell {context : Context} {text : List Char} {pieces : List Piece}
    (lexed : Lexed context text pieces) : spell pieces = text := by
  unfold Query.spell
  induction lexed with
  | nil => rfl
  | region _ _ ih | parameter _ _ _ _ _ ih | anonymous _ _ _ ih | plain _ _ ih =>
    rw [List.flatMap_cons, ih]; rfl

/-! ### Every text has a reading -/

theorem exists_inside (quote : Char) (escapes : Bool) (text : List Char) :
    ∃ body tail rest, text = body ++ tail ++ rest ∧ Inside quote escapes body ∧
      Ending quote escapes tail rest := by
  -- A backslash and a doubled quote take two characters at once.
  induction length : text.length using Nat.strong_induction_on generalizing text with
  | _ n ih =>
  subst length
  have longer {front rest : List Char} (shape : text = front ++ rest) (grows : front ≠ [])
      (more : ∀ {body}, Inside quote escapes body → Inside quote escapes (front ++ body)) :
      ∃ body tail rest, text = body ++ tail ++ rest ∧ Inside quote escapes body ∧
        Ending quote escapes tail rest := by
    have filled := List.length_pos_of_ne_nil grows
    obtain ⟨body, tail, last, shape', inside, ending⟩ :=
      ih rest.length (by rw [shape, List.length_append]; omega) rest rfl
    exact ⟨front ++ body, tail, last, by rw [shape, shape']; simp, more inside, ending⟩
  cases text with
  | nil => exact ⟨[], [], [], rfl, .nil, .unclosed⟩
  | cons c rest =>
    by_cases slash : escapes = true ∧ c = '\\'
    · obtain ⟨allowed, rfl⟩ := slash
      cases rest with
      | nil => exact ⟨[], ['\\'], [], rfl, .nil, .backslash allowed⟩
      | cons d rest => exact longer (show _ = ['\\', d] ++ rest from rfl) (by simp) (.escaped d allowed)
    by_cases closes : c = quote
    · subst closes
      by_cases doubled : rest.head? = some c
      · obtain ⟨rest, rfl⟩ := List.head?_eq_some_iff.mp doubled
        exact longer (show _ = [c, c] ++ rest from rfl) (by simp) .doubled
      · exact ⟨[], [c], rest, rfl, .nil, .closed doubled⟩
    · exact longer (show _ = [c] ++ rest from rfl) (by simp) (.plain closes slash)

theorem exists_quoted (quote : Char) (escapes : Bool) (text : List Char) :
    ∃ part rest, quote :: text = part ++ rest ∧ QuotedPart quote escapes part rest := by
  obtain ⟨body, tail, rest, rfl, inside, ending⟩ := exists_inside quote escapes text
  exact ⟨quote :: (body ++ tail), rest, by simp, .mk inside ending⟩

theorem exists_line (text : List Char) :
    ∃ body rest, text = body ++ rest ∧ (∀ c ∈ body, c ≠ '\n' ∧ c ≠ '\r') ∧
      ∀ c ∈ rest.head?, c = '\n' ∨ c = '\r' := by
  let within (c : Char) : Bool := c ≠ '\n' ∧ c ≠ '\r'
  refine ⟨text.takeWhile within, text.dropWhile within, List.takeWhile_append_dropWhile.symm,
    fun c mem => by simpa [within] using List.mem_takeWhile_imp mem, fun c mem => ?_⟩
  have outside : within c = false := Text.dropWhile_head c mem
  by_contra neither
  simp [within, not_or.mp neither] at outside

theorem exists_nested (depth : Nat) (text : List Char) :
    ∃ body rest, text = body ++ rest ∧ (Nested 0 (depth + 1) body ∨
      ∃ last, Nested (last + 1) (depth + 1) body ∧ rest = []) := by
  induction length : text.length using Nat.strong_induction_on generalizing depth text with
  | _ n ih =>
  subst length
  have longer {front rest : List Char} {deep : Nat} (shape : text = front ++ rest)
      (grows : front ≠ [])
      (more : ∀ {last body}, Nested last (deep + 1) body → Nested last (depth + 1) (front ++ body)) :
      ∃ body rest, text = body ++ rest ∧ (Nested 0 (depth + 1) body ∨
        ∃ last, Nested (last + 1) (depth + 1) body ∧ rest = []) := by
    have filled := List.length_pos_of_ne_nil grows
    obtain ⟨body, last, shape', nested⟩ :=
      ih rest.length (by rw [shape, List.length_append]; omega) deep rest rfl
    refine ⟨front ++ body, last, by rw [shape, shape', List.append_assoc], ?_⟩
    exact nested.imp more fun ⟨level, inside, ended⟩ => ⟨level, more inside, ended⟩
  by_cases opening : ['/', '*'] <+: text
  · obtain ⟨rest, rfl⟩ := opening
    exact longer rfl (by simp) .opens
  by_cases closing : ['*', '/'] <+: text
  · obtain ⟨rest, rfl⟩ := closing
    cases depth with
    | zero => exact ⟨['*', '/'], rest, rfl, .inl (.closes .done)⟩
    | succ depth => exact longer rfl (by simp) .closes
  cases text with
  | nil => exact ⟨[], [], rfl, .inr ⟨depth, .done, rfl⟩⟩
  | cons c rest =>
    obtain ⟨body, last, shape, nested⟩ := ih rest.length (by simp) depth rest rfl
    have apart {first second : Char} (other : ¬[first, second] <+: c :: rest) :
        ¬(c = first ∧ body.head? = some second) := by
      rintro ⟨rfl, next⟩
      obtain ⟨body, rfl⟩ := List.head?_eq_some_iff.mp next
      exact other ⟨body ++ last, by rw [shape]; rfl⟩
    refine ⟨c :: body, last, by rw [shape]; rfl, ?_⟩
    exact nested.imp (.skips (apart opening) (apart closing)) fun ⟨level, inside, ended⟩ =>
      ⟨level, .skips (apart opening) (apart closing) inside, ended⟩

/-- The first place where a text stands in another, if it does. -/
theorem exists_first {needle text : List Char} (found : needle <:+: text) :
    ∃ body rest, text = body ++ needle ++ rest ∧
      ∀ front, front ++ needle <+: body ++ needle → body.length ≤ front.length := by
  classical
  obtain ⟨body, rest, shape⟩ := found
  have somewhere : ∃ n, ∃ front, front.length = n ∧ front ++ needle <+: text :=
    ⟨body.length, body, rfl, rest, shape⟩
  obtain ⟨first, size, rest, shape⟩ := Nat.find_spec somewhere
  refine ⟨first, rest, shape.symm, fun front occurs => ?_⟩
  rw [size]
  have inText : front ++ needle <+: text := occurs.trans ⟨rest, shape⟩
  exact Nat.find_min' somewhere ⟨front, rfl, inText⟩

/-! The next piece of a text. -/

section Next

variable (context : Context)

def Reads (text : List Char) : Prop :=
  ∃ piece rest, text = piece.spelled ++ rest ∧ piece.spelled ≠ [] ∧
    ∀ pieces, Lexed (context.past piece.spelled) rest pieces → Lexed context text (piece :: pieces)

variable {context}

theorem reads_region {part rest : List Char} (region : Region context part rest)
    (filled : part ≠ []) : Reads context (part ++ rest) :=
  ⟨.text part, rest, rfl, filled, fun _ lexed => .region region lexed⟩

theorem reads_plain {c : Char} {rest : List Char} (plain : Plain context c rest) :
    Reads context (c :: rest) :=
  ⟨.text [c], rest, rfl, by simp [Piece.spelled], fun _ lexed => .plain plain lexed⟩

theorem exists_digits (text : List Char) : ∃ digits rest, text = digits ++ rest ∧
    (∀ c ∈ digits, c.isDigit = true) ∧ DigitsEnd rest :=
  ⟨text.takeWhile Char.isDigit, text.dropWhile Char.isDigit,
    List.takeWhile_append_dropWhile.symm, fun _ mem => List.mem_takeWhile_imp mem,
    Text.dropWhile_head⟩

theorem reads_quoted {quote : Char} {escapes : Bool} (text : List Char)
    (region : ∀ {part rest}, QuotedPart quote escapes part rest → Region context part rest) :
    Reads context (quote :: text) := by
  obtain ⟨part, rest, shape, quoted⟩ := exists_quoted quote escapes text
  rw [shape]
  apply reads_region (region quoted)
  cases quoted
  simp

theorem reads_dollar (text : List Char) : Reads context ('$' :: text) := by
  by_cases free : context.identifier = false
  · obtain ⟨digits, rest, rfl, digit, ends⟩ := exists_digits text
    by_cases number : digits = []
    · subst number
      by_cases opens : OpensDollar rest
      · obtain ⟨tag, named, text, rfl⟩ := opens
        have shape : '$' :: (tag ++ ['$'] ++ text) = delimiterOf tag ++ text := rfl
        rw [List.nil_append, shape]
        by_cases found : delimiterOf tag <:+: text
        · obtain ⟨body, last, rfl, first⟩ := exists_first found
          rw [← List.append_assoc, ← List.append_assoc]
          exact reads_region (.dollar free named first) (by simp [delimiterOf])
        · rw [← List.append_nil (delimiterOf tag ++ text)]
          exact reads_region (.unclosedDollar free named found) (by simp [delimiterOf])
      · exact reads_plain {
          quotes := by decide, line := by simp, block := by simp, mark := by decide
          sign := by simp, dollar := fun _ _ => ⟨ends, opens⟩ }
    · exact ⟨.parameter digits, rest, rfl, by simp [Piece.spelled],
        fun _ lexed => .parameter free number digit ends lexed⟩
  · exact reads_plain {
      quotes := by decide, line := by simp, block := by simp, mark := by decide
      sign := by simp, dollar := fun _ free' => absurd free' free }

theorem reads_any (c : Char) (text : List Char) : Reads context (c :: text) := by
  by_cases string : c = '\''
  · exact string ▸ reads_quoted text .string
  by_cases identifier : c = '"'
  · exact identifier ▸ reads_quoted text .identifier
  by_cases dollar : c = '$'
  · exact dollar ▸ reads_dollar text
  by_cases line : ['-', '-'] <+: c :: text
  · obtain ⟨text, shape⟩ := line
    obtain ⟨body, rest, rfl, inside, ends⟩ := exists_line text
    rw [← shape, ← List.append_assoc]
    exact reads_region (.line inside ends) (by simp)
  by_cases block : ['/', '*'] <+: c :: text
  · obtain ⟨text, shape⟩ := block
    rw [← shape]
    obtain ⟨body, rest, rfl, closed | ⟨last, inside, rfl⟩⟩ := exists_nested 0 text
    · rw [← List.append_assoc]
      exact reads_region (.block closed) (by simp)
    · rw [← List.append_assoc]
      exact reads_region (.unclosedBlock inside) (by simp)
  by_cases mark : c = '?'
  · obtain ⟨digits, rest, rfl, digit, ends⟩ := exists_digits text
    subst mark
    exact ⟨.anonymous ('?' :: digits), rest, rfl, by simp [Piece.spelled],
      fun _ lexed => .anonymous (.mark digit) ends lexed⟩
  by_cases sign : c = '@' ∧ ∃ p ∈ text.head?, isP p = true
  · obtain ⟨rfl, p, next, letter⟩ := sign
    obtain ⟨text, rfl⟩ := List.head?_eq_some_iff.mp next
    obtain ⟨digits, rest, rfl, digit, ends⟩ := exists_digits text
    exact ⟨.anonymous ('@' :: p :: digits), rest, rfl, by simp [Piece.spelled],
      fun _ lexed => .anonymous (.sign letter digit) ends lexed⟩
  · have apart {first second : Char} (other : ¬[first, second] <+: c :: text) (same : c = first) :
        text.head? ≠ some second := by
      rintro next
      obtain ⟨rest, rfl⟩ := List.head?_eq_some_iff.mp next
      exact other ⟨rest, by rw [same]; rfl⟩
    exact reads_plain {
      quotes := ⟨string, identifier⟩, line := apart line, block := apart block, mark := mark
      sign := fun same p next => by
        by_contra letter
        exact sign ⟨same, p, next, by simpa using letter⟩
      dollar := fun same => absurd same dollar }

end Next

theorem Lexed.exists_pieces (context : Context) (text : List Char) :
    ∃ pieces, Lexed context text pieces := by
  induction length : text.length using Nat.strong_induction_on generalizing context text with
  | _ n ih =>
  subst length
  cases text with
  | nil => exact ⟨[], .nil context⟩
  | cons c text =>
    obtain ⟨piece, rest, shape, filled, more⟩ := @reads_any context c text
    have shorter : rest.length < (c :: text).length := by
      rw [shape, List.length_append]
      have := List.length_pos_of_ne_nil filled
      omega
    obtain ⟨pieces, lexed⟩ := ih rest.length shorter (context.past piece.spelled) rest rfl
    exact ⟨piece :: pieces, more pieces lexed⟩
end GraphqlOrm.Query
