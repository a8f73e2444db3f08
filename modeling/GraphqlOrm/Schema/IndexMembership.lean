import GraphqlOrm.Schema.IndexPredicate

/-!
# What predicates mean

The meaning of a condition in SQL, as far as conditions look like membership tests, and
when the parser has understood what it accepts.

## Main result

`index_predicates`: rendered and deparsed predicates are read back, and what is accepted
is the membership test it is taken for, if names are written as the backends write them.
-/
namespace GraphqlOrm.Schema

open Text Scanning DatabaseBackend

/-! ### Conditions -/

inductive SqlTerm where
  | column (key : String)
  | null
  | text (value : String)
  /-- A function of an array of texts. -/
  | call (function : String) (elements : List String)
deriving DecidableEq

inductive SqlCondition where
  | among (term : SqlTerm) (values : List String)
  | equals (left right : SqlTerm)
deriving DecidableEq

section Meaning

variable (functions : String → List String → Option String) (row : String → Option String)

/-- The value of a term in a row; nothing stands for `NULL`. -/
def SqlTerm.value : SqlTerm → Option String
  | column key => row key
  | null => none
  | text value => some value
  | call function elements => functions function elements

/-- The condition is true; with `NULL` it is not. -/
def SqlCondition.Holds : SqlCondition → Prop
  | among term values => ∃ value ∈ values, term.value functions row = some value
  | equals left right =>
    ∃ value, left.value functions row = some value ∧ right.value functions row = some value

end Meaning

/-! ### Reading SQL -/

/-- A token that keeps whether an identifier is quoted. -/
inductive SqlLexeme where
  | bare (word : String)
  | quoted (name : String)
  | other (token : StructuralSqlToken)
deriving DecidableEq

def SqlLexeme.token : SqlLexeme → StructuralSqlToken
  | bare word => .ident word
  | quoted name => .ident name
  | other token => token

/-- A token as the backend reads it: any character outside ASCII belongs to a word, and a
word right before a string would change how the string is read. SQLite has neither arrays
nor casts of this form. -/
def readLexeme (backend : DatabaseBackend) (c : Char) (rest : List Char) :
    Option (SqlLexeme × List Char) :=
  if c = '"' then
    (delimited '"' rest).map fun (name, left) => (.quoted (String.ofList name), left)
  else if backend.plainStart c then
    if (rest.span backend.plainRest).2.head? = some '\'' then none
    else some (.bare (String.ofList (c :: (rest.span backend.plainRest).1)),
      (rest.span backend.plainRest).2)
  else if backend = .sqlite ∧ (c = '[' ∨ c = ']' ∨ c = ':') then none
  else (readStructuralToken c rest).map fun (token, left) => (.other token, left)

def sqlLexemes (backend : DatabaseBackend) (expression : String) : Option (List SqlLexeme) :=
  scan isAsciiWhitespace (readLexeme backend) expression.toList.length expression.toList

def isKeyword (lexeme : Option SqlLexeme) (expected : String) : Bool :=
  match lexeme with
  | some (.bare word) => eqIgnoreCase word expected
  | _ => false

def isTextType : Option SqlLexeme → Bool
  | some (.bare word) => eqIgnoreCase word "text"
  | some (.quoted name) => name == "text"
  | _ => false

def readElement : List SqlLexeme → Option (String × List SqlLexeme)
  | .other (.string value) :: rest =>
    if rest.head? = some (.other .doubleColon) then
      if isTextType rest.tail.head? then some (value, rest.tail.tail) else none
    else some (value, rest)
  | _ => none

def readElements : Nat → List SqlLexeme → Option (List String × List SqlLexeme)
  | 0, _ => none
  | fuel + 1, lexemes => do
    let (value, rest) ← readElement lexemes
    if rest.head? = some (.other .comma) then
      let (values, left) ← readElements fuel rest.tail
      return (value :: values, left)
    else return ([value], rest)

def readArrayEnd : List SqlLexeme → Option (List SqlLexeme)
  | .other .rightBracket :: rest =>
    if rest.head? = some (.other .doubleColon) then
      if isTextType rest.tail.head? ∧
          rest.tail.tail.take 2 = [.other .leftBracket, .other .rightBracket] then
        some (rest.tail.tail.drop 2)
      else none
    else some rest
  | _ => none

/-- `ARRAY[elements]`, and perhaps a cast to an array of texts. -/
def readArray (lexemes : List SqlLexeme) : Option (List String × List SqlLexeme) :=
  if isKeyword lexemes.head? "array" ∧ lexemes.tail.head? = some (.other .leftBracket) then do
    let (values, left) ← readElements lexemes.length lexemes.tail.tail
    let after ← readArrayEnd left
    return (values, after)
  else none

/-- The key of a column in a row: SQLite does not tell names apart by letter case. -/
def columnKey (backend : DatabaseBackend) (name : String) : String :=
  if backend = .sqlite then lower name else name

/-- The name that an identifier stands for, unless it is a reserved word. -/
def identifierName (backend : DatabaseBackend) : SqlLexeme → Option String
  | .bare word => if lower word ∈ backend.reservedIdentifiers then none else some (lower word)
  | .quoted name => some name
  | .other _ => none

def readTerm (backend : DatabaseBackend) : List SqlLexeme → Option (SqlTerm × List SqlLexeme)
  | [] => none
  | lexeme :: rest =>
    if rest.head? = some (.other .leftParen) then do
      let function ← identifierName backend lexeme
      let (elements, left) ← readArray rest.tail
      if left.head? = some (.other .rightParen) then return (.call function elements, left.tail)
      else none
    else if isKeyword (some lexeme) "null" then some (.null, rest)
    else
      match lexeme with
      | .other (.string value) => some (.text value, rest)
      | lexeme => (identifierName backend lexeme).map fun name =>
        (.column (columnKey backend name), rest)

def readComparison (backend : DatabaseBackend) (lexemes : List SqlLexeme) :
    Option (SqlCondition × List SqlLexeme) := do
  let (term, rest) ← readTerm backend lexemes
  if isKeyword rest.head? "in" ∧ rest.tail.head? = some (.other .leftParen) then
    let (values, after) ← readElements rest.length rest.tail.tail
    if after.head? = some (.other .rightParen) then return (.among term values, after.tail)
    else none
  else if rest.head? = some (.other .equals) then
    if isKeyword rest.tail.head? "any" ∧ rest.tail.tail.head? = some (.other .leftParen) then
      let (values, after) ← readArray rest.tail.tail.tail
      if after.head? = some (.other .rightParen) then return (.among term values, after.tail)
      else none
    else
      let (right, after) ← readTerm backend rest.tail
      return (.equals term right, after)
  else none

def readCondition (backend : DatabaseBackend) :
    Nat → List SqlLexeme → Option (SqlCondition × List SqlLexeme)
  | 0, _ => none
  | fuel + 1, lexemes =>
    if lexemes.head? = some (.other .leftParen) then do
      let (condition, rest) ← readCondition backend fuel lexemes.tail
      if rest.head? = some (.other .rightParen) then return (condition, rest.tail) else none
    else readComparison backend lexemes

def sqlCondition (backend : DatabaseBackend) (expression : String) : Option SqlCondition := do
  let lexemes ← sqlLexemes backend expression
  let (condition, rest) ← readCondition backend lexemes.length lexemes
  if rest = [] then return condition else none

/-- The text is a condition that is true exactly in the rows whose column has one of the
values, whatever functions there are. -/
def Denotes (backend : DatabaseBackend) (expression : String) (predicate : IndexPredicateModel) :
    Prop :=
  ∃ condition, sqlCondition backend expression = some condition ∧ ∀ functions row,
    condition.Holds functions row ↔
      ∃ value ∈ predicate.values, row (columnKey backend predicate.column) = some value

/-! ### Plain writing -/

def opened (lexemes : List SqlLexeme) : List SqlLexeme :=
  lexemes.dropWhile (· = .other .leftParen)

/-- As the backends write their conditions: bare words are of ASCII characters, behind the
column only the type is perhaps quoted, and a bare column is no reserved word and on
PostgreSQL lower-case. -/
structure PlainlyWritten (backend : DatabaseBackend) (lexemes : List SqlLexeme) : Prop where
  words : ∀ word, .bare word ∈ lexemes → word.toList.all isIdentChar = true
  quoted : ∀ name, .quoted name ∈ (opened lexemes).tail → name = "text"
  column : ∀ word, (opened lexemes).head? = some (.bare word) →
    lower word ∉ backend.reservedIdentifiers ∧ (backend = .postgres → lower word = word)

/-! ### Lexemes and tokens -/

def SqlLexeme.Proper : SqlLexeme → Prop
  | other (.ident _) => False
  | _ => True

variable {token : StructuralSqlToken}

variable {first : SqlLexeme}

section Simulation

variable {lexemes : List SqlLexeme} {rest : List StructuralSqlToken}

def OnlyType (lexemes : List SqlLexeme) : Prop :=
  ∀ lexeme ∈ lexemes, lexeme.Proper ∧ ∀ written, lexeme = .quoted written → written = "text"

theorem OnlyType.suffix {later : List SqlLexeme} (only : OnlyType lexemes)
    (suffix : later <:+ lexemes) : OnlyType later :=
  fun lexeme mem => only lexeme (suffix.subset mem)

theorem OnlyType.tail (only : OnlyType (first :: lexemes)) :
    OnlyType lexemes :=
  only.suffix (List.suffix_cons _ _)

theorem token_other (noIdent : ∀ value, token ≠ .ident value)
    (whole : lexemes.map SqlLexeme.token = token :: rest) :
    ∃ later, lexemes = .other token :: later ∧ rest = later.map SqlLexeme.token := by
  obtain ⟨lexeme, later, rfl, same, rfl⟩ := List.map_eq_cons_iff.mp whole
  cases lexeme with
  | bare word => exact absurd same.symm (noIdent word)
  | quoted written => exact absurd same.symm (noIdent written)
  | other token' =>
    cases same
    exact ⟨later, rfl, rfl⟩

theorem head_other (noIdent : ∀ value, token ≠ .ident value)
    (head : (lexemes.map SqlLexeme.token).head? = some token) :
    ∃ later, lexemes = .other token :: later := by
  obtain ⟨after, spelled⟩ := List.head?_eq_some_iff.mp head
  obtain ⟨later, rfl, -⟩ := token_other noIdent spelled
  exact ⟨later, rfl⟩

variable {expected : String}

theorem structuralIdent_iff {token : Option StructuralSqlToken} :
    structuralIdent token expected = true ↔
      ∃ word, token = some (.ident word) ∧ eqIgnoreCase word expected = true := by
  unfold structuralIdent
  split
  next word => simp
  next other =>
    constructor
    · exact nofun
    · rintro ⟨word, rfl, -⟩
      exact absurd rfl (other word)

theorem head_ident (only : OnlyType lexemes)
    (head : structuralIdent (lexemes.map SqlLexeme.token).head? expected = true) :
    ∃ lexeme later word, lexemes = lexeme :: later ∧ eqIgnoreCase word expected = true ∧
      (lexeme = .bare word ∨ lexeme = .quoted word ∧ word = "text") := by
  obtain ⟨word, same, keyword⟩ := structuralIdent_iff.mp head
  cases lexemes with
  | nil => cases same
  | cons lexeme later =>
    obtain ⟨proper, named⟩ := only lexeme (.head _)
    refine ⟨lexeme, later, word, rfl, keyword, ?_⟩
    cases lexeme with
    | bare written =>
      cases same
      exact .inl rfl
    | quoted written =>
      cases same
      exact .inr ⟨rfl, named word rfl⟩
    | other token =>
      obtain rfl : token = .ident word := Option.some.inj same
      exact proper.elim

/-- A keyword that could not be the type. -/
theorem head_keyword (only : OnlyType lexemes) (noType : eqIgnoreCase "text" expected = false)
    (head : structuralIdent (lexemes.map SqlLexeme.token).head? expected = true) :
    ∃ lexeme later, lexemes = lexeme :: later ∧ isKeyword (some lexeme) expected = true := by
  obtain ⟨lexeme, later, word, whole, keyword, rfl | ⟨-, rfl⟩⟩ := head_ident only head
  · exact ⟨.bare word, later, whole, keyword⟩
  · rw [noType] at keyword
    cases keyword

theorem head_textType (only : OnlyType lexemes)
    (head : structuralIdent (lexemes.map SqlLexeme.token).head? "text" = true) :
    ∃ lexeme later, lexemes = lexeme :: later ∧ isTextType (some lexeme) = true := by
  obtain ⟨lexeme, later, word, whole, keyword, rfl | ⟨rfl, rfl⟩⟩ := head_ident only head
  · exact ⟨.bare word, later, whole, keyword⟩
  · exact ⟨.quoted "text", later, whole, rfl⟩

/-! ### The parser and the reading -/

/-- What follows the lexemes does not matter if some of them are left. -/
theorem readElement_of_parse {value : String} (only : OnlyType lexemes)
    (parsed : parseStructuralStringValue (lexemes.map SqlLexeme.token) = some (value, rest))
    (more : rest ≠ []) :
    ∃ later, rest = later.map SqlLexeme.token ∧ later <:+ lexemes ∧ ∀ tail,
      readElement (lexemes ++ tail) = some (value, later ++ tail) := by
  unfold parseStructuralStringValue at parsed
  split at parsed
  next value' rest' whole =>
    obtain ⟨later, rfl, rfl⟩ := token_other (by simp) whole
    split at parsed
    next cast =>
      split at parsed
      next text =>
        cases Option.some.inj parsed
        obtain ⟨typed, rfl⟩ := head_other (by simp) cast
        rw [List.map_cons, List.tail_cons] at text more ⊢
        obtain ⟨lexeme, later, rfl, type⟩ := head_textType only.tail.tail text
        refine ⟨later, rfl, ?_, ?_⟩
        · exact ((List.suffix_cons _ _).trans (List.suffix_cons _ _)).trans (List.suffix_cons _ _)
        · intro tail
          simp [readElement, type]
      · cases parsed
    next noCast =>
      cases Option.some.inj parsed
      refine ⟨later, rfl, List.suffix_cons _ _, ?_⟩
      intro tail
      cases later with
      | nil => exact absurd rfl more
      | cons lexeme later =>
        have noCast : lexeme ≠ .other .doubleColon := by
          rintro rfl
          exact noCast rfl
        simp [readElement, noCast]
  · cases parsed

theorem readElements_of_parse {values : List String} {fuel : Nat} (only : OnlyType lexemes)
    (parsed : parseValues fuel (lexemes.map SqlLexeme.token) = some (values, rest))
    (more : rest ≠ []) :
    ∃ later, rest = later.map SqlLexeme.token ∧ later <:+ lexemes ∧ ∀ tail fuel', fuel ≤ fuel' →
      readElements fuel' (lexemes ++ tail) = some (values, later ++ tail) := by
  induction fuel generalizing lexemes values with
  | zero => cases parsed
  | succ fuel ih =>
    rw [parseValues] at parsed
    obtain ⟨⟨value, next⟩, first, parsed⟩ := Option.bind_eq_some_iff.mp parsed
    dsimp only at parsed
    split at parsed
    next comma =>
      obtain ⟨⟨others, left⟩, inner, same⟩ := Option.bind_eq_some_iff.mp parsed
      cases Option.some.inj same
      have filled : next ≠ [] := by
        rintro rfl
        cases comma
      obtain ⟨following, rfl, suffix, element⟩ := readElement_of_parse only first filled
      obtain ⟨following, rfl⟩ := head_other (by simp) comma
      rw [List.map_cons, List.tail_cons] at inner
      have suffix := (List.suffix_cons _ _).trans suffix
      obtain ⟨later, rfl, suffix', elements⟩ := ih (only.suffix suffix) inner
      refine ⟨later, rfl, suffix'.trans suffix, ?_⟩
      intro tail fuel' enough
      obtain ⟨fuel', rfl⟩ : ∃ n, fuel' = n + 1 := ⟨fuel' - 1, by omega⟩
      rw [readElements, element]
      simp [elements tail fuel' (Nat.le_of_succ_le_succ enough)]
    next last =>
      cases Option.some.inj parsed
      obtain ⟨later, rfl, suffix, element⟩ := readElement_of_parse only first more
      refine ⟨later, rfl, suffix, ?_⟩
      intro tail fuel' enough
      obtain ⟨fuel', rfl⟩ : ∃ n, fuel' = n + 1 := ⟨fuel' - 1, by omega⟩
      rw [readElements, element]
      cases later with
      | nil => exact absurd rfl more
      | cons lexeme later =>
        have last : lexeme ≠ .other .comma := by
          rintro rfl
          exact last rfl
        simp [last]

theorem readArrayEnd_of_parse (only : OnlyType lexemes)
    (parsed : parseArrayEnd (lexemes.map SqlLexeme.token) = some rest) (more : rest ≠ []) :
    ∃ later, rest = later.map SqlLexeme.token ∧ ∀ tail,
      readArrayEnd (lexemes ++ tail) = some (later ++ tail) := by
  unfold parseArrayEnd at parsed
  split at parsed
  next rest' whole =>
    obtain ⟨later, rfl, rfl⟩ := token_other (by simp) whole
    split at parsed
    next cast =>
      split at parsed
      next text =>
        cases Option.some.inj parsed
        obtain ⟨typed, rfl⟩ := head_other (by simp) cast
        rw [List.map_cons, List.tail_cons] at text more ⊢
        obtain ⟨text, brackets⟩ := text
        obtain ⟨lexeme, typed, rfl, type⟩ := head_textType only.tail.tail text
        rw [List.map_cons, List.tail_cons] at brackets more ⊢
        -- The brackets of the type are the next two tokens.
        have spelled := (List.take_append_drop 2 (typed.map SqlLexeme.token)).symm
        rw [brackets] at spelled
        generalize (typed.map SqlLexeme.token).drop 2 = left at spelled more ⊢
        obtain ⟨typed, rfl, next⟩ := token_other (by simp) spelled
        obtain ⟨later, rfl, rfl⟩ := token_other (by simp) next.symm
        refine ⟨later, rfl, ?_⟩
        intro tail
        simp [readArrayEnd, type]
      · cases parsed
    next noCast =>
      cases Option.some.inj parsed
      refine ⟨later, rfl, ?_⟩
      intro tail
      cases later with
      | nil => exact absurd rfl more
      | cons lexeme later =>
        have noCast : lexeme ≠ .other .doubleColon := by
          rintro rfl
          exact noCast rfl
        simp [readArrayEnd, noCast]
  · cases parsed

/-- The values and what closes them, in a membership test of either form. -/
theorem membershipValues_eq_some {isIn : Bool} {inside : List StructuralSqlToken}
    {stored : List String} (parsed : membershipValues isIn inside = some stored) :
    ∃ values left, parseValues inside.length inside = some (values, left) ∧
      stored = closedSet values ∧
      (if isIn then some left else parseArrayEnd left) = some [.rightParen] := by
  obtain ⟨⟨values, left⟩, read, parsed⟩ := Option.bind_eq_some_iff.mp parsed
  refine ⟨values, left, read, ?_⟩
  cases isIn with
  | true =>
    rw [if_pos rfl]
    simp only [if_true, Option.bind_eq_bind, Option.bind_some] at parsed
    split at parsed
    next last =>
      cases Option.some.inj parsed
      exact ⟨rfl, by rw [last]⟩
    · cases parsed
  | false =>
    rw [if_neg (by simp)]
    obtain ⟨closing, closes, parsed⟩ := Option.bind_eq_some_iff.mp parsed
    dsimp only at parsed
    split at parsed
    next last =>
      cases Option.some.inj parsed
      exact ⟨rfl, by rw [closes, last]⟩
    · cases parsed

theorem parseArrayEnd_filled {left closing : List StructuralSqlToken}
    (closes : parseArrayEnd left = some closing) : left ≠ [] := by
  rintro rfl
  cases closes

/-- Behind the column, an accepted test is read as the membership test it is taken for. -/
theorem readComparison_of_parse {backend : DatabaseBackend} {term : SqlTerm}
    (only : OnlyType lexemes) {isIn : Bool} {inside : List StructuralSqlToken}
    {stored : List String} (column : ∀ rest, rest.head? ≠ some (.other .leftParen) →
      readTerm backend (first :: rest) = some (term, rest))
    (start : membershipStart (lexemes.map SqlLexeme.token) = some (isIn, inside))
    (parsed : membershipValues isIn inside = some stored) :
    ∃ values, stored = closedSet values ∧ ∀ tail,
      readComparison backend (first :: (lexemes ++ tail)) = some (.among term values, tail) := by
  obtain ⟨values, left, read, rfl, closes⟩ := membershipValues_eq_some parsed
  refine ⟨values, rfl, ?_⟩
  unfold membershipStart at start
  split at start
  next keyword =>
    split at start
    next opens =>
      obtain ⟨rfl, rfl⟩ := Prod.mk.inj (Option.some.inj start)
      rw [if_pos rfl, Option.some.injEq] at closes
      subst closes
      obtain ⟨test, lexemes, rfl, isIn⟩ := head_keyword only (by decide) keyword
      rw [List.map_cons, List.tail_cons] at opens read
      obtain ⟨inner, rfl⟩ := head_other (by simp) opens
      rw [List.map_cons, List.tail_cons] at read
      have onlyInner := only.tail.tail
      obtain ⟨later, closing, -, elements⟩ := readElements_of_parse onlyInner read (by simp)
      obtain ⟨later, rfl, none⟩ := token_other (by simp) closing.symm
      obtain rfl := List.map_eq_nil_iff.mp none.symm
      intro tail
      have noCall : test ≠ .other .leftParen := by
        rintro rfl
        cases isIn
      have inside := elements tail (inner.length + tail.length + 2) (by rw [List.length_map]; omega)
      rw [readComparison, column _ (by simp [noCall])]
      simp [isIn, inside]
    · cases start
  next noKeyword =>
    split at start
    next forms =>
      obtain ⟨rfl, rfl⟩ := Prod.mk.inj (Option.some.inj start)
      rw [if_neg (by simp)] at closes
      obtain ⟨equals, any, opens, array, bracket⟩ := forms
      obtain ⟨lexemes, rfl⟩ := head_other (by simp) equals
      rw [List.map_cons, List.tail_cons] at any opens array bracket
      rw [List.map_cons, List.drop_succ_cons] at read
      obtain ⟨test, lexemes, rfl, isAny⟩ := head_keyword only.tail (by decide) any
      rw [List.map_cons, List.tail_cons] at opens array bracket
      rw [List.map_cons, List.drop_succ_cons] at read
      obtain ⟨lexemes, rfl⟩ := head_other (by simp) opens
      rw [List.map_cons, List.tail_cons] at array bracket
      rw [List.map_cons, List.drop_succ_cons] at read
      obtain ⟨kind, lexemes, rfl, isArray⟩ := head_keyword only.tail.tail.tail (by decide) array
      rw [List.map_cons, List.tail_cons] at bracket
      rw [List.map_cons, List.drop_succ_cons] at read
      obtain ⟨inner, rfl⟩ := head_other (by simp) bracket
      rw [List.map_cons, List.drop_succ_cons, List.drop_zero] at read
      have onlyInner := only.tail.tail.tail.tail.tail
      obtain ⟨later, rfl, suffix, elements⟩ :=
        readElements_of_parse onlyInner read (parseArrayEnd_filled closes)
      obtain ⟨closing, same, arrayEnd⟩ :=
        readArrayEnd_of_parse (onlyInner.suffix suffix) closes (by simp)
      obtain ⟨closing, rfl, none⟩ := token_other (by simp) same.symm
      obtain rfl := List.map_eq_nil_iff.mp none.symm
      intro tail
      have inside := elements tail (inner.length + tail.length + 2) (by rw [List.length_map]; omega)
      have array : readArray (kind :: .other .leftBracket :: (inner ++ tail)) =
          some (values, .other .rightParen :: tail) := by
        simp [readArray, isArray, inside, arrayEnd]
      rw [readComparison, column _ (by simp)]
      have noIn : isKeyword (some (.other .equals)) "in" = false := rfl
      simp [noIn, isAny, array]
    · cases start

end Simulation

/-! ### Reading tokens from lexemes -/

variable {backend : DatabaseBackend}

variable {c : Char}

theorem isWhitespace_of_ascii (blank : isAsciiWhitespace c = true) :
    isWhitespace c = true := by
  simp only [isAsciiWhitespace, Bool.or_eq_true, beq_iff_eq] at blank
  rcases blank with (((rfl | rfl) | rfl) | rfl) | rfl <;> rfl

theorem isAscii_of_isIdentChar (char : isIdentChar c = true) : isAscii c = true := by
  have small : c.toNat < 128 := by
    simp only [isIdentChar, Char.isAlphanum, Bool.or_eq_true, beq_iff_eq, isAlpha_iff, isUpper_iff,
      isLower_iff] at char
    rcases char with (((upper | lower) | digit)) | rfl
    · omega
    · omega
    · exact (Char.isDigit_iff_toNat.mp digit).2.trans_lt (by decide)
    · decide
  exact decide_eq_true small

theorem plainStart_ident (known : backend ≠ .mssql) (char : isIdentChar c = true)
    (start : backend.plainStart c = true) : c.isAlpha = true ∨ c = '_' := by
  have ascii := isAscii_of_isIdentChar char
  simpa [plainStart, ascii, known] using start

theorem plainRest_of_isIdentChar (char : isIdentChar c = true) :
    backend.plainRest c = true := by
  simp only [isIdentChar, Char.isAlphanum, Bool.or_eq_true, beq_iff_eq] at char
  rcases char with (letter | digit) | rfl
  · simp [plainRest, plainStart, letter]
  · simp [plainRest, digit]
  · simp [plainRest, plainStart]

/-- No token starts with a blank. -/
theorem readStructuralToken_start {rest : List Char} {read : StructuralSqlToken × List Char}
    (found : readStructuralToken c rest = some read) :
    isWhitespace c = false := by
  unfold readStructuralToken at found
  split at found
  next sign =>
    by_contra blank
    have noSign : signToken c = none := by
      have other (d : Char) (visible : isWhitespace d = false) : c ≠ d := by
        rintro rfl
        exact blank visible
      simp only [signToken, if_neg (other '(' rfl), if_neg (other ')' rfl), if_neg (other '[' rfl),
        if_neg (other ']' rfl), if_neg (other ',' rfl), if_neg (other '=' rfl),
        if_neg (other ';' rfl)]
    rw [noSign] at sign
    cases sign
  split at found
  next same =>
    rw [same]
    rfl
  split at found
  next same =>
    rw [same]
    rfl
  split at found
  next same =>
    rw [same]
    rfl
  split at found
  next start => exact not_whitespace start
  split at found
  next digit =>
    obtain ⟨low, high⟩ : 48 ≤ c.toNat ∧ c.toNat ≤ 57 := Char.isDigit_iff_toNat.mp digit
    rw [← Char.ofNat_toNat c]
    interval_cases c.toNat <;> rfl
  · cases found

theorem span_smaller {p q : Char → Bool} {cs word left : List Char}
    (smaller : ∀ c, p c = true → q c = true) (run : cs.span q = (word, left))
    (inside : word.all p = true) : cs.span p = (word, left) := by
  rw [List.span_eq_takeWhile_dropWhile] at run ⊢
  obtain ⟨rfl, rfl⟩ := Prod.mk.inj run
  have whole : cs = cs.takeWhile q ++ cs.dropWhile q := List.takeWhile_append_dropWhile.symm
  have stops : ∀ c ∈ (cs.dropWhile q).head?, p c = false := by
    intro c mem
    have stop := dropWhile_head c mem
    by_contra char
    rw [smaller c (by simpa using char)] at stop
    cases stop
  have all : ∀ c ∈ cs.takeWhile q, p c = true := by simpa using inside
  have none : (cs.dropWhile q).takeWhile p = [] := by
    cases rest : cs.dropWhile q with
    | nil => rfl
    | cons c rest' =>
      rw [rest] at stops
      simp [stops c rfl]
  have taken : cs.takeWhile p = cs.takeWhile q := by
    conv_lhs => rw [whole]
    rw [List.takeWhile_append_of_pos all, none, List.append_nil]
  have dropped : cs.dropWhile p = cs.dropWhile q := by
    conv_lhs => rw [whole]
    rw [List.dropWhile_append_of_pos all, dropWhile_eq_self stops]
  rw [taken, dropped]

/-- A lexeme whose words are of ASCII characters is the token of the source. -/
theorem readLexeme_token (known : backend ≠ .mssql) {rest left : List Char} {lexeme : SqlLexeme}
    (read : readLexeme backend c rest = some (lexeme, left))
    (ascii : ∀ word, lexeme = .bare word → word.toList.all isIdentChar = true) :
    isWhitespace c = false ∧ readStructuralToken c rest = some (lexeme.token, left) := by
  suffices found : readStructuralToken c rest = some (lexeme.token, left) from
    ⟨readStructuralToken_start found, found⟩
  unfold readLexeme at read
  split at read
  next quote =>
    subst quote
    obtain ⟨found, body, same⟩ := Option.map_eq_some_iff.mp read
    obtain ⟨rfl, rfl⟩ := Prod.mk.inj same
    change (delimited '"' rest).map _ = _
    rw [body]
    rfl
  split at read
  next start =>
    split at read
    · cases read
    next noString =>
      obtain ⟨rfl, rfl⟩ := Prod.mk.inj (Option.some.inj read)
      have letters := ascii _ rfl
      rw [String.toList_ofList, List.all_cons, Bool.and_eq_true] at letters
      rw [readStructuralToken_word (plainStart_ident known letters.1 start),
        span_smaller (fun _ => plainRest_of_isIdentChar) rfl letters.2]
      rfl
  split at read
  · cases read
  next =>
    obtain ⟨found, token, same⟩ := Option.map_eq_some_iff.mp read
    obtain ⟨rfl, rfl⟩ := Prod.mk.inj same
    exact token

theorem signToken_proper (sign : signToken c = some token) : (SqlLexeme.other token).Proper := by
  cases token with
  | ident value =>
    unfold signToken at sign
    repeat' split at sign
    all_goals cases sign
  | _ => trivial

theorem readLexeme_proper {rest left : List Char} {lexeme : SqlLexeme}
    (read : readLexeme backend c rest = some (lexeme, left)) : lexeme.Proper := by
  unfold readLexeme at read
  split at read
  · obtain ⟨found, -, same⟩ := Option.map_eq_some_iff.mp read
    cases same
    trivial
  next noQuote =>
    split at read
    · split at read
      · cases read
      · cases read
        trivial
    next noWord =>
      split at read
      · cases read
      obtain ⟨⟨token, left'⟩, found, same⟩ := Option.map_eq_some_iff.mp read
      cases same
      -- Identifiers come from quotes and letters, which are behind us.
      have noLetter : ¬(c.isAlpha = true ∨ c = '_') := by
        rintro (letter | rfl)
        · exact noWord (by simp [plainStart, letter])
        · exact noWord (by simp [plainStart])
      unfold readStructuralToken at found
      rw [if_neg noQuote, if_neg noLetter] at found
      split at found
      · obtain ⟨sign, known, same⟩ := Option.map_eq_some_iff.mp found
        cases same
        exact signToken_proper known
      split at found
      · split at found <;> cases found
        trivial
      split at found
      · obtain ⟨string, -, same⟩ := Option.map_eq_some_iff.mp found
        cases same
        trivial
      split at found <;> cases found
      trivial

/-! ### Accepted predicates -/

theorem map_token_replicate (noIdent : ∀ value, token ≠ .ident value) {lexemes : List SqlLexeme}
    {count : Nat} (same : lexemes.map SqlLexeme.token = List.replicate count token) :
    lexemes = List.replicate count (.other token) := by
  induction count generalizing lexemes with
  | zero => exact List.map_eq_nil_iff.mp same
  | succ count ih =>
    rw [List.replicate_succ] at same
    obtain ⟨later, rfl, rest⟩ := token_other noIdent same
    rw [List.replicate_succ, ih rest.symm]

theorem readCondition_enclosed {lexemes : List SqlLexeme} {condition : SqlCondition}
    (bare : ∀ tail, (lexemes ++ tail).head? ≠ some (.other .leftParen))
    (read : ∀ tail, readComparison backend (lexemes ++ tail) = some (condition, tail))
    (count fuel : Nat) (tail : List SqlLexeme) :
    readCondition backend (count + fuel + 1) (List.replicate count (.other .leftParen) ++
      (lexemes ++ (List.replicate count (.other .rightParen) ++ tail))) =
        some (condition, tail) := by
  induction count generalizing tail with
  | zero =>
    have start : 0 + fuel + 1 = fuel + 1 := by omega
    rw [List.replicate_zero, List.replicate_zero, List.nil_append, List.nil_append, start,
      readCondition, if_neg (bare tail), read]
  | succ count ih =>
    have inner := ih (.other .rightParen :: tail)
    have closing : List.replicate (count + 1) (SqlLexeme.other .rightParen) ++ tail =
        List.replicate count (.other .rightParen) ++ .other .rightParen :: tail := by
      rw [List.replicate_succ', List.append_assoc]
      rfl
    have more : count + 1 + fuel + 1 = (count + fuel + 1) + 1 := by omega
    rw [closing, List.replicate_succ, List.cons_append, more, readCondition,
      List.head?_cons, if_pos rfl, List.tail_cons, inner]
    rfl

/-- The column as a term. -/
theorem readTerm_column {column : String} (proper : first.Proper)
    (supported : backend = .sqlite ∨ backend = .postgres) (token : first.token = .ident column)
    (plain : ∀ word, first = .bare word →
      lower word ∉ backend.reservedIdentifiers ∧ (backend = .postgres → lower word = word))
    (rest : List SqlLexeme) (noCall : rest.head? ≠ some (.other .leftParen)) :
    readTerm backend (first :: rest) = some (.column (columnKey backend column), rest) := by
  rw [readTerm.eq_def]
  simp only [if_neg noCall]
  cases first with
  | bare word =>
    cases token
    obtain ⟨unreserved, folded⟩ := plain column rfl
    have noNull : isKeyword (some (.bare column)) "null" = false := by
      by_contra null
      have same : lower column = lower "null" := by simpa [isKeyword, eqIgnoreCase] using null
      rw [same] at unreserved
      rcases supported with rfl | rfl <;> exact unreserved (by decide)
    have key : columnKey backend (lower column) = columnKey backend column := by
      rcases supported with rfl | rfl
      · simp only [columnKey, if_true]
        exact lower_lower column
      · simp [columnKey, folded]
    simp [noNull, identifierName, unreserved, key]
  | quoted written =>
    cases token
    have noNull : isKeyword (some (.quoted column)) "null" = false := rfl
    simp [noNull, identifierName]
  | other other =>
    obtain rfl : other = .ident column := token
    exact proper.elim

theorem denotes_of_parse (supported : backend = .sqlite ∨ backend = .postgres)
    {expression : String} {predicate : IndexPredicateModel} {lexemes : List SqlLexeme}
    (accepted : parseClosedSetIndexPredicate expression = some predicate)
    (lexed : sqlLexemes backend expression = some lexemes)
    (plain : PlainlyWritten backend lexemes) : Denotes backend expression predicate := by
  have known : backend ≠ .mssql := by rcases supported with rfl | rfl <;> decide
  have spelled := scan_spells lexed
  have proper := spelled.all (fun _ _ _ _ _ read => readLexeme_proper read)
  have tokens : Tokens expression.toList (lexemes.map SqlLexeme.token) :=
    spelled.map (fun _ blank => isWhitespace_of_ascii blank) (fun _ _ _ _ _ read mem =>
      readLexeme_token known read (fun word same => plain.words word (same ▸ mem)))
  obtain ⟨count, rest, tokens', -, parsed⟩ := parse_eq_some accepted
  have same := tokens.functional tokens'
  -- The lexemes of the test, without the parentheses around it.
  obtain ⟨front, closers, whole, frontTokens, closersTokens⟩ := List.map_eq_append_iff.mp same
  obtain ⟨openers, inner, rfl, openersTokens, innerTokens⟩ := List.map_eq_append_iff.mp frontTokens
  obtain rfl := map_token_replicate (by simp) openersTokens
  obtain rfl := map_token_replicate (by simp) closersTokens
  obtain ⟨first, more, rfl, column, rfl⟩ := List.map_eq_cons_iff.mp innerTokens
  subst whole
  have bare : first ≠ .other .leftParen := by
    rintro rfl
    cases column
  have inside : opened (List.replicate count (.other .leftParen) ++ first :: more ++
      List.replicate count (.other .rightParen)) =
        first :: (more ++ List.replicate count (.other .rightParen)) := by
    rw [opened, List.append_assoc, List.dropWhile_append_of_pos (by simp)]
    simp [bare]
  have only : OnlyType more := by
    intro lexeme mem
    refine ⟨proper lexeme (by simp [mem]), ?_⟩
    rintro written rfl
    apply plain.quoted
    rw [inside]
    exact List.mem_append_left _ mem
  rw [parseClosedSetTokens] at parsed
  split at parsed
  · cases parsed
  obtain ⟨⟨isIn, content⟩, start, parsed⟩ := Option.bind_eq_some_iff.mp parsed
  obtain ⟨stored, found, same⟩ := Option.bind_eq_some_iff.mp parsed
  have kept : stored = predicate.values :=
    congrArg IndexPredicateModel.values (Option.some.inj same)
  have term := readTerm_column (proper first (by simp)) supported column
    (fun word same => plain.column word (by rw [inside, same]; rfl))
  obtain ⟨values, rfl, read⟩ := readComparison_of_parse only term start found
  have noGroup (tail : List SqlLexeme) :
      ((first :: more) ++ tail).head? ≠ some (.other .leftParen) := by simp [bare]
  have condition := readCondition_enclosed noGroup read count (more.length + count) []
  refine ⟨.among (.column (columnKey backend predicate.column)) values, ?_, ?_⟩
  · have size : (List.replicate count (SqlLexeme.other .leftParen) ++ first :: more ++
        List.replicate count (SqlLexeme.other .rightParen)).length =
          count + (more.length + count) + 1 := by
      simp only [List.length_append, List.length_replicate, List.length_cons]
      omega
    rw [sqlCondition, lexed, Option.bind_eq_bind, Option.bind_some, size]
    rw [List.append_nil, ← List.append_assoc] at condition
    rw [condition]
    rfl
  · intro functions row
    simp only [SqlCondition.Holds, SqlTerm.value, ← kept, mem_closedSet]

/-- Rendered predicates are read back exactly if the column has a name that the quoting does
not pass through, deparsed ones always, in any number of parentheses; and an accepted text
that is plainly written is the membership test it is taken for. -/
theorem index_predicates :
    (∀ backend, backend = .sqlite ∨ backend = .postgres → ∀ column values, values ≠ [] →
      (ReadsBack (renderIndexPredicate backend { column, values }) column values ↔
        column ≠ "" ∧ backend.quoteIdentifier column ≠ column)) ∧
    (∀ column written values count, column ≠ "" → DeparsedName column written → values ≠ [] →
      ReadsBack (parenthesized count (deparsedPredicate written values)) column values) ∧
    ∀ backend, backend = .sqlite ∨ backend = .postgres → ∀ expression predicate lexemes,
      parseClosedSetIndexPredicate expression = some predicate →
      sqlLexemes backend expression = some lexemes → PlainlyWritten backend lexemes →
      Denotes backend expression predicate := by
  refine ⟨?_, ?_, ?_⟩
  · intro backend supported column values filled
    exact readsBack_render_iff supported column filled
  · intro column written values count named name filled
    exact readsBack_any name.nameText named filled count
  · intro backend supported expression predicate lexemes accepted lexed plain
    exact denotes_of_parse supported accepted lexed plain

/-- `((status = ANY (ARRAY['open'::text, 'closed'::text])))` -/
def statusLexemes : List SqlLexeme :=
  [.other .leftParen, .other .leftParen, .bare "status", .other .equals, .bare "ANY",
    .other .leftParen, .bare "ARRAY", .other .leftBracket,
    .other (.string "open"), .other .doubleColon, .bare "text", .other .comma,
    .other (.string "closed"), .other .doubleColon, .bare "text",
    .other .rightBracket, .other .rightParen, .other .rightParen, .other .rightParen]

theorem statusLexemes_plain : PlainlyWritten .postgres statusLexemes := by
  refine ⟨?_, ?_, ?_⟩
  · intro word mem
    have among : word ∈ ["status", "ANY", "ARRAY", "text"] := by
      simpa [statusLexemes] using mem
    clear mem
    revert word
    decide
  · intro name mem
    simp [statusLexemes, opened] at mem
  · intro word head
    obtain rfl : "status" = word := by simpa [statusLexemes, opened] using head
    decide +kernel

/-- A predicate on `status` comes back from SQLite and, in two pairs of parentheses, from
PostgreSQL, and there it is the test for one of the two values. -/
theorem index_predicates_status :
    ReadsBack (renderIndexPredicate .sqlite { column := "status", values := ["open", "closed"] })
      "status" ["open", "closed"] ∧
    ReadsBack (parenthesized 2 (deparsedPredicate "status" ["open", "closed"])) "status"
      ["open", "closed"] ∧
    Denotes .postgres "((status = ANY (ARRAY['open'::text, 'closed'::text])))"
      { column := "status", values := ["closed", "open"] } := by
  obtain ⟨rendered, deparsed, denoted⟩ := index_predicates
  have small : ∀ c ∈ ['t', 'a', 't', 'u', 's'], c.isLower = true := List.all_eq_true.mp rfl
  have lexed : sqlLexemes .postgres "((status = ANY (ARRAY['open'::text, 'closed'::text])))" =
      some statusLexemes := by decide +kernel
  have accepted : parseClosedSetIndexPredicate
      "((status = ANY (ARRAY['open'::text, 'closed'::text])))" =
        some { column := "status", values := ["closed", "open"] } := by decide +kernel
  refine ⟨(rendered .sqlite (.inl rfl) "status" _ (by simp)).mpr (by decide +kernel),
    deparsed "status" "status" _ 2 (by simp)
      (.inr ⟨rfl, 's', ['t', 'a', 't', 'u', 's'], by decide, .inl rfl, fun c mem => .inl (small c mem)⟩)
      (by simp),
    denoted .postgres (.inr rfl) _ _ _ accepted lexed statusLexemes_plain⟩

/-- A condition that is read differently is not the membership test. -/
theorem not_denotes {expression : String} {predicate : IndexPredicateModel}
    {condition : SqlCondition} (read : sqlCondition backend expression = some condition)
    (functions : String → List String → Option String) (row : String → Option String)
    (differs : ¬(condition.Holds functions row ↔
      ∃ value ∈ predicate.values, row (columnKey backend predicate.column) = some value)) :
    ¬ Denotes backend expression predicate := by
  rintro ⟨other, read', same⟩
  obtain rfl := Option.some.inj (read.symm.trans read')
  exact differs (same functions row)

/-- A column that is already delimited comes back without its quotes, and an empty one not
at all. A call of a function named `any` is accepted, as are a column whose name ends in a
blank outside ASCII, `NULL` and, on PostgreSQL, an upper-case column: they are not the
membership tests they are taken for. -/
theorem index_predicates_misread :
    ¬ ReadsBack (renderIndexPredicate .postgres { column := "\"a\"", values := ["x"] })
      "\"a\"" ["x"] ∧
    ¬ ReadsBack (renderIndexPredicate .postgres { column := "", values := ["x"] }) "" ["x"] ∧
    (∃ predicate, parseClosedSetIndexPredicate "(a = \"any\"(ARRAY['x'::text]))" = some predicate ∧
      ¬ Denotes .postgres "(a = \"any\"(ARRAY['x'::text]))" predicate) ∧
    (∃ predicate, parseClosedSetIndexPredicate "a\u00a0 IN ('x')" = some predicate ∧
      ¬ Denotes .sqlite "a\u00a0 IN ('x')" predicate) ∧
    (∃ predicate, parseClosedSetIndexPredicate "NULL IN ('x')" = some predicate ∧
      ¬ Denotes .sqlite "NULL IN ('x')" predicate) ∧
    ∃ predicate, parseClosedSetIndexPredicate "A IN ('x')" = some predicate ∧
      ¬ Denotes .postgres "A IN ('x')" predicate := by
  refine ⟨?_, ?_, ⟨{ column := "a", values := ["x"] }, by decide +kernel, ?_⟩,
    ⟨{ column := "a", values := ["x"] }, by decide +kernel, ?_⟩,
    ⟨{ column := "NULL", values := ["x"] }, by decide +kernel, ?_⟩,
    ⟨{ column := "A", values := ["x"] }, by decide +kernel, ?_⟩⟩
  · rw [readsBack_render_iff (.inr rfl) _ (by simp)]
    rintro ⟨-, changed⟩
    exact changed (by decide +kernel)
  · rw [readsBack_render_iff (.inr rfl) _ (by simp)]
    rintro ⟨named, -⟩
    exact named rfl
  · -- The function returns nothing.
    have read : sqlCondition .postgres "(a = \"any\"(ARRAY['x'::text]))" =
        some (.equals (.column "a") (.call "any" ["x"])) := by decide +kernel
    apply not_denotes read (fun _ _ => none) (fun _ => some "x")
    simp [SqlCondition.Holds, SqlTerm.value]
  · have read : sqlCondition .sqlite "a\u00a0 IN ('x')" =
        some (.among (.column "a\u00a0") ["x"]) := by decide +kernel
    apply not_denotes read (fun _ _ => none) (fun key => if key = "a" then some "x" else none)
    have key : columnKey .sqlite "a" = "a" := by decide +kernel
    simp [SqlCondition.Holds, SqlTerm.value, key]
  · have read : sqlCondition .sqlite "NULL IN ('x')" = some (.among .null ["x"]) := by
      decide +kernel
    apply not_denotes read (fun _ _ => none) (fun _ => some "x")
    simp [SqlCondition.Holds, SqlTerm.value]
  · have read : sqlCondition .postgres "A IN ('x')" = some (.among (.column "a") ["x"]) := by
      decide +kernel
    apply not_denotes read (fun _ _ => none) (fun key => if key = "A" then some "x" else none)
    simp [SqlCondition.Holds, SqlTerm.value, columnKey]

end GraphqlOrm.Schema
