import GraphqlOrm.Query.Keyset

/-!
# Placeholders of a clause

Two scanners read the text of a clause. `normalize_sql_placeholders` numbers the
placeholders of a PostgreSQL or SQL Server clause afresh; `count_placeholders` says how many
of the collected values belong to a clause. They agree where brackets and bare signs do not
come between them.
-/
namespace GraphqlOrm.Query

open Schema

/-! ### The scanners -/

/-- Where a scanner stands: outside quotes, where the digits of a placeholder may follow, or
in a quoted part that ends with a character, unless it is doubled. -/
inductive ScanMode where
  | outside (digits : Bool)
  | quoted (close : Char)

def quoteEnd (brackets : Bool) (c : Char) : Option Char :=
  if c = '\'' then some '\''
  else if c = '"' then some '"'
  else if brackets ∧ c = '[' then some ']'
  else none

def isP (c : Char) : Bool := c = 'p' ∨ c = 'P'

/-- The loop of `normalize_sql_placeholders` for a dialect that quotes with brackets or not:
the characters it copies, and `none` where it writes the next placeholder. -/
def rewriteFrom (brackets : Bool) : ScanMode → List Char → List (Option Char)
  | _, [] => []
  | .quoted _, [c] => [some c]
  | .quoted close, c :: d :: rest =>
    if c = close then
      if d = close then some c :: some d :: rewriteFrom brackets (.quoted close) rest
      else some c :: rewriteFrom brackets (.outside false) (d :: rest)
    else some c :: rewriteFrom brackets (.quoted close) (d :: rest)
  | .outside digits, [c] =>
    if digits ∧ c.isDigit then []
    else if c = '?' ∨ c = '$' then [none]
    else [some c]
  | .outside digits, c :: d :: rest =>
    if digits ∧ c.isDigit then rewriteFrom brackets (.outside true) (d :: rest)
    else match quoteEnd brackets c with
      | some close => some c :: rewriteFrom brackets (.quoted close) (d :: rest)
      | none =>
        if c = '?' ∨ c = '$' then none :: rewriteFrom brackets (.outside true) (d :: rest)
        else if c = '@' ∧ isP d then none :: rewriteFrom brackets (.outside true) rest
        else some c :: rewriteFrom brackets (.outside false) (d :: rest)

/-- What a clause is made of: characters, and placeholders with the number they are written
with, if any. -/
inductive SqlPiece where
  | text (c : Char)
  | placeholder (label : Option Nat)

def SqlPiece.spelled (backend : DatabaseBackend) : SqlPiece → String
  | text c => String.singleton c
  | placeholder label => backend.placeholder (label.getD 0)

def SqlPiece.shape : SqlPiece → Option Char
  | text c => some c
  | placeholder _ => none

def spellPieces (backend : DatabaseBackend) (pieces : List SqlPiece) : String :=
  String.ofList (pieces.flatMap fun piece => (piece.spelled backend).toList)

def numberFrom : Nat → List (Option Char) → List SqlPiece
  | _, [] => []
  | next, some c :: rest => .text c :: numberFrom next rest
  | next, none :: rest => .placeholder (some next) :: numberFrom (next + 1) rest

/-- Brackets quote identifiers in SQL Server only. -/
def rewritten (backend : DatabaseBackend) (sql : String) : List (Option Char) :=
  rewriteFrom (backend = .mssql) (.outside false) sql.toList

def numbers : DatabaseBackend → Bool
  | .postgres | .mssql => true
  | .sqlite | .mysql => false

def normalizeSqlPlaceholders (backend : DatabaseBackend) (sql : String) (startIndex : Nat) : String :=
  if numbers backend then spellPieces backend (numberFrom startIndex (rewritten backend sql))
  else sql

/-- The loop of `count_placeholders`. -/
def countFrom : ScanMode → List Char → Nat
  | _, [] => 0
  | .quoted _, [_] => 0
  | .quoted close, c :: d :: rest =>
    if c = close then
      if d = close then countFrom (.quoted close) rest else countFrom (.outside false) (d :: rest)
    else countFrom (.quoted close) (d :: rest)
  | .outside _, [c] => if c = '?' then 1 else 0
  | .outside digits, c :: d :: rest =>
    if digits ∧ c.isDigit then countFrom (.outside true) (d :: rest)
    else match quoteEnd true c with
      | some close => countFrom (.quoted close) (d :: rest)
      | none =>
        if c = '?' then countFrom (.outside false) (d :: rest) + 1
        else if c = '$' ∧ d.isDigit then countFrom (.outside true) (d :: rest) + 1
        else if c = '@' ∧ isP d ∧ rest.head?.any Char.isDigit then countFrom (.outside true) rest + 1
        else countFrom (.outside false) (d :: rest)

def countPlaceholders (clause : String) : Nat := countFrom (.outside false) clause.toList

/-! ### What is emitted -/

def emittedFrom (brackets : Bool) (mode : ScanMode) (cs : List Char) : Nat :=
  (rewriteFrom brackets mode cs).count none

def emitted (backend : DatabaseBackend) (sql : String) : Nat := (rewritten backend sql).count none

section Emitted

attribute [local simp] rewriteFrom

variable {brackets : Bool} {mode : ScanMode} {cs : List Char}

theorem quoteEnd_of_plain {c : Char} (other : c ≠ '\'' ∧ c ≠ '"' ∧ c ≠ '[') :
    quoteEnd brackets c = none := by
  simp [quoteEnd, other]

theorem isP_plain {c : Char} (p : isP c = true) :
    (c ≠ '\'' ∧ c ≠ '"' ∧ c ≠ '[') ∧ c ≠ '?' ∧ c ≠ '$' ∧ c ≠ '@' := by
  simp only [isP, decide_eq_true_eq] at p
  rcases p with rfl | rfl <;> decide

theorem digit_plain {c : Char} (digit : c.isDigit = true) :
    (c ≠ '\'' ∧ c ≠ '"' ∧ c ≠ '[') ∧ c ≠ '?' ∧ c ≠ '$' ∧ c ≠ '@' := by
  refine ⟨⟨?_, ?_, ?_⟩, ?_, ?_, ?_⟩ <;> rintro rfl <;> exact absurd digit (by decide)

/-- A character that is neither a quote nor a sign is copied. -/
theorem emittedFrom_plain {c : Char} (plain : (c ≠ '\'' ∧ c ≠ '"' ∧ c ≠ '[') ∧ c ≠ '?' ∧ c ≠ '$' ∧ c ≠ '@')
    (digits : Bool) (rest : List Char) (free : ¬(digits = true ∧ c.isDigit = true)) :
    emittedFrom brackets (.outside digits) (c :: rest) = emittedFrom brackets (.outside false) rest := by
  have open_ : quoteEnd brackets c = none := quoteEnd_of_plain plain.1
  cases rest with
  | nil => simp [emittedFrom, rewriteFrom, free, plain]
  | cons d rest => simp [emittedFrom, rewriteFrom, free, plain, open_]

/-- Whether digits are skipped or copied, they are no placeholders. -/
theorem emittedFrom_digits (digits : Bool) (cs : List Char) :
    emittedFrom brackets (.outside digits) cs = emittedFrom brackets (.outside false) cs := by
  induction cs generalizing digits with
  | nil => rfl
  | cons c rest ih =>
    by_cases skipped : digits = true ∧ c.isDigit = true
    · rw [emittedFrom_plain (digit_plain skipped.2) false rest (by simp)]
      cases rest with
      | nil => simp [emittedFrom, rewriteFrom, skipped]
      | cons d rest =>
        rw [← ih true, emittedFrom, rewriteFrom, if_pos skipped]
        rfl
    · cases rest with
      | nil | cons d rest => simp [emittedFrom, rewriteFrom, skipped]

/-- One character outside quotes. -/
theorem emittedFrom_outside (c d : Char) (rest : List Char) :
    emittedFrom brackets (.outside false) (c :: d :: rest) =
      match quoteEnd brackets c with
      | some close => emittedFrom brackets (.quoted close) (d :: rest)
      | none =>
        if c = '?' ∨ c = '$' then emittedFrom brackets (.outside false) (d :: rest) + 1
        else if c = '@' ∧ isP d then emittedFrom brackets (.outside false) rest + 1
        else emittedFrom brackets (.outside false) (d :: rest) := by
  have skipped (cs : List Char) : (rewriteFrom brackets (.outside true) cs).count none =
      emittedFrom brackets (.outside false) cs := emittedFrom_digits true cs
  rw [emittedFrom, rewriteFrom, if_neg (by simp)]
  split
  · simp [emittedFrom]
  · split
    · simp [skipped]
    · split
      · simp [skipped]
      · simp [emittedFrom]

/-- One character in quotes. -/
theorem emittedFrom_quoted (close c d : Char) (rest : List Char) :
    emittedFrom brackets (.quoted close) (c :: d :: rest) =
      if c = close then
        if d = close then emittedFrom brackets (.quoted close) rest
        else emittedFrom brackets (.outside false) (d :: rest)
      else emittedFrom brackets (.quoted close) (d :: rest) := by
  simp only [emittedFrom, rewriteFrom]
  split
  · split <;> simp
  · simp

end Emitted

/-! ### What is counted -/

/-- The dollar signs and `@p` outside quotes that no digit follows. -/
def bareFrom : ScanMode → List Char → Nat
  | _, [] => 0
  | .quoted _, [_] => 0
  | .quoted close, c :: d :: rest =>
    if c = close then
      if d = close then bareFrom (.quoted close) rest else bareFrom (.outside false) (d :: rest)
    else bareFrom (.quoted close) (d :: rest)
  | .outside _, [c] => if c = '$' then 1 else 0
  | .outside _, c :: d :: rest =>
    match quoteEnd true c with
    | some close => bareFrom (.quoted close) (d :: rest)
    | none =>
      if c = '$' then bareFrom (.outside false) (d :: rest) + if d.isDigit then 0 else 1
      else if c = '@' ∧ isP d then
        bareFrom (.outside false) rest + if rest.head?.any Char.isDigit then 0 else 1
      else bareFrom (.outside false) (d :: rest)

attribute [local simp] countFrom bareFrom

theorem countFrom_plain {c : Char} (plain : (c ≠ '\'' ∧ c ≠ '"' ∧ c ≠ '[') ∧ c ≠ '?' ∧ c ≠ '$' ∧ c ≠ '@')
    (digits : Bool) (rest : List Char) (free : ¬(digits = true ∧ c.isDigit = true)) :
    countFrom (.outside digits) (c :: rest) = countFrom (.outside false) rest := by
  have open_ : quoteEnd true c = none := quoteEnd_of_plain plain.1
  cases rest with
  | nil => simp [countFrom, plain]
  | cons d rest => simp [countFrom, free, plain, open_]

theorem countFrom_digits (digits : Bool) (cs : List Char) :
    countFrom (.outside digits) cs = countFrom (.outside false) cs := by
  induction cs generalizing digits with
  | nil => rfl
  | cons c rest ih =>
    by_cases skipped : digits = true ∧ c.isDigit = true
    · rw [countFrom_plain (digit_plain skipped.2) false rest (by simp)]
      cases rest with
      | nil => simp [countFrom, digit_plain skipped.2]
      | cons d rest => rw [← ih true, countFrom, if_pos skipped]
    · cases rest with
      | nil => simp [countFrom]
      | cons d rest => simp [countFrom, skipped]

/-- One character outside quotes, as it is counted. -/
theorem countFrom_outside (c d : Char) (rest : List Char) :
    countFrom (.outside false) (c :: d :: rest) =
      match quoteEnd true c with
      | some close => countFrom (.quoted close) (d :: rest)
      | none =>
        if c = '?' then countFrom (.outside false) (d :: rest) + 1
        else if c = '$' then
          countFrom (.outside false) (d :: rest) + if d.isDigit then 1 else 0
        else if c = '@' ∧ isP d then
          countFrom (.outside false) rest + if rest.head?.any Char.isDigit then 1 else 0
        else countFrom (.outside false) (d :: rest) := by
  rw [countFrom, countFrom_digits true (d :: rest), countFrom_digits true rest]
  simp only [Bool.false_eq_true, false_and, if_false]
  split
  · rfl
  · split
    · rfl
    · by_cases dollar : c = '$'
      · by_cases digit : d.isDigit = true <;> simp [dollar, digit]
      · by_cases sign : c = '@' ∧ isP d = true
        · have skip := countFrom_plain (isP_plain sign.2) false rest (by simp)
          by_cases digit : rest.head?.any Char.isDigit = true <;> simp [sign, digit, skip]
        · simp [dollar, sign]
          intro at_ p
          exact absurd ⟨at_, p⟩ sign

/-- Where brackets quote for both, the rewriting emits one placeholder more for each bare sign. -/
theorem emittedFrom_eq_countFrom (mode : ScanMode) (cs : List Char) :
    emittedFrom true mode cs = countFrom mode cs + bareFrom mode cs := by
  fun_induction bareFrom mode cs with
  | case1 mode => cases mode <;> rfl
  | case2 => simp [emittedFrom, rewriteFrom, countFrom]
  | case3 close rest ih => rw [emittedFrom_quoted, if_pos rfl, if_pos rfl, ih, countFrom]; simp
  | case4 close d rest other ih =>
    rw [emittedFrom_quoted, if_pos rfl, if_neg other, ih, countFrom, if_pos rfl, if_neg other]
  | case5 close c d rest other ih => rw [emittedFrom_quoted, if_neg other, ih, countFrom, if_neg other]
  | case6 digits => 
    rw [emittedFrom_digits, countFrom]
    simp [emittedFrom, rewriteFrom]
  | case7 digits c other => 
    rw [emittedFrom_digits, countFrom]
    by_cases c = '?' <;> simp_all [emittedFrom, rewriteFrom]
  | case8 digits c d rest close opened ih =>
    rw [emittedFrom_digits, countFrom_digits, emittedFrom_outside, countFrom_outside, opened]
    exact ih
  | case9 digits d rest free ih =>
    rw [emittedFrom_digits, countFrom_digits, emittedFrom_outside, countFrom_outside, free, ih]
    by_cases digit : d.isDigit = true <;> simp [digit] <;> omega
  | case10 digits c d rest free dollar sign ih =>
    rw [emittedFrom_digits, countFrom_digits, emittedFrom_outside, countFrom_outside, free, ih]
    obtain ⟨rfl, p⟩ := sign
    by_cases digit : rest.head?.any Char.isDigit = true <;> simp [p, digit] <;> omega
  | case11 digits c d rest free dollar sign ih =>
    rw [emittedFrom_digits, countFrom_digits, emittedFrom_outside, countFrom_outside, free, ih]
    by_cases mark : c = '?'
    · simp [mark]
      omega
    · simp only [mark, dollar, sign, or_self, if_false]

/-! ### Brackets in PostgreSQL -/

/-- Where a reader of brackets stands: outside, in a quoted part, between brackets, or in a
quoted part between brackets. -/
inductive BracketMode where
  | outside
  | quoted (quote : Char)
  | bracket
  | bracketQuoted (quote : Char)

/-- Between brackets stand plain characters and whole quoted parts, with neither placeholders
outside the quoted parts nor closing brackets in them. -/
def inertFrom : BracketMode → List Char → Bool
  | _, [] => true
  | .outside, c :: rest =>
    if c = '\'' ∨ c = '"' then inertFrom (.quoted c) rest
    else if c = '[' then inertFrom .bracket rest
    else inertFrom .outside rest
  | .quoted quote, c :: rest => inertFrom (if c = quote then .outside else .quoted quote) rest
  | .bracket, [c] => c ≠ '?' ∧ c ≠ '$'
  | .bracket, c :: d :: rest =>
    if c = ']' then
      if d = ']' then inertFrom .bracket rest else inertFrom .outside (d :: rest)
    else if c = '\'' ∨ c = '"' then inertFrom (.bracketQuoted c) (d :: rest)
    else c ≠ '?' ∧ c ≠ '$' ∧ ¬(c = '@' ∧ isP d) ∧ inertFrom .bracket (d :: rest)
  | .bracketQuoted _, [_] => true
  | .bracketQuoted quote, c :: d :: rest =>
    if c = ']' then d = ']' ∧ inertFrom (.bracketQuoted quote) rest
    else inertFrom (if c = quote then .bracket else .bracketQuoted quote) (d :: rest)

attribute [local simp] inertFrom

def BracketMode.plain : BracketMode → ScanMode
  | .outside | .bracket => .outside false
  | .quoted quote | .bracketQuoted quote => .quoted quote

def BracketMode.bracketed : BracketMode → ScanMode
  | .outside => .outside false
  | .quoted quote => .quoted quote
  | .bracket | .bracketQuoted _ => .quoted ']'

def BracketMode.Proper : BracketMode → Prop
  | .outside | .bracket => True
  | .quoted quote | .bracketQuoted quote => quote = '\'' ∨ quote = '"'

variable {brackets : Bool}

/-- A doubled quote is a quote that closes and one that opens. -/
theorem emittedFrom_toggle {quote : Char} (proper : quote = '\'' ∨ quote = '"') (c : Char)
    (rest : List Char) :
    emittedFrom brackets (.quoted quote) (c :: rest) =
      emittedFrom brackets (if c = quote then .outside false else .quoted quote) rest := by
  have reopens : quoteEnd brackets quote = some quote := by
    rcases proper with rfl | rfl <;> simp [quoteEnd]
  have signs : quote ≠ '?' ∧ quote ≠ '$' := by
    rcases proper with rfl | rfl <;> decide
  cases rest with
  | nil => simp [emittedFrom, rewriteFrom]
  | cons d rest =>
    rw [emittedFrom_quoted]
    by_cases closes : c = quote
    · by_cases doubled : d = quote
      · rw [if_pos closes, if_pos doubled, if_pos closes, doubled]
        cases rest with
        | nil => simp [emittedFrom, rewriteFrom, signs]
        | cons e rest => rw [emittedFrom_outside, reopens]
      · rw [if_pos closes, if_neg doubled, if_pos closes]
    · rw [if_neg closes, if_neg closes]

/-- A character that opens nothing and is no sign is copied. -/
theorem emittedFrom_copied {c : Char} (opens : quoteEnd brackets c = none)
    (sign : c ≠ '?' ∧ c ≠ '$' ∧ c ≠ '@') (rest : List Char) :
    emittedFrom brackets (.outside false) (c :: rest) = emittedFrom brackets (.outside false) rest := by
  cases rest with
  | nil => simp [emittedFrom, rewriteFrom, sign]
  | cons d rest => rw [emittedFrom_outside, opens]; simp [sign]

theorem emittedFrom_opens {c close : Char} (opened : quoteEnd brackets c = some close)
    (rest : List Char) :
    emittedFrom brackets (.outside false) (c :: rest) = emittedFrom brackets (.quoted close) rest := by
  cases rest with
  | nil =>
    have sign : c ≠ '?' ∧ c ≠ '$' := by
      constructor <;> rintro rfl <;> simp [quoteEnd] at opened
    simp [emittedFrom, rewriteFrom, sign]
  | cons d rest => rw [emittedFrom_outside, opened]

/-- A character that opens nothing is read alike with and without bracket quotes. -/
theorem emittedFrom_outside_same {c : Char} (plain : c ≠ '\'' ∧ c ≠ '"' ∧ c ≠ '[')
    {rest : List Char}
    (after : emittedFrom false (.outside false) rest = emittedFrom true (.outside false) rest) :
    emittedFrom false (.outside false) (c :: rest) = emittedFrom true (.outside false) (c :: rest) := by
  cases rest with
  | nil => simp [emittedFrom, rewriteFrom]
  | cons d rest =>
    rw [emittedFrom_outside, emittedFrom_outside, quoteEnd_of_plain plain, quoteEnd_of_plain plain,
      after]
    by_cases sign : c = '@' ∧ isP d = true
    · have p := isP_plain sign.2
      rw [emittedFrom_plain p false rest (by simp), emittedFrom_plain p false rest (by simp)] at after
      simp [sign, after]
    · simp only [sign, if_false]

/-- Under this condition, brackets can be read as quotes or not. -/
theorem emittedFrom_inert {mode : BracketMode} (proper : mode.Proper) {cs : List Char}
    (inert : inertFrom mode cs = true) :
    emittedFrom false mode.plain cs = emittedFrom true mode.bracketed cs := by
  fun_induction inertFrom mode cs with
  | case1 mode => cases mode <;> rfl
  | case2 c rest quote ih =>
    have opened (b : Bool) : quoteEnd b c = some c := by
      rcases quote with rfl | rfl <;> simp [quoteEnd]
    simp only [BracketMode.plain, BracketMode.bracketed]
    rw [emittedFrom_opens (opened _), emittedFrom_opens (opened _)]
    exact ih quote inert
  | case3 rest noQuote ih =>
    have copied : emittedFrom false (.outside false) ('[' :: rest) =
        emittedFrom false (.outside false) rest :=
      emittedFrom_copied (by simp [quoteEnd]) (by decide) rest
    simp only [BracketMode.plain, BracketMode.bracketed]
    rw [copied, emittedFrom_opens (show quoteEnd true '[' = some ']' by simp [quoteEnd])]
    exact ih trivial inert
  | case4 c rest noQuote noBracket ih =>
    exact emittedFrom_outside_same ⟨fun h => noQuote (.inl h), fun h => noQuote (.inr h), noBracket⟩
      (ih trivial inert)
  | case5 quote c rest ih =>
    simp only [BracketMode.plain, BracketMode.bracketed]
    rw [emittedFrom_toggle proper, emittedFrom_toggle proper]
    split at ih
    next closes => 
      rw [if_pos closes] at inert ⊢
      exact ih trivial inert
    next stays => 
      rw [if_neg stays] at inert ⊢
      exact ih proper inert
  | case6 c =>
    simp only [BracketMode.plain, BracketMode.bracketed]
    simp only [decide_eq_true_eq] at inert
    simp [emittedFrom, rewriteFrom, inert]
  | case7 rest ih =>
    have copied (cs : List Char) : emittedFrom false (.outside false) (']' :: cs) =
        emittedFrom false (.outside false) cs :=
      emittedFrom_copied (by simp [quoteEnd]) (by decide) cs
    simp only [BracketMode.plain, BracketMode.bracketed]
    rw [copied, copied, emittedFrom_quoted, if_pos rfl, if_pos rfl]
    exact ih trivial inert
  | case8 d rest single ih =>
    have copied (cs : List Char) : emittedFrom false (.outside false) (']' :: cs) =
        emittedFrom false (.outside false) cs :=
      emittedFrom_copied (by simp [quoteEnd]) (by decide) cs
    simp only [BracketMode.plain, BracketMode.bracketed]
    rw [copied, emittedFrom_quoted, if_pos rfl, if_neg single]
    exact ih trivial inert
  | case9 c d rest open_ quote ih =>
    have opened : quoteEnd false c = some c := by
      rcases quote with rfl | rfl <;> simp [quoteEnd]
    simp only [BracketMode.plain, BracketMode.bracketed]
    rw [emittedFrom_opens opened, emittedFrom_quoted, if_neg open_]
    exact ih quote inert
  | case10 c d rest open_ noQuote ih =>
    simp only [decide_eq_true_eq] at inert
    obtain ⟨mark, dollar, sign, inert⟩ := inert
    have plain : quoteEnd false c = none := by
      simp [quoteEnd, not_or.mp noQuote]
    simp only [BracketMode.plain, BracketMode.bracketed]
    rw [emittedFrom_outside, plain, emittedFrom_quoted, if_neg open_]
    simp only [mark, dollar, sign, or_self, if_false]
    exact ih trivial inert
  | case11 quote c =>
    simp [BracketMode.plain, BracketMode.bracketed, emittedFrom, rewriteFrom]
  | case12 quote d rest ih =>
    simp only [decide_eq_true_eq] at inert
    obtain ⟨rfl, inert⟩ := inert
    have other : ']' ≠ quote := by rcases proper with rfl | rfl <;> decide
    simp only [BracketMode.plain, BracketMode.bracketed]
    rw [emittedFrom_toggle proper, if_neg other, emittedFrom_toggle proper, if_neg other, emittedFrom_quoted, if_pos rfl, if_pos rfl]
    exact ih proper inert
  | case13 quote c d rest open_ ih =>
    simp only [BracketMode.plain, BracketMode.bracketed]
    rw [emittedFrom_toggle proper, emittedFrom_quoted, if_neg open_]
    split at ih
    next closes => 
      rw [if_pos closes] at inert ⊢
      exact ih trivial inert
    next stays => 
      rw [if_neg stays] at inert ⊢
      exact ih proper inert

/-! ### Agreement -/

/-- The dollar signs and `@p` of a clause outside quotes that no digit follows. -/
def bareSigns (clause : String) : Nat := bareFrom (.outside false) clause.toList

def BracketsInert (backend : DatabaseBackend) (clause : String) : Prop :=
  backend = .postgres → inertFrom .outside clause.toList = true

section

variable {backend : DatabaseBackend} (numbered : numbers backend = true) {clause : String}
    (inert : BracketsInert backend clause)
include numbered inert

theorem countPlaceholders_add_bareSigns :
    emitted backend clause = countPlaceholders clause + bareSigns clause := by
  rw [countPlaceholders, bareSigns, ← emittedFrom_eq_countFrom]
  cases backend with
  | postgres => exact @emittedFrom_inert .outside trivial _ (inert rfl)
  | mssql => rfl
  | sqlite | mysql => cases numbered

/-- The count is the number of placeholders exactly if no sign is bare. -/
theorem countPlaceholders_eq_iff :
    countPlaceholders clause = emitted backend clause ↔ bareSigns clause = 0 := by
  rw [countPlaceholders_add_bareSigns numbered inert]
  omega

end

end GraphqlOrm.Query
