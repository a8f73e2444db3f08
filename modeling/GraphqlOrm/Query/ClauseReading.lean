import GraphqlOrm.Query.Placeholders

/-!
# Reading clauses

What a text says to those who write clauses and to the databases that run them: quoted parts, in
which nothing is read, placeholders, and single characters. A text is read by itself, without the
scanners that rewrite and count. The rewriting writes each placeholder of a clause as the database
reads it, with its number, and leaves all other characters as they are.

## Main results

* `ReadsAs.rewritten`: the rewriting finds the placeholders of a clause.
* `readDatabase_normalize`: what the database reads in the rewritten text.
-/
namespace GraphqlOrm.Query

open Schema

/-! ### Readers -/

/-- Which characters open a quoted part, and with what it ends. A closing character that may stand
twice does not close then. A sign is read from its first character and what follows it. -/
structure Dialect where
  closing : Char → Option Char
  doubles : Char → Bool
  sign : Char → List Char → Option (Option Nat × List Char)

/-- A quoted part, from behind its opening character on, and what follows it. -/
def quotedPart (doubles : Bool) (close : Char) : List Char → List Char × List Char
  | [] => ([], [])
  | [c] => ([c], [])
  | c :: d :: rest =>
    if c = close then
      if doubles ∧ d = close then
        let (part, after) := quotedPart doubles close rest
        (c :: d :: part, after)
      else ([c], d :: rest)
    else
      let (part, after) := quotedPart doubles close (d :: rest)
      (c :: part, after)

/-- How a dialect divides a text into its pieces. -/
inductive ReadsAs (dialect : Dialect) : List Char → List SqlPiece → Prop where
  | nil : ReadsAs dialect [] []
  | quoted {c close : Char} {rest part after : List Char} {pieces : List SqlPiece}
      (opens : dialect.closing c = some close)
      (splits : quotedPart (dialect.doubles close) close rest = (part, after))
      (more : ReadsAs dialect after pieces) :
      ReadsAs dialect (c :: rest) (.text c :: (part.map .text ++ pieces))
  | sign {c : Char} {rest after : List Char} {label : Option Nat} {pieces : List SqlPiece}
      (free : dialect.closing c = none) (found : dialect.sign c rest = some (label, after))
      (more : ReadsAs dialect after pieces) : ReadsAs dialect (c :: rest) (.placeholder label :: pieces)
  | char {c : Char} {rest : List Char} {pieces : List SqlPiece}
      (free : dialect.closing c = none) (other : dialect.sign c rest = none)
      (more : ReadsAs dialect rest pieces) : ReadsAs dialect (c :: rest) (.text c :: pieces)

/-- One piece after the other, at most as many as there are characters. -/
def readFrom (dialect : Dialect) : Nat → List Char → List SqlPiece
  | 0, _ | _, [] => []
  | fuel + 1, c :: rest =>
    match dialect.closing c with
    | some close =>
      let (part, after) := quotedPart (dialect.doubles close) close rest
      .text c :: (part.map .text ++ readFrom dialect fuel after)
    | none =>
      match dialect.sign c rest with
      | some (label, after) => .placeholder label :: readFrom dialect fuel after
      | none => .text c :: readFrom dialect fuel rest

def read (dialect : Dialect) (text : String) : List SqlPiece :=
  readFrom dialect text.toList.length text.toList

/-! ### The dialects of the backends -/

def closingOf : DatabaseBackend → Char → Option Char
  | .postgres, c => if c = '\'' ∨ c = '"' then some c else none
  | .mssql, c => if c = '[' then some ']' else if c = '\'' ∨ c = '"' then some c else none
  | .mysql, c => if c = '\'' ∨ c = '"' ∨ c = '`' then some c else none
  | .sqlite, c => if c = '[' then some ']' else if c = '\'' ∨ c = '"' ∨ c = '`' then some c else none

/-- The brackets of SQLite cannot stand twice. -/
def doublesOf (backend : DatabaseBackend) (close : Char) : Bool := backend ≠ .sqlite ∨ close ≠ ']'

def leadingNumber (cs : List Char) : Option Nat :=
  match cs.takeWhile Char.isDigit with
  | [] => none
  | digits => some (Nat.ofDigitChars 10 digits 0)

/-- The digits in front of a text, and what follows them. -/
def labelled (cs : List Char) : Option Nat × List Char := (leadingNumber cs, cs.dropWhile Char.isDigit)

/-- The placeholders of a clause as it is handed over: a question mark, a dollar sign or `@p` where
the backend has numbers, with the digits after it, and otherwise a question mark. -/
def clauseSign : DatabaseBackend → Char → List Char → Option (Option Nat × List Char)
  | .postgres, c, rest | .mssql, c, rest =>
    if c = '?' ∨ c = '$' then some (labelled rest)
    else match rest with
      | [] => none
      | p :: rest => if c = '@' ∧ isP p then some (labelled rest) else none
  | .sqlite, c, rest => if c = '?' then some (labelled rest) else none
  | .mysql, c, rest => if c = '?' then some (none, rest) else none

/-- The placeholders that a database knows. -/
def databaseSign : DatabaseBackend → Char → List Char → Option (Option Nat × List Char)
  | .postgres, c, rest => if c = '$' ∧ rest.head?.any Char.isDigit then some (labelled rest) else none
  | .mssql, _, [] => none
  | .mssql, c, p :: rest =>
    if c = '@' ∧ isP p ∧ rest.head?.any Char.isDigit then some (labelled rest) else none
  | .sqlite, c, rest => clauseSign .sqlite c rest
  | .mysql, c, rest => clauseSign .mysql c rest

def clauseDialect (backend : DatabaseBackend) : Dialect where
  closing := closingOf backend
  doubles := doublesOf backend
  sign := clauseSign backend

def databaseDialect (backend : DatabaseBackend) : Dialect where
  closing := closingOf backend
  doubles := doublesOf backend
  sign := databaseSign backend

/-- What the author of a clause wrote. -/
def readClause (backend : DatabaseBackend) (clause : String) : List SqlPiece :=
  read (clauseDialect backend) clause

/-- What the database is told. -/
def readDatabase (backend : DatabaseBackend) (text : String) : List SqlPiece :=
  read (databaseDialect backend) text

/-! ### The reader follows the dialect -/

section Reader

variable {dialect : Dialect} {doubles : Bool} {close : Char}

theorem quotedPart_append (cs : List Char) :
    (quotedPart doubles close cs).1 ++ (quotedPart doubles close cs).2 = cs := by
  fun_induction quotedPart doubles close cs with
  | case1 | case2 | case4 => rfl
  | case3 c rest doubled part after split ih =>
    rw [split] at ih
    exact congrArg (fun cs => close :: c :: cs) ih
  | case5 c d rest stays part after split ih =>
    rw [split] at ih
    exact congrArg (c :: ·) ih

/-- Signs take something of what follows them only. -/
def Dialect.Shortens (dialect : Dialect) : Prop :=
  ∀ c rest label after, dialect.sign c rest = some (label, after) → after.length ≤ rest.length

theorem reads_readFrom (shortens : dialect.Shortens) {fuel : Nat} {cs : List Char}
    (enough : cs.length ≤ fuel) : ReadsAs dialect cs (readFrom dialect fuel cs) := by
  induction fuel generalizing cs with
  | zero =>
    obtain rfl := List.eq_nil_of_length_eq_zero (Nat.le_zero.mp enough)
    exact .nil
  | succ fuel ih =>
    cases cs with
    | nil => exact .nil
    | cons c rest =>
      rw [List.length_cons] at enough
      unfold readFrom
      split
      next close opens =>
        have whole := congrArg List.length (@quotedPart_append (dialect.doubles close) close rest)
        rw [List.length_append] at whole
        exact .quoted opens rfl (ih (by omega))
      next free =>
        split
        next label after found =>
          have shorter := shortens c rest label after found
          exact .sign free found (ih (by omega))
        next other => exact .char free other (ih (by omega))

/-- A text is read in one way. -/
theorem ReadsAs.unique {cs : List Char} {pieces others : List SqlPiece} (reads : ReadsAs dialect cs pieces)
    (reads' : ReadsAs dialect cs others) : pieces = others := by
  induction reads generalizing others with
  | nil =>
    cases reads'
    rfl
  | quoted opens splits _ ih =>
    cases reads' with
    | quoted opens' splits' more =>
      obtain rfl := Option.some.inj (opens.symm.trans opens')
      obtain ⟨rfl, rfl⟩ := Prod.mk.inj (splits.symm.trans splits')
      rw [ih more]
    | sign free | char free => cases opens.symm.trans free
  | sign free found _ ih =>
    cases reads' with
    | quoted opens => cases opens.symm.trans free
    | sign _ found' more =>
      obtain ⟨rfl, rfl⟩ := Prod.mk.inj (Option.some.inj (found.symm.trans found'))
      rw [ih more]
    | char _ other => cases found.symm.trans other
  | char free other _ ih =>
    cases reads' with
    | quoted opens => cases opens.symm.trans free
    | sign _ found => cases found.symm.trans other
    | char _ _ more => rw [ih more]

theorem read_iff (shortens : dialect.Shortens) {text : String} {pieces : List SqlPiece} :
    read dialect text = pieces ↔ ReadsAs dialect text.toList pieces := by
  have reads : ReadsAs dialect text.toList (read dialect text) := reads_readFrom shortens le_rfl
  exact ⟨fun same => same ▸ reads, fun reads' => reads.unique reads'⟩

/-! ### Signs -/

variable {backend : DatabaseBackend} {c : Char} {rest after : List Char} {label : Option Nat}

theorem length_labelled (cs : List Char) : (labelled cs).2.length ≤ cs.length :=
  (List.dropWhile_suffix _).length_le

theorem clauseSign_some (numbered : numbers backend = true)
    (found : clauseSign backend c rest = some (label, after)) :
    (c = '?' ∨ c = '$') ∧ labelled rest = (label, after) ∨
      ∃ p tail, rest = p :: tail ∧ (c = '@' ∧ isP p = true) ∧ labelled tail = (label, after) := by
  cases backend with
  | sqlite | mysql => cases numbered
  | postgres | mssql =>
    simp only [clauseSign] at found
    split at found
    next mark => exact .inl ⟨mark, Option.some.inj found⟩
    split at found
    · cases found
    next p tail =>
      split at found
      next sign => exact .inr ⟨p, tail, rfl, sign, Option.some.inj found⟩
      · cases found

theorem clauseSign_none (numbered : numbers backend = true) (other : clauseSign backend c rest = none) :
    ¬(c = '?' ∨ c = '$') ∧ ∀ p tail, rest = p :: tail → ¬(c = '@' ∧ isP p = true) := by
  cases backend with
  | sqlite | mysql => cases numbered
  | postgres | mssql =>
    simp only [clauseSign] at other
    split at other
    · cases other
    next mark =>
      refine ⟨mark, fun p tail shape sign => ?_⟩
      subst shape
      simp only at other
      rw [if_pos sign] at other
      cases other

theorem length_le_of_labelled {cs after : List Char} {label : Option Nat}
    (same : labelled cs = (label, after)) : after.length ≤ cs.length := by
  have shorter := length_labelled cs
  rwa [same] at shorter

theorem clauseDialect_shortens (backend : DatabaseBackend) : (clauseDialect backend).Shortens := by
  intro c rest label after found
  change clauseSign backend c rest = some (label, after) at found
  cases numbered : numbers backend with
  | true =>
    rcases clauseSign_some numbered found with ⟨_, same⟩ | ⟨p, tail, rfl, _, same⟩
    · exact length_le_of_labelled same
    · exact (length_le_of_labelled same).trans (Nat.le_succ _)
  | false =>
    cases backend with
    | postgres | mssql => cases numbered
    | sqlite =>
      simp only [clauseSign] at found
      split at found
      · exact length_le_of_labelled (Option.some.inj found)
      · cases found
    | mysql =>
      simp only [clauseSign] at found
      split at found
      · obtain ⟨-, rfl⟩ := Prod.mk.inj (Option.some.inj found)
        exact le_rfl
      · cases found

theorem databaseDialect_shortens (backend : DatabaseBackend) :
    (databaseDialect backend).Shortens := by
  intro c rest label after found
  change databaseSign backend c rest = some (label, after) at found
  cases backend with
  | sqlite => exact clauseDialect_shortens .sqlite c rest label after found
  | mysql => exact clauseDialect_shortens .mysql c rest label after found
  | postgres =>
    simp only [databaseSign] at found
    split at found
    · exact length_le_of_labelled (Option.some.inj found)
    · cases found
  | mssql =>
    cases rest with
    | nil => cases found
    | cons p tail =>
      simp only [databaseSign] at found
      split at found
      · exact (length_le_of_labelled (Option.some.inj found)).trans (Nat.le_succ _)
      · cases found

theorem readClause_iff {clause : String} {pieces : List SqlPiece} :
    readClause backend clause = pieces ↔ ReadsAs (clauseDialect backend) clause.toList pieces :=
  read_iff (clauseDialect_shortens backend)

theorem readDatabase_iff {text : String} {pieces : List SqlPiece} :
    readDatabase backend text = pieces ↔ ReadsAs (databaseDialect backend) text.toList pieces :=
  read_iff (databaseDialect_shortens backend)

end Reader

/-! ### The rewriting finds the placeholders -/

section Rewriting

variable {backend : DatabaseBackend} {brackets : Bool} {close : Char}

theorem closingOf_numbered (numbered : numbers backend = true) (c : Char) :
    closingOf backend c = quoteEnd (backend = .mssql) c := by
  cases backend with
  | sqlite | mysql => cases numbered
  | postgres =>
    simp only [closingOf, quoteEnd]
    by_cases single : c = '\''
    · simp [single]
    by_cases double : c = '"'
    · simp [double]
    simp [single, double]
  | mssql =>
    simp only [closingOf, quoteEnd]
    by_cases bracket : c = '['
    · simp [bracket]
    by_cases single : c = '\''
    · simp [single]
    by_cases double : c = '"'
    · simp [double]
    simp [single, double, bracket]

theorem rewriteFrom_quotedPart (cs : List Char) :
    rewriteFrom brackets (.quoted close) cs = (quotedPart true close cs).1.map some ++
      rewriteFrom brackets (.outside false) (quotedPart true close cs).2 := by
  fun_induction quotedPart true close cs with
  | case1 | case2 => simp [rewriteFrom]
  | case3 c rest doubled part after split ih =>
    rw [split] at ih
    rw [rewriteFrom, if_pos rfl, if_pos doubled.2, ih]
    rfl
  | case4 d rest single =>
    rw [rewriteFrom, if_pos rfl, if_neg (by simpa using single)]
    rfl
  | case5 c d rest stays part after split ih =>
    rw [split] at ih
    rw [rewriteFrom, if_neg stays, ih]
    rfl

/-- The digits of a placeholder are left out. -/
theorem rewriteFrom_digits (cs : List Char) :
    rewriteFrom brackets (.outside true) cs =
      rewriteFrom brackets (.outside false) (cs.dropWhile Char.isDigit) := by
  induction cs with
  | nil => rfl
  | cons c rest ih =>
    by_cases digit : c.isDigit = true
    · rw [List.dropWhile_cons_of_pos digit, ← ih]
      cases rest with
      | nil => simp [rewriteFrom, digit]
      | cons d rest => rw [rewriteFrom, if_pos ⟨rfl, digit⟩]
    · rw [List.dropWhile_cons_of_neg digit]
      cases rest with
      | nil | cons d rest => simp [rewriteFrom, digit]

theorem rewriteFrom_quoted {c : Char} (opens : quoteEnd brackets c = some close) (rest : List Char) :
    rewriteFrom brackets (.outside false) (c :: rest) =
      some c :: rewriteFrom brackets (.quoted close) rest := by
  have sign : ¬(c = '?' ∨ c = '$') := by
    rintro (rfl | rfl) <;> simp [quoteEnd] at opens
  cases rest with
  | nil => simp [rewriteFrom, sign]
  | cons d rest => simp [rewriteFrom, opens]

theorem rewriteFrom_mark {c : Char} (free : quoteEnd brackets c = none) (mark : c = '?' ∨ c = '$')
    (rest : List Char) : rewriteFrom brackets (.outside false) (c :: rest) =
      none :: rewriteFrom brackets (.outside true) rest := by
  cases rest with
  | nil => simp [rewriteFrom, mark]
  | cons d rest => simp [rewriteFrom, free, mark]

theorem rewriteFrom_sign {c p : Char} (free : quoteEnd brackets c = none)
    (sign : c = '@' ∧ isP p = true) (rest : List Char) :
    rewriteFrom brackets (.outside false) (c :: p :: rest) =
      none :: rewriteFrom brackets (.outside true) rest := by
  obtain ⟨rfl, letter⟩ := sign
  simp [rewriteFrom, free, letter]

theorem rewriteFrom_char {c : Char} {rest : List Char} (free : quoteEnd brackets c = none)
    (mark : ¬(c = '?' ∨ c = '$'))
    (other : ∀ p tail, rest = p :: tail → ¬(c = '@' ∧ isP p = true)) :
    rewriteFrom brackets (.outside false) (c :: rest) =
      some c :: rewriteFrom brackets (.outside false) rest := by
  cases rest with
  | nil => simp [rewriteFrom, mark]
  | cons p tail =>
    have sign := other p tail rfl
    simp only [rewriteFrom, free, mark, sign, if_false, Bool.false_eq_true, false_and]

/-- The rewriting writes a placeholder where the clause has one, and copies every other character. -/
theorem ReadsAs.rewritten (numbered : numbers backend = true) {cs : List Char} {pieces : List SqlPiece}
    (reads : ReadsAs (clauseDialect backend) cs pieces) :
    rewriteFrom (backend = .mssql) (.outside false) cs = pieces.map SqlPiece.shape := by
  have doubles (close : Char) : (clauseDialect backend).doubles close = true := by
    cases backend <;> first | rfl | cases numbered
  induction reads with
  | nil => rfl
  | @quoted c close rest part after pieces opens splits _ ih =>
    change closingOf backend c = some close at opens
    rw [closingOf_numbered numbered] at opens
    rw [doubles] at splits
    rw [rewriteFrom_quoted opens, rewriteFrom_quotedPart, splits, ih]
    simp [SqlPiece.shape, Function.comp_def]
  | @sign c rest after label pieces free found _ ih =>
    change closingOf backend c = none at free
    rw [closingOf_numbered numbered] at free
    rcases clauseSign_some numbered found with ⟨mark, same⟩ | ⟨p, tail, rfl, sign, same⟩
    · obtain ⟨-, rfl⟩ := Prod.mk.inj same
      rw [rewriteFrom_mark free mark, rewriteFrom_digits, ih]
      rfl
    · obtain ⟨-, rfl⟩ := Prod.mk.inj same
      rw [rewriteFrom_sign free sign, rewriteFrom_digits, ih]
      rfl
  | @char c rest pieces free other _ ih =>
    change closingOf backend c = none at free
    rw [closingOf_numbered numbered] at free
    obtain ⟨mark, sign⟩ := clauseSign_none numbered other
    rw [rewriteFrom_char free mark sign, ih]
    rfl

theorem rewritten_readClause (numbered : numbers backend = true) (clause : String) :
    Query.rewritten backend clause = (readClause backend clause).map SqlPiece.shape :=
  (readClause_iff.mp rfl).rewritten numbered

end Rewriting

/-! ### What the database reads -/

section Numbering

variable {backend : DatabaseBackend} {close : Char} {cs : List Char} {pieces : List SqlPiece}

def spelledChars (backend : DatabaseBackend) (pieces : List SqlPiece) : List Char :=
  pieces.flatMap fun piece => (piece.spelled backend).toList

/-- What stands before the number of a placeholder. -/
def markOf : DatabaseBackend → List Char
  | .postgres => ['$']
  | .mssql => ['@', 'P']
  | .sqlite | .mysql => ['?']

theorem spelledChars_char (c : Char) (pieces : List SqlPiece) :
    spelledChars backend (.text c :: pieces) = c :: spelledChars backend pieces := by
  simp [spelledChars, SqlPiece.spelled]

theorem spelledChars_number (numbered : numbers backend = true) (n : Nat) (pieces : List SqlPiece) :
    spelledChars backend (.placeholder (some n) :: pieces) =
      markOf backend ++ (n.repr.toList ++ spelledChars backend pieces) := by
  cases backend with
  | sqlite | mysql => cases numbered
  | postgres | mssql => simp [spelledChars, SqlPiece.spelled, DatabaseBackend.placeholder, markOf]

/-- A quoted part ends where it did, whatever is written for the text after it. -/
theorem quotedPart_replace {doubles : Bool} {part after later : List Char}
    (splits : quotedPart doubles close cs = (part, after)) (ends : after = [] → later = [])
    (head : later.head? = some close → after.head? = some close) :
    quotedPart doubles close (part ++ later) = (part, later) := by
  fun_induction quotedPart doubles close cs generalizing part with
  | case1 | case2 c =>
    obtain ⟨rfl, rfl⟩ := Prod.mk.inj splits
    rw [ends rfl]
    rfl
  | case3 d rest doubled inner after' split ih =>
    obtain ⟨rfl, rfl⟩ := Prod.mk.inj splits
    rw [List.cons_append, List.cons_append, quotedPart, if_pos rfl, if_pos doubled, ih split]
  | case4 d rest single =>
    obtain ⟨rfl, rfl⟩ := Prod.mk.inj splits
    cases later with
    | nil => rfl
    | cons x later =>
      -- The character after the part does not make its end a doubled one.
      have other : ¬(doubles = true ∧ x = close) := fun ⟨allowed, same⟩ =>
        single ⟨allowed, Option.some.inj (head (congrArg some same))⟩
      rw [List.cons_append, List.nil_append, quotedPart, if_pos rfl, if_neg other]
  | case5 c d rest stays inner after' split ih =>
    obtain ⟨rfl, rfl⟩ := Prod.mk.inj splits
    have kept := ih split
    rw [List.cons_append]
    cases shape : inner ++ later with
    | nil =>
      obtain ⟨rfl, rfl⟩ := List.append_eq_nil_iff.mp shape
      rfl
    | cons x more =>
      rw [shape] at kept
      rw [quotedPart, if_neg stays, kept]

theorem numberFrom_text (next : Nat) (part : List Char) (shapes : List (Option Char)) :
    numberFrom next (part.map some ++ shapes) = part.map .text ++ numberFrom next shapes := by
  induction part with
  | nil => rfl
  | cons c part ih => rw [List.map_cons, List.cons_append, numberFrom, ih]; rfl

theorem spelledChars_text (part : List Char) (pieces : List SqlPiece) :
    spelledChars backend (part.map .text ++ pieces) = part ++ spelledChars backend pieces := by
  induction part with
  | nil => rfl
  | cons c part ih => rw [List.map_cons, List.cons_append, spelledChars_char, ih, List.cons_append]

/-- The clause with its placeholders numbered from an index on. -/
def numberedChars (backend : DatabaseBackend) (next : Nat) (pieces : List SqlPiece) : List Char :=
  spelledChars backend (numberFrom next (pieces.map SqlPiece.shape))

/-- The numbered text starts as the clause does, or with a placeholder. -/
theorem head_numbered (numbered : numbers backend = true)
    (reads : ReadsAs (clauseDialect backend) cs pieces) (next : Nat) :
    (numberedChars backend next pieces).head? = cs.head? ∨
      cs ≠ [] ∧ (numberedChars backend next pieces).head? = (markOf backend).head? := by
  unfold numberedChars
  cases reads with
  | nil => exact .inl rfl
  | quoted | char =>
    rw [List.map_cons, SqlPiece.shape, numberFrom, spelledChars_char]
    exact .inl rfl
  | sign =>
    refine .inr ⟨List.cons_ne_nil _ _, ?_⟩
    rw [List.map_cons, SqlPiece.shape, numberFrom, spelledChars_number numbered]
    cases backend <;> rfl

theorem labelled_number (n : Nat) {rest : List Char}
    (ends : ∀ c, rest.head? = some c → c.isDigit = false) :
    labelled (n.repr.toList ++ rest) = (some n, rest) := by
  have digit : ∀ c ∈ n.repr.toList, c.isDigit = true := by
    rw [Nat.toList_repr]
    exact fun c mem => Nat.isDigit_of_mem_toDigits (by decide) (by decide) mem
  have stops : rest.takeWhile Char.isDigit = [] ∧ rest.dropWhile Char.isDigit = rest := by
    cases rest with
    | nil => exact ⟨rfl, rfl⟩
    | cons c rest =>
      have other := ends c rfl
      exact ⟨List.takeWhile_cons_of_neg (by simp [other]), List.dropWhile_cons_of_neg (by simp [other])⟩
  have filled : n.repr.toList ≠ [] := by
    rw [Nat.toList_repr]
    exact Nat.toDigits_ne_nil
  have value : Nat.ofDigitChars 10 n.repr.toList 0 = n := by
    rw [Nat.toList_repr, Nat.ofDigitChars_ten_toDigits]
  unfold labelled leadingNumber
  rw [List.takeWhile_append_of_pos digit, List.dropWhile_append_of_pos digit, stops.1, stops.2,
    List.append_nil]
  cases shape : n.repr.toList with
  | nil => exact absurd shape filled
  | cons d digits =>
    rw [shape] at value
    simp only [value]

/-- No digits follow the digits that were left out. -/
theorem head_labelled {rest after : List Char} {label : Option Nat}
    (same : labelled rest = (label, after)) {c : Char} (first : after.head? = some c) :
    c.isDigit = false := by
  obtain ⟨-, rfl⟩ := Prod.mk.inj same
  have stopped := List.head?_dropWhile_not Char.isDigit rest
  rw [first] at stopped
  simpa using stopped

theorem databaseSign_number (numbered : numbers backend = true) (n : Nat) {rest : List Char}
    (ends : ∀ c, rest.head? = some c → c.isDigit = false) :
    ∃ c tail, markOf backend ++ (n.repr.toList ++ rest) = c :: tail ∧
      closingOf backend c = none ∧ databaseSign backend c tail = some (some n, rest) := by
  have filled : ∃ d digits, n.repr.toList = d :: digits ∧ d.isDigit = true := by
    rw [Nat.toList_repr]
    cases shape : Nat.toDigits 10 n with
    | nil => exact absurd shape Nat.toDigits_ne_nil
    | cons d digits =>
      exact ⟨d, digits, rfl,
        Nat.isDigit_of_mem_toDigits (by decide) (by decide) (shape ▸ List.mem_cons_self)⟩
  obtain ⟨d, digits, shape, digit⟩ := filled
  have read := labelled_number n ends
  have first : (n.repr.toList ++ rest).head?.any Char.isDigit = true := by
    rw [shape]
    exact digit
  cases backend with
  | sqlite | mysql => cases numbered
  | postgres =>
    refine ⟨'$', _, rfl, rfl, ?_⟩
    rw [databaseSign, if_pos ⟨rfl, first⟩]
    exact congrArg some read
  | mssql =>
    refine ⟨'@', _, rfl, rfl, ?_⟩
    show databaseSign .mssql '@' ('P' :: (n.repr.toList ++ rest)) = _
    rw [databaseSign, if_pos ⟨rfl, rfl, first⟩]
    exact congrArg some read

/-- A character that is no sign of the clause is none of the numbered text, whatever follows it
there. -/
theorem databaseSign_char (numbered : numbers backend = true) {c : Char} {rest later : List Char}
    (mark : ¬(c = '?' ∨ c = '$')) (sign : ∀ p tail, rest = p :: tail → ¬(c = '@' ∧ isP p = true))
    (head : later.head? = rest.head? ∨ later.head? = (markOf backend).head?) :
    databaseSign backend c later = none := by
  cases backend with
  | sqlite | mysql => cases numbered
  | postgres => exact if_neg fun found => mark (.inr found.1)
  | mssql =>
    cases later with
    | nil => rfl
    | cons p later =>
      refine if_neg fun ⟨at_, letter, _⟩ => ?_
      rcases head with same | same
      · obtain ⟨tail, shape⟩ := List.head?_eq_some_iff.mp same.symm
        exact sign p tail shape ⟨at_, letter⟩
      · -- An `@` that a placeholder follows begins no other one.
        obtain rfl : p = '@' := Option.some.inj same
        exact absurd letter (by decide)

theorem closingOf_ne_mark {c : Char} (opens : closingOf backend c = some close) :
    (markOf backend).head? ≠ some close := by
  intro same
  cases backend <;> simp only [closingOf] at opens <;> simp only [markOf, List.head?_cons,
    Option.some.injEq] at same <;> subst same <;> split_ifs at opens with quote <;>
    simp_all

/-- The database reads the numbered text of a clause as the clause, with its numbers. -/
theorem ReadsAs.numbered (numbered : numbers backend = true)
    (reads : ReadsAs (clauseDialect backend) cs pieces) (next : Nat) :
    ReadsAs (databaseDialect backend) (numberedChars backend next pieces)
      (numberFrom next (pieces.map SqlPiece.shape)) := by
  induction reads generalizing next with
  | nil => exact .nil
  | @quoted c close rest part after pieces opens splits more ih =>
    have shapes : (SqlPiece.text c :: (part.map .text ++ pieces)).map SqlPiece.shape =
        some c :: (part.map some ++ pieces.map SqlPiece.shape) := by
      simp [SqlPiece.shape, Function.comp_def]
    have text : numberedChars backend next (.text c :: (part.map .text ++ pieces)) =
        c :: (part ++ numberedChars backend next pieces) := by
      rw [numberedChars, shapes, numberFrom, spelledChars_char, numberFrom_text, spelledChars_text]
      rfl
    rw [text, shapes, numberFrom, numberFrom_text]
    have head := head_numbered numbered more next
    refine .quoted opens (quotedPart_replace splits (fun none => ?_) fun first => ?_) (ih next)
    · subst none
      rcases head with same | ⟨some, _⟩
      · exact List.head?_eq_none_iff.mp same
      · exact absurd rfl some
    · rcases head with same | ⟨_, same⟩
      · exact same ▸ first
      · exact absurd (same ▸ first) (closingOf_ne_mark opens)
  | @sign c rest after label pieces free found more ih =>
    have ends (d : Char) (first : (numberedChars backend (next + 1) pieces).head? = some d) :
        d.isDigit = false := by
      rcases head_numbered numbered more (next + 1) with same | ⟨_, same⟩
      · rw [same] at first
        rcases clauseSign_some numbered found with ⟨_, read⟩ | ⟨_, _, _, _, read⟩
        · exact head_labelled read first
        · exact head_labelled read first
      · rw [same] at first
        cases backend <;> cases first <;> rfl
    obtain ⟨d, tail, text, open_, sign⟩ := databaseSign_number numbered next ends
    have whole : numberedChars backend next (.placeholder label :: pieces) = d :: tail := by
      rw [numberedChars, List.map_cons, SqlPiece.shape, numberFrom, spelledChars_number numbered]
      exact text
    rw [whole, List.map_cons, SqlPiece.shape, numberFrom]
    exact .sign open_ sign (ih (next + 1))
  | @char c rest pieces free other more ih =>
    obtain ⟨mark, sign⟩ := clauseSign_none numbered other
    have text : numberedChars backend next (.text c :: pieces) =
        c :: numberedChars backend next pieces := by
      rw [numberedChars, List.map_cons, SqlPiece.shape, numberFrom, spelledChars_char]
      rfl
    rw [text, List.map_cons, SqlPiece.shape, numberFrom]
    refine .char free (databaseSign_char numbered mark sign ?_) (ih next)
    exact (head_numbered numbered more next).imp id And.right

theorem databaseDialect_of_unnumbered (unnumbered : numbers backend = false) :
    databaseDialect backend = clauseDialect backend := by
  cases backend with
  | postgres | mssql => cases unnumbered
  | sqlite | mysql => rfl

/-- A clause with its placeholders numbered from an index on, where the backend has numbers. -/
def renumber (backend : DatabaseBackend) (next : Nat) (pieces : List SqlPiece) : List SqlPiece :=
  if numbers backend then numberFrom next (pieces.map SqlPiece.shape) else pieces

/-- What the database reads in a rewritten clause is what was written, with the new numbers. -/
theorem readDatabase_normalize (clause : String) (start : Nat) :
    readDatabase backend (normalizeSqlPlaceholders backend clause start) =
      renumber backend start (readClause backend clause) := by
  rw [normalizeSqlPlaceholders, renumber]
  cases numbered : numbers backend with
  | true =>
    rw [if_pos rfl, if_pos rfl, rewritten_readClause numbered, readDatabase_iff]
    have text : (spellPieces backend (numberFrom start
        ((readClause backend clause).map SqlPiece.shape))).toList =
          numberedChars backend start (readClause backend clause) := String.toList_ofList ..
    rw [text]
    exact (readClause_iff.mp rfl).numbered numbered start
  | false =>
    rw [if_neg (by simp), if_neg (by simp), readDatabase, databaseDialect_of_unnumbered numbered]
    rfl

end Numbering

end GraphqlOrm.Query
