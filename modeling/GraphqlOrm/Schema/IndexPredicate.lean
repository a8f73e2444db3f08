import GraphqlOrm.Schema.StructuralSql

/-!
# Partial-index predicates

The predicate of a partial index as the migrations write it and as PostgreSQL writes it
back, and what the parser makes of either.

## Main result

`readsBack_render_iff`: a rendered predicate is read back exactly if its column has a name
that the quoting does not pass through.
-/
namespace GraphqlOrm.Schema

open Text Scanning DatabaseBackend

/-! ### The written forms -/

def sqlStringLiteral (value : String) : String :=
  "'" ++ replace '\'' ['\'', '\''] value ++ "'"

/-- What follows `WHERE`. -/
def renderIndexPredicate (backend : DatabaseBackend) (predicate : IndexPredicateModel) : String :=
  backend.quoteIdentifier predicate.column ++ " IN (" ++
    join ", " (predicate.values.map sqlStringLiteral) ++ ")"

def renderCreateIndexStatement (backend : DatabaseBackend) (tableName : String)
    (index : IndexModel) : String :=
  let unique := if index.isUnique then "UNIQUE " else ""
  let method := if backend = .postgres ∧ index.method = .gist then " USING GIST" else ""
  let columns := join ", " (index.columns.zipIdx.map fun (column, position) =>
    if index.columnDirections.isEmpty then backend.quoteIdentifier column
    else backend.quoteIdentifier column ++ " " ++ (index.directionAt position).asSql)
  let predicate := (index.predicate.map fun predicate =>
    " WHERE " ++ renderIndexPredicate backend predicate).getD ""
  "CREATE " ++ unique ++ "INDEX " ++ backend.quoteIdentifier index.name ++ " ON " ++
    backend.quoteIdentifierPath tableName ++ method ++ " (" ++ columns ++ ")" ++ predicate

/-- PostgreSQL writes a name bare if it is lower-case and no keyword, else quoted. Bare
names are not checked against its keywords here. -/
def DeparsedName (column written : String) : Prop :=
  written = delimit '"' '"' column ∨
    written = column ∧ ∃ first rest, column.toList = first :: rest ∧
      (first.isLower = true ∨ first = '_') ∧
      ∀ c ∈ rest, c.isLower = true ∨ c.isDigit = true ∨ c = '_'

/-- The predicate as PostgreSQL writes it back. -/
def deparsedPredicate (written : String) (values : List String) : String :=
  written ++ " = ANY (ARRAY[" ++
    join ", " (values.map fun value => sqlStringLiteral value ++ "::text") ++ "])"

def parenthesized (count : Nat) (text : String) : String :=
  String.ofList (List.replicate count '(') ++ text ++ String.ofList (List.replicate count ')')

def ReadsBack (expression column : String) (values : List String) : Prop :=
  ∃ stored, parseClosedSetIndexPredicate expression = some { column, values := stored } ∧
    stored.Pairwise (· < ·) ∧ ∀ value, value ∈ stored ↔ value ∈ values

/-! ### Tokens of the written forms -/

theorem toList_sqlStringLiteral (value : String) :
    (sqlStringLiteral value).toList = '\'' ::
      ((value.toList.flatMap fun c => if c = '\'' then ['\'', '\''] else [c]) ++ ['\'']) := by
  simp [sqlStringLiteral, replace]

def Whole (cs : List Char) (tokens : List StructuralSqlToken) : Prop :=
  ∀ more later, Tokens more later → Tokens (cs ++ more) (tokens ++ later)

def ListEnd (more : List Char) : Prop :=
  more.head? = some ',' ∨ more.head? = some ')' ∨ more.head? = some ']'

theorem ListEnd.apart {more : List Char} (ends : ListEnd more) {c : Char}
    (other : c ≠ ',' ∧ c ≠ ')' ∧ c ≠ ']') : more.head? ≠ some c := by
  rcases ends with head | head | head <;> rw [head, Ne, Option.some.injEq]
  · exact Ne.symm other.1
  · exact Ne.symm other.2.1
  · exact Ne.symm other.2.2

variable {more : List Char}

theorem ListEnd.no_ident (ends : ListEnd more) :
    ∀ c ∈ more.head?, isIdentChar c = false := by
  intro c mem
  rcases ends with head | head | head <;> rw [head] at mem <;> cases mem <;> rfl

theorem no_ident_cons {c : Char} (other : isIdentChar c = false) :
    ∀ d ∈ (c :: more).head?, isIdentChar d = false := by
  intro d mem
  cases mem
  exact other

def CastText (suffix : String) (cast : List StructuralSqlToken) : Prop :=
  suffix.toList.head? ≠ some '\'' ∧ ∀ more later, ListEnd more → Tokens more later →
    Tokens (suffix.toList ++ more) (cast ++ later)

theorem castText_none : CastText "" [] :=
  ⟨by simp, fun _ _ _ after => after⟩

theorem castText_text : CastText "::text" textCast := by
  constructor
  · decide
  · intro more later ends after
    have spelled : "::text".toList = [':', ':', 't', 'e', 'x', 't'] := rfl
    rw [spelled]
    apply Tokens.doubleColon
    exact @Tokens.word more later 't' ['e', 'x', 't'] (.inl rfl) rfl ends.no_ident after

theorem Tokens.values {suffix : String} {cast : List StructuralSqlToken}
    (written : CastText suffix cast) {values : List String} (filled : values ≠ [])
    {later : List StructuralSqlToken} (ends : ListEnd more) (after : Tokens more later) :
    Tokens ((join ", " (values.map fun value => sqlStringLiteral value ++ suffix)).toList ++ more)
      (listed cast values ++ later) := by
  -- One value, with its cast, in front of what may follow a value.
  have value (value : String) {more : List Char} {later : List StructuralSqlToken}
      (ends : ListEnd more) (after : Tokens more later) :
      Tokens ((sqlStringLiteral value ++ suffix).toList ++ more)
        (.string value :: (cast ++ later)) := by
    have apart : (suffix.toList ++ more).head? ≠ some '\'' := by
      cases opened : suffix.toList with
      | nil => exact ends.apart (by decide)
      | cons c rest =>
        have first := written.1
        rw [opened] at first
        exact first
    have read := Tokens.string value.toList apart (written.2 more later ends after)
    rw [String.ofList_toList] at read
    rw [String.toList_append, toList_sqlStringLiteral]
    simpa only [List.cons_append, List.append_assoc, List.nil_append] using read
  induction values using listed.induct with
  | case1 => exact absurd rfl filled
  | case2 first => exact value first ends after
  | case3 first next rest ih =>
    have later := ih (by simp)
    have comma : Tokens (',' :: ' ' :: ((join ", " ((next :: rest).map fun value =>
        sqlStringLiteral value ++ suffix)).toList ++ more))
        (.comma :: (listed cast (next :: rest) ++ _)) :=
      .sign rfl (fun _ => rfl) (.space later)
    have read := value first (.inl rfl) comma
    have separator : ", ".toList = [',', ' '] := rfl
    simpa only [List.map_cons, join, String.toList_append, separator, List.append_assoc, listed,
      List.cons_append, List.nil_append] using read

variable {tokens : List StructuralSqlToken}

theorem Whole.parenthesized {text : String} (whole : Whole text.toList tokens) (count : Nat) :
    Whole (Schema.parenthesized count text).toList (enclosed count tokens) := by
  induction count with
  | zero => simpa [Schema.parenthesized, enclosed] using whole
  | succ count ih =>
    intro more later after
    have closed : Tokens (')' :: more) (.rightParen :: later) := .sign rfl (fun _ => rfl) after
    have opened : Tokens ('(' :: _) (.leftParen :: _) :=
    .sign rfl (fun _ => rfl) (ih _ _ closed)
    have right : List.replicate (count + 1) ')' = List.replicate count ')' ++ [')'] :=
      List.replicate_succ'
    rw [enclosed_succ]
    rw [Schema.parenthesized, right, List.replicate_succ]
    simpa [Schema.parenthesized] using opened

theorem parse_parenthesized {text : String} (whole : Whole text.toList tokens)
    (balanced : BalancedTokens tokens) (bare : tokens.head? ≠ some .leftParen) (count : Nat) :
    parseClosedSetIndexPredicate (parenthesized count text) = parseClosedSetTokens tokens := by
  have spelled := whole.parenthesized count [] [] .nil
  rw [List.append_nil, List.append_nil] at spelled
  rw [parseClosedSetIndexPredicate, tokenizeStructuralSql_iff.mpr spelled, Option.bind_eq_bind,
    Option.bind_some, stripRedundantOuterParentheses_enclosed balanced bare]

/-! ### Balanced forms -/

variable {values : List String}

theorem BalancedTokens.listed {cast : List StructuralSqlToken} (known : cast = [] ∨ cast = textCast)
    {more : List StructuralSqlToken} (after : BalancedTokens more) :
    BalancedTokens (Schema.listed cast values ++ more) := by
  have value (value : String) {more : List StructuralSqlToken} (after : BalancedTokens more) :
      BalancedTokens (.string value :: (cast ++ more)) := by
    apply BalancedTokens.token (by simp) (by simp)
    rcases known with rfl | rfl
    · exact after
    · exact .token (by simp) (by simp) (.token (by simp) (by simp) after)
  induction values using listed.induct with
  | case1 => exact after
  | case2 first => exact value first after
  | case3 first next rest ih =>
    rw [Schema.listed, List.cons_append, List.append_assoc]
    exact value first (.token (by simp) (by simp) ih)

theorem balanced_inTokens (column : String) (values : List String) :
    BalancedTokens (inTokens column values) := by
  apply BalancedTokens.token (by simp) (by simp)
  apply BalancedTokens.token (by simp) (by simp)
  apply BalancedTokens.group _ .nil
  simpa using BalancedTokens.listed (.inl rfl) .nil

theorem balanced_anyTokens (column : String) (values : List String) :
    BalancedTokens (anyTokens column values) := by
  have inside : BalancedTokens (.ident "ARRAY" :: .leftBracket ::
      (Schema.listed textCast values ++ [.rightBracket])) :=
    .token (by simp) (by simp) (.token (by simp) (by simp)
      (.listed (.inr rfl) (.token (by simp) (by simp) .nil)))
  apply BalancedTokens.token (by simp) (by simp)
  apply BalancedTokens.token (by simp) (by simp)
  apply BalancedTokens.token (by simp) (by simp)
  simpa using BalancedTokens.group inside .nil

/-! ### Names -/

def NameText (written column : String) : Prop :=
  ∀ more later, Tokens (' ' :: more) later →
    Tokens (written.toList ++ ' ' :: more) (.ident column :: later)

theorem nameText_delimit (column : String) : NameText (delimit '"' '"' column) column := by
  intro more later after
  have read := Tokens.quoted column.toList (by simp) after
  rw [String.ofList_toList] at read
  rw [DatabaseBackend.toList_delimit]
  simpa only [List.cons_append, List.append_assoc, List.nil_append] using read

variable {column : String}

variable {written : String}

theorem DeparsedName.nameText (name : DeparsedName column written) :
    NameText written column := by
  rcases name with rfl | ⟨rfl, first, rest, spelled, start, letters⟩
  · exact nameText_delimit column
  · intro more later after
    have word : rest.all isIdentChar = true := by
      rw [List.all_eq_true]
      intro c mem
      rcases letters c mem with lower | digit | rfl
      · simp [isIdentChar, Char.isAlphanum, (isAlpha_iff c).mpr (.inr lower)]
      · simp [isIdentChar, Char.isAlphanum, digit]
      · rfl
    have read := @Tokens.word (' ' :: more) later first rest
      (start.imp_left fun lower => (isAlpha_iff first).mpr (.inr lower)) word
      (no_ident_cons rfl) after
    rw [← spelled, String.ofList_toList] at read
    rw [spelled]
    exact read

section

variable {column : String} (name : NameText written column) {values : List String}
    (filled : values ≠ [])
include name filled

theorem whole_in :
    Whole (written ++ " IN (" ++ join ", " (values.map sqlStringLiteral) ++ ")").toList
      (inTokens column values) := by
  intro more later after
  have closed : Tokens (')' :: more) (.rightParen :: later) := .sign rfl (fun _ => rfl) after
  have values := Tokens.values castText_none filled (.inr (.inl rfl)) closed
  have opened : Tokens ('(' :: _) (.leftParen :: _) :=
    .sign rfl (fun _ => rfl) values
  have test := @Tokens.word _ _ 'I' ['N'] (.inl rfl) rfl (no_ident_cons rfl) opened.space
  have read := name _ _ test.space
  have between : " IN (".toList = [' ', 'I', 'N', ' ', '('] := rfl
  have last : ")".toList = [')'] := rfl
  simpa [between, last, inTokens] using read

theorem whole_any :
    Whole (deparsedPredicate written values).toList (anyTokens column values) := by
  intro more later after
  have closed : Tokens (']' :: ')' :: more) (.rightBracket :: .rightParen :: later) :=
    .sign rfl (fun _ => rfl) (.sign rfl (fun _ => rfl) after)
  have values := Tokens.values castText_text filled (.inr (.inr rfl)) closed
  have opened : Tokens ('[' :: _) (.leftBracket :: _) :=
    .sign rfl (fun _ => rfl) values
  have array := @Tokens.word _ _ 'A' ['R', 'R', 'A', 'Y'] (.inl rfl) rfl (no_ident_cons rfl)
    opened
  have argument : Tokens ('(' :: _) (.leftParen :: _) :=
    .sign rfl (fun _ => rfl) array
  have test := @Tokens.word _ _ 'A' ['N', 'Y'] (.inl rfl) rfl (no_ident_cons rfl)
    argument.space
  have equals : Tokens ('=' :: _) (.equals :: _) :=
    .sign rfl (fun _ => rfl) test.space
  have read := name _ _ equals.space
  have between : " = ANY (ARRAY[".toList =
    [' ', '=', ' ', 'A', 'N', 'Y', ' ', '(', 'A', 'R', 'R', 'A', 'Y', '['] := rfl
  have last : "])".toList = [']', ')'] := rfl
  simpa [deparsedPredicate, between, last, anyTokens] using read

end

/-! ### Reading back -/

theorem readsBack_in (name : NameText written column) (named : column ≠ "") (filled : values ≠ [])
    (count : Nat) :
    ReadsBack (parenthesized count
      (written ++ " IN (" ++ join ", " (values.map sqlStringLiteral) ++ ")")) column values := by
  refine ⟨closedSet values, ?_, closedSet_pairwise values, fun _ => mem_closedSet⟩
  rw [parse_parenthesized (whole_in name filled) (balanced_inTokens _ _) (by simp [inTokens]) count]
  exact parseClosedSetTokens_in named filled

theorem readsBack_any (name : NameText written column) (named : column ≠ "") (filled : values ≠ [])
    (count : Nat) :
    ReadsBack (parenthesized count (deparsedPredicate written values)) column values := by
  refine ⟨closedSet values, ?_, closedSet_pairwise values, fun _ => mem_closedSet⟩
  rw [parse_parenthesized (whole_any name filled) (balanced_anyTokens _ _)
    (by simp [anyTokens]) count]
  exact parseClosedSetTokens_any named filled

theorem parenthesized_zero (text : String) : parenthesized 0 text = text := by
  simp [parenthesized]

/-! ### Names that are passed through -/

/-- What the parser accepts starts with the column, behind parentheses. -/
theorem parse_eq_some {expression : String} {predicate : IndexPredicateModel}
    (accepted : parseClosedSetIndexPredicate expression = some predicate) :
    ∃ count rest, Tokens expression.toList (enclosed count (.ident predicate.column :: rest)) ∧
      predicate.column ≠ "" ∧
      parseClosedSetTokens (.ident predicate.column :: rest) = some predicate := by
  rw [parseClosedSetIndexPredicate] at accepted
  obtain ⟨tokens, scanned, parsed⟩ := Option.bind_eq_some_iff.mp accepted
  obtain ⟨count, around⟩ := exists_enclosed tokens
  generalize stripRedundantOuterParentheses tokens = inner at around parsed
  have spelled := tokenizeStructuralSql_iff.mp scanned
  rw [around] at spelled
  have whole := parsed
  unfold parseClosedSetTokens at parsed
  split at parsed
  next column rest =>
    split at parsed
    · cases parsed
    next named =>
      obtain ⟨⟨isIn, inside⟩, -, parsed⟩ := Option.bind_eq_some_iff.mp parsed
      obtain ⟨values, -, parsed⟩ := Option.bind_eq_some_iff.mp parsed
      cases Option.some.inj parsed
      exact ⟨count, rest, spelled, named, whole⟩
  · cases parsed

/-- Doubling the quotes of a quoted name leaves no room for the text behind it. -/
theorem delimited_passed {tail left : List Char} :
    delimited '"' (tail ++ ' ' :: more) ≠ some ('"' :: tail, left) := by
  intro read
  have whole := DatabaseBackend.delimited_eq_some read
  have doubled (cs : List Char) :
      (cs.flatMap fun c => if c = '"' then ['"', '"'] else [c]).length =
        cs.length + cs.count '"' ∧
      (cs.flatMap fun c => if c = '"' then ['"', '"'] else [c]).count '"' = 2 * cs.count '"' := by
    induction cs with
    | nil => exact ⟨rfl, rfl⟩
    | cons c cs ih =>
      rw [List.flatMap_cons, List.length_append, List.count_append, ih.1, ih.2, List.length_cons]
      by_cases quote : c = '"'
      · subst quote
        rw [if_pos rfl, List.count_cons_self]
        have two : List.count '"' ['"', '"'] = 2 := rfl
        rw [two]
        simp only [List.length_cons, List.length_nil]
        omega
      · rw [if_neg quote, List.count_cons_of_ne quote]
        have none : List.count '"' [c] = 0 := by simp [quote]
        rw [none]
        simp only [List.length_cons, List.length_nil]
        omega
  -- Cut both texts where the doubled name ends.
  obtain ⟨longer, quotes⟩ := doubled ('"' :: tail)
  rw [List.count_cons_self, List.length_cons] at longer
  rw [List.count_cons_self] at quotes
  generalize (('"' :: tail).flatMap fun c => if c = '"' then ['"', '"'] else [c]) = body
    at whole longer quotes
  have cut := congrArg (List.take body.length) whole
  rw [List.take_left, longer] at cut
  have split : tail.length + 1 + (tail.count '"' + 1) = tail.length + (tail.count '"' + 1 + 1) := by
    omega
  rw [split, List.take_length_add_append, List.take_succ_cons] at cut
  have same := congrArg (List.count '"') cut
  rw [quotes, List.count_append, List.count_cons_of_ne (by decide)] at same
  have few : (more.take (tail.count '"' + 1)).count '"' ≤ tail.count '"' + 1 :=
    List.count_le_length.trans (List.length_take_le _ _)
  omega

theorem Tokens.opens {c : Char} {rest : List Char} (start : isWhitespace c = false)
    (spelled : Tokens (c :: rest) tokens) :
    ∃ token left later, readStructuralToken c rest = some (token, left) ∧
      tokens = token :: later := by
  cases spelled with
  | blank skipped _ => exact absurd skipped (by simp [start])
  | token _ read _ => exact ⟨_, _, _, read, rfl⟩

/-- A text that starts with a delimiter is not read back as the column it starts with. -/
theorem parse_passed {c : Char} {tail more : List Char} {expression : String}
    {predicate : IndexPredicateModel} (opening : c = '"' ∨ c = '[' ∨ c = '`')
    (spelled : expression.toList = c :: (tail ++ ' ' :: more))
    (accepted : parseClosedSetIndexPredicate expression = some predicate) :
    predicate.column.toList ≠ c :: tail := by
  obtain ⟨count, rest, tokens, -, -⟩ := parse_eq_some accepted
  rw [spelled] at tokens
  have start : isWhitespace c = false := by rcases opening with rfl | rfl | rfl <;> rfl
  obtain ⟨token, left, later, read, whole⟩ := tokens.opens start
  rcases opening with rfl | rfl | rfl
  · -- No parenthesis is in front, so the column is the quoted name.
    have mapped : Option.map _ (delimited '"' (tail ++ ' ' :: more)) = some (token, left) := read
    obtain ⟨⟨value, after⟩, body, same⟩ := Option.map_eq_some_iff.mp mapped
    cases same
    cases count with
    | zero =>
      simp only [enclosed, List.replicate_zero, List.nil_append, List.append_nil, List.cons.injEq,
        StructuralSqlToken.ident.injEq] at whole
      rw [whole.1, String.toList_ofList]
      rintro rfl
      exact delimited_passed body
    | succ count =>
      rw [enclosed_succ] at whole
      cases whole
  · cases read
    cases count with
    | zero => simp [enclosed] at whole
    | succ count =>
      rw [enclosed_succ] at whole
      cases whole
  · cases read

/-- A name that is passed through starts with a delimiter. -/
theorem passed_opens {backend : DatabaseBackend}
    (supported : backend = .sqlite ∨ backend = .postgres)
    (passed : backend.quoteIdentifier column = column) :
    ∃ c tail, column.toList = c :: tail ∧ (c = '"' ∨ c = '[' ∨ c = '`') := by
  have known : backend ≠ .mysql := by rcases supported with rfl | rfl <;> decide
  by_cases ends : ∃ pair ∈ backend.delimiters, wrapped pair.1 pair.2 column = true
  · have openings : ∀ pair ∈ backend.delimiters, pair.1 = '"' ∨ pair.1 = '[' ∨ pair.1 = '`' := by
      rcases supported with rfl | rfl <;> decide
    obtain ⟨pair, mem, around⟩ := ends
    rcases wrapped_iff.mp around with ⟨lone, -⟩ | ⟨body, whole⟩
    · exact ⟨pair.1, [], lone, openings pair mem⟩
    · exact ⟨pair.1, _, whole, openings pair mem⟩
  · -- Otherwise it would have been delimited, and would be its own delimited form.
    have delimited := quoteIdentifier_of_bare known ends
    rw [passed] at delimited
    refine absurd ⟨backend.ownDelimiters, ?_, ?_⟩ ends
    · rcases supported with rfl | rfl <;> decide
    · rw [delimited]
      exact wrapped_delimit _ _ _

theorem readsBack_render_iff {backend : DatabaseBackend}
    (supported : backend = .sqlite ∨ backend = .postgres) (column : String) (filled : values ≠ []) :
    ReadsBack (renderIndexPredicate backend { column, values }) column values ↔
      column ≠ "" ∧ backend.quoteIdentifier column ≠ column := by
  constructor
  · rintro ⟨stored, accepted, -⟩
    obtain ⟨-, -, -, named, -⟩ := parse_eq_some accepted
    refine ⟨named, ?_⟩
    intro passed
    obtain ⟨c, tail, spelled, opening⟩ := passed_opens supported passed
    have first : (renderIndexPredicate backend { column, values }).toList =
        c :: (tail ++ ' ' :: ("IN (" ++ join ", " (values.map sqlStringLiteral) ++ ")").toList) := by
      have between : " IN (".toList = ' ' :: "IN (".toList := rfl
      simp [renderIndexPredicate, passed, spelled, between]
    exact parse_passed opening first accepted spelled
  · rintro ⟨named, changed⟩
    have quoted : backend.quoteIdentifier column = delimit '"' '"' column := by
      rcases backend.quoteIdentifier_cases column with passed | ⟨-, delimited⟩
      · exact absurd passed changed
      · rcases supported with rfl | rfl <;> exact delimited
    have read := readsBack_in (nameText_delimit column) named filled 0
    rw [parenthesized_zero] at read
    rw [renderIndexPredicate, quoted]
    exact read

end GraphqlOrm.Schema
