import GraphqlOrm.Foundation.Text
import GraphqlOrm.Schema.Model
import Mathlib.Data.List.Sort

/-!
# Comparison of defaults, checks and columns

The equivalences the planner applies before it calls a column or a set of check
constraints changed: catalog spellings of known timestamp defaults, PostgreSQL
text literals, and check expressions compared token by token.
-/
namespace GraphqlOrm.Schema

open Text

/-! ### Default expressions -/

/-- The scan of `is_fully_parenthesized`: inside a quote nothing counts, and the
depth may reach zero only at the end. A doubled quote closes and reopens at
once, which skips it just as stepping over both characters does. The depth is
unbounded, where the source counts in an `i32`: they differ on texts of more than
`2^31` opening parentheses only. -/
def parenthesesClose : List Char → Option Char → Int → Bool
  | [], _, depth => depth == 0
  | c :: rest, some quote, depth =>
    parenthesesClose rest (if c = quote then none else some quote) depth
  | c :: rest, none, depth =>
    if c = '\'' ∨ c = '"' then parenthesesClose rest (some c) depth
    else if c = '(' then parenthesesClose rest none (depth + 1)
    else if c = ')' then
      if depth - 1 = 0 ∧ rest ≠ [] then false
      else if depth - 1 < 0 then false
      else parenthesesClose rest none (depth - 1)
    else parenthesesClose rest none depth

def isFullyParenthesized (chars : List Char) : Bool :=
  2 ≤ chars.length && chars.head? == some '(' && chars.getLast? == some ')' &&
    parenthesesClose chars none 0

/-- Strip balanced outer parentheses; every round removes two characters, so the
length is enough fuel. -/
def stripParentheses : Nat → List Char → List Char
  | 0, value => value
  | fuel + 1, value =>
    if isFullyParenthesized value then
      stripParentheses fuel (trimList isWhitespace value.tail.dropLast)
    else value

/-- The spellings the source normalises once the text is bare. -/
def keywordSpelling (value : String) : String :=
  if lower value = "extract(epoch from now())::bigint" ∨
      lower value = "(extract(epoch from now()))::bigint" then
    "EXTRACT(EPOCH FROM NOW())::bigint"
  else if upper value ∈ ["CURRENT_TIMESTAMP", "CURRENT_DATE", "CURRENT_TIME", "NULL"] then upper value
  else if upper value ∈ ["TRUE", "FALSE"] then lower value
  else value

def canonicalizeColumnDefaultExpression (expression : String) : String :=
  let trimmed := trimList isWhitespace expression.toList
  keywordSpelling (String.ofList (stripParentheses trimmed.length trimmed))

/-- The epoch and the text form of the implicit timestamp default. -/
def implicitTimestampDefaults : DatabaseBackend → Option (String × String)
  | .sqlite => some ("unixepoch()", "strftime('%Y-%m-%dT%H:%M:%f000Z','now')")
  | .postgres => some ("EXTRACT(EPOCH FROM NOW())::bigint",
      "to_char(NOW() AT TIME ZONE 'UTC', 'YYYY-MM-DD\"T\"HH24:MI:SS.US\"Z\"')")
  | .mssql => some ("DATEDIFF_BIG(second, '1970-01-01', SYSUTCDATETIME())",
      "CONVERT(varchar(27), SYSUTCDATETIME(), 126) + 'Z'")
  | .mysql => none

/-- Comparison-only catalog spellings of the known timestamp defaults. -/
def timestampDefaultForComparison (backend : DatabaseBackend) (expression : String) : String :=
  let value := canonicalizeColumnDefaultExpression expression
  let known := (implicitTimestampDefaults backend).getD ("", "")
  if backend = .postgres ∧ value =
      "to_char((now() AT TIME ZONE 'UTC'::text), 'YYYY-MM-DD\"T\"HH24:MI:SS.US\"Z\"'::text)" then
    known.2
  else if backend = .mssql ∧ value ∈ ["datediff_big(second,'1970-01-01',sysutcdatetime())",
      "datediff_big([second],'1970-01-01',sysutcdatetime())"] then
    known.1
  else if backend = .mssql ∧ value ∈ ["CONVERT([varchar](27),sysutcdatetime(),(126))+'Z'",
      "CONVERT([varchar](27),sysutcdatetime(),126)+'Z'"] then
    known.2
  else if (backend = .postgres ∧ eqIgnoreCase value "NOW()") ∨
      (backend = .mssql ∧ eqIgnoreCase value "SYSUTCDATETIME()") then
    upper value
  else value

/-- The body of a quoted PostgreSQL text literal. A doubled quote is a quote, an
escape string also escapes quotes and backslashes, and only a `::text` cast may
follow the literal. -/
def textLiteralBody (escaped : Bool) : List Char → Option (List Char)
  | [] => none
  | c :: rest =>
    if c = '\'' then
      match rest with
      | next :: after =>
        if next = '\'' then (textLiteralBody escaped after).map ('\'' :: ·)
        else
          let suffix := trim (String.ofList rest)
          if suffix = "" ∨ eqIgnoreCase suffix "::text" then some [] else none
      | [] => some []
    else if c = '\\' ∧ escaped then
      match rest with
      | next :: after =>
        if next = '\\' ∨ next = '\'' then (textLiteralBody escaped after).map (next :: ·) else none
      | [] => none
    else (textLiteralBody escaped rest).map (c :: ·)

def postgresTextDefaultLiteral (expression : String) : Option (List Char) :=
  let chars := (canonicalizeColumnDefaultExpression expression).toList
  let escaped := chars.head? == some 'e' || chars.head? == some 'E'
  match if escaped then chars.tail else chars with
  | c :: rest => if c = '\'' then textLiteralBody escaped rest else none
  | [] => none

/-! ### Check expressions -/

/-- Read up to the closing delimiter; a doubled delimiter stands for itself. -/
def delimited (closer : Char) : List Char → Option (List Char × List Char)
  | [] => none
  | c :: rest =>
    if c = closer then
      match rest with
      | next :: after =>
        if next = closer then (delimited closer after).map fun (body, left) => (closer :: body, left)
        else some ([], rest)
      | [] => some ([], [])
    else (delimited closer rest).map fun (body, left) => (c :: body, left)

/-- A string literal is collected byte by byte, and every byte becomes the
character of that number. -/
def bytesAsChars (body : List Char) : String :=
  String.ofList (body.flatMap fun c => (String.utf8EncodeChar c).map fun b => Char.ofNat b.toNat)

/-- A token tagged with the length of its text, so that no text can imitate one. -/
def taggedToken (tag value : String) : String :=
  tag ++ ":" ++ Nat.repr value.utf8ByteSize ++ ":" ++ value

def isPlainIdentifierChar (c : Char) : Bool := c.isLower || c.isDigit || c == '_' || c == '$'

/-- The token loop of `canonical_check_tokens`; every round consumes at least one
character, so the length is enough fuel. -/
def scanCheckTokens : Nat → List Char → Option (List String)
  | 0, cs => if cs.isEmpty then some [] else none
  | _ + 1, [] => some []
  | fuel + 1, c :: rest =>
    if isAsciiWhitespace c then scanCheckTokens fuel rest
    else if c = '\'' then do
      let (body, left) ← delimited '\'' rest
      let tokens ← scanCheckTokens fuel left
      return taggedToken "string" (bytesAsChars body) :: tokens
    else if c = '"' ∨ c = '`' ∨ c = '[' then do
      let (body, left) ← delimited (if c = '[' then ']' else c) rest
      let tokens ← scanCheckTokens fuel left
      let identifier := String.ofList body
      if body.all isPlainIdentifierChar then return identifier :: tokens
      else return taggedToken "quoted_identifier" identifier :: tokens
    else if c.isAlpha ∨ c = '_' then do
      let (word, left) := rest.span fun x => x.isAlphanum || x == '_' || x == '.' || x == '$'
      let tokens ← scanCheckTokens fuel left
      return lower (String.ofList (c :: word)) :: tokens
    else if c.isDigit ∨ ((c = '-' ∨ c = '+') ∧ (rest.head?.any Char.isDigit)) then do
      let (word, left) := rest.span fun x =>
        x.isDigit || x == '.' || x == 'e' || x == 'E' || x == '+' || x == '-'
      let tokens ← scanCheckTokens fuel left
      return String.ofList (c :: word) :: tokens
    else if c = '>' ∨ c = '<' ∨ c = '=' ∨ c = '!' then
      match rest with
      | next :: after =>
        if next = '=' ∨ (c = '<' ∧ next = '>') then do
          return String.ofList [c, next] :: (← scanCheckTokens fuel after)
        else do return String.ofList [c] :: (← scanCheckTokens fuel rest)
      | [] => some [String.ofList [c]]
    else if c = '(' ∨ c = ')' ∨ c = ',' then do
      return String.ofList [c] :: (← scanCheckTokens fuel rest)
    else none

/-- Whether the first parenthesis closes at the last token; `none` when the
depth becomes negative. -/
def wrapsAll : List String → Int → Option Bool
  | [], depth => some (depth == 0)
  | token :: rest, depth =>
    let depth := if token = "(" then depth + 1 else if token = ")" then depth - 1 else depth
    if depth = 0 ∧ rest ≠ [] then some false
    else if depth < 0 then none
    else wrapsAll rest depth

def unwrapTokens : Nat → List String → Option (List String)
  | 0, tokens => some tokens
  | fuel + 1, tokens =>
    if tokens.head? ≠ some "(" ∨ tokens.getLast? ≠ some ")" then some tokens
    else do
      if ← wrapsAll tokens 0 then unwrapTokens fuel tokens.tail.dropLast else some tokens

def canonicalCheckTokens (expression : String) : Option (List String) := do
  let chars := trimList isWhitespace expression.toList
  let tokens ← scanCheckTokens chars.length chars
  unwrapTokens tokens.length tokens

/-- The sorted canonical expressions of a constraint list, when all of them have
canonical tokens. -/
def canonicalChecks (constraints : List CheckConstraintModel) : Option (List (List String)) := do
  let values ← constraints.mapM fun constraint => canonicalCheckTokens constraint.expression
  return values.insertionSort (· ≤ ·)

def checkConstraintsEquivalent (current target : List CheckConstraintModel) : Bool :=
  match canonicalChecks current, canonicalChecks target with
  | some current, some target => current == target
  | _, _ => current == target

/-! ### Columns -/

/-- The default comparison profile. Typed literals bring their value comparison
for a target column type along. -/
inductive DefaultEquivalence where
  | pinned8e1
  | typedLiteralsV1 (postgresTypedDefaultsEqual : String → String → String → Option Bool)

def postgresTimestamptzAlias (sqlType : String) : Bool :=
  eqIgnoreCase sqlType "TIMESTAMPTZ" || eqIgnoreCase sqlType "timestamp with time zone"

def sqlTypeChanged (backend : DatabaseBackend) (before after : ColumnModel) : Bool :=
  if backend = .postgres ∨ backend = .mssql then
    !eqIgnoreCase before.sqlType after.sqlType &&
      !(backend = .postgres && postgresTimestamptzAlias before.sqlType &&
        postgresTimestamptzAlias after.sqlType)
  else before.sqlType != after.sqlType

/-- The directional retention of pre-existing text timestamp defaults. -/
def retainsTimestampDefault (backend : DatabaseBackend) (after : ColumnModel)
    (liveDefault targetDefault : Option String) : Bool :=
  (eqIgnoreCase after.sqlType "TEXT" || eqIgnoreCase after.sqlType "NVARCHAR(MAX)") &&
    match liveDefault, targetDefault, implicitTimestampDefaults backend with
    | some live, some target, some (epoch, text) =>
      target == text && (live == epoch || (backend = .postgres &&
        (eqIgnoreCase live "((extract(epoch from now()))::bigint)::text" ||
          eqIgnoreCase live "(extract(epoch from now())::bigint)::text")))
    | _, _, _ => false

/-- Complete PostgreSQL text literals on both sides, compared by value. -/
def textLiteralsChanged (backend : DatabaseBackend) (before after : ColumnModel) : Option Bool :=
  if backend = .postgres ∧ eqIgnoreCase before.sqlType "TEXT" ∧ eqIgnoreCase after.sqlType "TEXT"
  then do
    let before ← postgresTextDefaultLiteral (← before.default)
    let after ← postgresTextDefaultLiteral (← after.default)
    return before != after
  else none

def typedLiteralsChanged (backend : DatabaseBackend) (before after : ColumnModel) :
    DefaultEquivalence → Option Bool
  | .pinned8e1 => none
  | .typedLiteralsV1 equal =>
    if backend = .postgres then do
      return !(← equal after.sqlType (← before.default) (← after.default))
    else none

def columnChangedWith (backend : DatabaseBackend) (before after : ColumnModel)
    (equivalence : DefaultEquivalence) : Bool :=
  -- SQLite DDL does not carry spatial metadata.
  let spatialChanged := backend != .sqlite && before.spatial != after.spatial
  if before.name != after.name || sqlTypeChanged backend before after ||
      before.nullable != after.nullable || before.isPrimaryKey != after.isPrimaryKey ||
      before.isUnique != after.isUnique || spatialChanged then true
  else
    let liveDefault := before.default.map (timestampDefaultForComparison backend)
    let targetDefault := after.default.map (timestampDefaultForComparison backend)
    if liveDefault = targetDefault then false
    else if retainsTimestampDefault backend after liveDefault targetDefault then false
    else
      match textLiteralsChanged backend before after with
      | some changed => changed
      | none => (typedLiteralsChanged backend before after equivalence).getD true

/-! ### Every value is equivalent to itself -/

theorem checkConstraintsEquivalent_self (constraints : List CheckConstraintModel) :
    checkConstraintsEquivalent constraints constraints = true := by
  unfold checkConstraintsEquivalent
  split <;> simp_all

theorem sqlTypeChanged_self (backend : DatabaseBackend) (column : ColumnModel) :
    sqlTypeChanged backend column column = false := by
  unfold sqlTypeChanged
  split <;> simp

theorem columnChangedWith_self (backend : DatabaseBackend) (column : ColumnModel)
    (equivalence : DefaultEquivalence) :
    columnChangedWith backend column column equivalence = false := by
  simp [columnChangedWith, sqlTypeChanged_self]

end GraphqlOrm.Schema
