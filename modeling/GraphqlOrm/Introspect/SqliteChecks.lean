import GraphqlOrm.Foundation.StableSort
import GraphqlOrm.Foundation.Text
import GraphqlOrm.Schema.Model

/-!
# CHECK constraints of a SQLite table

SQLite keeps the text of a `CREATE TABLE` and nothing more, so introspection scans
that text for the constraints (`parse_sqlite_check_constraints`). The scan goes by
bytes and stops at ASCII bytes only, and the characters of the text stand for them
here. An index that jumps ahead is a number of characters to skip.
-/
namespace GraphqlOrm.Introspect

open Schema Text

inductive CheckError where
  | missingExpression | unbalancedParentheses | unterminatedExpression
deriving DecidableEq

def CheckError.message : CheckError → String
  | missingExpression => "SQLite CHECK constraint is missing its expression"
  | unbalancedParentheses => "SQLite CHECK constraint has unbalanced parentheses"
  | unterminatedExpression => "SQLite CHECK constraint has an unterminated expression"

def identifierByte (c : Char) : Bool := c.isAlphanum || c == '_' || c == '$'

def isQuote (c : Char) : Bool := c == '\'' || c == '"' || c == '`'

def splitAsciiWhitespace (text : List Char) : List (List Char) :=
  (text.splitOnP isAsciiWhitespace).filter (!·.isEmpty)

def tokenAfterConstraint : List (List Char) → Option (List Char)
  | [] => none
  | token :: tokens =>
    if token.map Char.toLower = "constraint".toList then tokens.head?
    else tokenAfterConstraint tokens

def constraintName (clause : List Char) : Option String :=
  (tokenAfterConstraint (splitAsciiWhitespace clause)).map fun name =>
    String.ofList (trimList ['"', '`', '[', ']'].contains name)

/-! ### Tokens that are passed over

Each length counts from behind the characters that open the token. -/

def quotedLength (delimiter : Char) : List Char → Nat
  | [] => 0
  | [_] => 1
  | c :: next :: rest =>
    if c = delimiter then
      if next = delimiter then quotedLength delimiter rest + 2 else 1
    else quotedLength delimiter (next :: rest) + 1

def bracketLength : List Char → Nat
  | [] => 0
  | c :: rest => if c = ']' then 1 else bracketLength rest + 1

def lineLength : List Char → Nat
  | [] => 0
  | c :: rest => if c = '\n' then 0 else lineLength rest + 1

/-- Through the closing `*/`. -/
def commentLength : List Char → Nat
  | [] => 0
  | [_] => 1
  | c :: next :: rest => if c = '*' ∧ next = '/' then 2 else commentLength (next :: rest) + 1

/-! ### The CHECK clause -/

def keywordAt (before text : List Char) : Bool :=
  (text.take 5).map Char.toLower == "check".toList && !before.head?.any identifierByte &&
    !(text.drop 5).head?.any identifierByte

def closeOffset : Nat → Option Char → List Char → Except CheckError Nat
  | _, _, [] => .error .unterminatedExpression
  | _, some _, [_] => .error .unterminatedExpression
  | depth, some active, c :: next :: rest =>
    if c = active then
      if next = active then (· + 2) <$> closeOffset depth (some active) rest
      else (· + 1) <$> closeOffset depth none (next :: rest)
    else (· + 1) <$> closeOffset depth (some active) (next :: rest)
  | depth, none, c :: rest =>
    if isQuote c then (· + 1) <$> closeOffset depth (some c) rest
    else if c = '(' then (· + 1) <$> closeOffset (depth + 1) none rest
    else if c = ')' then
      if depth = 0 then .error .unbalancedParentheses
      else if depth - 1 = 0 then .ok 0
      else (· + 1) <$> closeOffset (depth - 1) none rest
    else (· + 1) <$> closeOffset depth none rest

/-- The text between the last comma and the keyword. Without a comma the last
opening parenthesis takes its place. -/
def clauseBefore (before : List Char) : List Char :=
  if ',' ∈ before then (before.takeWhile (· ≠ ',')).reverse
  else (before.takeWhile (· ≠ '(')).reverse

/-- The constraint whose keyword starts the text, and the length of its clause. -/
def checkClause (before text : List Char) (count : Nat) :
    Except CheckError (CheckConstraintModel × Nat) :=
  let gap := (text.drop 5).takeWhile isAsciiWhitespace
  let body := (text.drop 5).dropWhile isAsciiWhitespace
  if body.head? ≠ some '(' then .error .missingExpression
  else
    (closeOffset 0 none body).map fun close =>
      ({ name := (constraintName (clauseBefore before)).getD
          ("__sqlite_unnamed_check_" ++ toString count)
         expression := trim (String.ofList ((body.take close).drop 1)) },
        5 + gap.length + close + 1)

/-! ### The scan -/

def scan : List Char → List Char → Nat → List CheckConstraintModel →
    Except CheckError (List CheckConstraintModel)
  | [], _, _, found => .ok found
  | c :: rest, before, skip + 1, found => scan rest (c :: before) skip found
  | c :: rest, before, 0, found =>
    if isQuote c then scan rest (c :: before) (quotedLength c rest) found
    else if c = '[' then scan rest (c :: before) (bracketLength rest) found
    else if c = '-' ∧ rest.head? = some '-' then
      scan rest (c :: before) (lineLength rest.tail + 1) found
    else if c = '/' ∧ rest.head? = some '*' then
      scan rest (c :: before) (commentLength rest.tail + 1) found
    else if keywordAt before (c :: rest) then
      match checkClause before (c :: rest) found.length with
      | .error error => .error error
      | .ok (constraint, length) => scan rest (c :: before) (length - 1) (found ++ [constraint])
    else scan rest (c :: before) 0 found

/-- The derived order of `CheckConstraintModel`. -/
def checkKey (constraint : CheckConstraintModel) : String ×ₗ String :=
  toLex (constraint.name, constraint.expression)

def parseSqliteCheckConstraints (createSql : String) :
    Except CheckError (List CheckConstraintModel) :=
  (scan createSql.toList [] 0 []).map (sortBy checkKey)

end GraphqlOrm.Introspect
