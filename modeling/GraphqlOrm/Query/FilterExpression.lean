import GraphqlOrm.Query.ClauseReading

/-!
# Filter expressions

The tree of a `WHERE` clause, how it is rendered with its values, and how flat conditions
are turned into one. SQLite and MySQL clauses keep their text: their placeholders carry no
numbers and are bound in the order in which they stand.
-/
namespace GraphqlOrm.Query

open Schema Sql

/-- Leaves are clauses with the values of their placeholders. -/
inductive FilterExpression (ν : Type) where
  | raw (clause : String) (values : List ν)
  | trustedFragment (clause : String) (values : List ν)
  | and (filters : List (FilterExpression ν))
  | or (filters : List (FilterExpression ν))

section Render

variable {ν : Type}

/-! ### Rendering -/

mutual

def renderFilterExpression (dialect : DatabaseBackend) :
    FilterExpression ν → Nat → List ν → String × Nat × List ν
  | .raw clause values, nextIndex, bindValues =>
    (normalizeSqlPlaceholders dialect clause nextIndex, nextIndex + values.length,
      bindValues ++ values)
  | .trustedFragment clause values, nextIndex, bindValues =>
    (normalizeSqlPlaceholders dialect clause nextIndex, nextIndex + values.length,
      bindValues ++ values)
  | .and filters, nextIndex, bindValues =>
    let (texts, nextIndex, bindValues) := renderFilters dialect filters nextIndex bindValues
    (Text.join " AND " ((texts.filter (· ≠ "")).map fun sql => "(" ++ sql ++ ")"), nextIndex,
      bindValues)
  | .or filters, nextIndex, bindValues =>
    let (texts, nextIndex, bindValues) := renderFilters dialect filters nextIndex bindValues
    if filters.isEmpty then ("1 = 0", nextIndex, bindValues)
    else
      (Text.join " OR " (texts.map fun sql => if sql = "" then "(1 = 1)" else "(" ++ sql ++ ")"),
        nextIndex, bindValues)

def renderFilters (dialect : DatabaseBackend) :
    List (FilterExpression ν) → Nat → List ν → List String × Nat × List ν
  | [], nextIndex, bindValues => ([], nextIndex, bindValues)
  | filter :: rest, nextIndex, bindValues =>
    let (text, nextIndex, bindValues) := renderFilterExpression dialect filter nextIndex bindValues
    let (texts, nextIndex, bindValues) := renderFilters dialect rest nextIndex bindValues
    (text :: texts, nextIndex, bindValues)

end

/-! ### Flat conditions -/

def rawParts : List String → List ν → List (FilterExpression ν)
  | [], _ => []
  | clause :: rest, values =>
    let placeholderCount := countPlaceholders clause
    .raw clause (values.take placeholderCount) :: rawParts rest (values.drop placeholderCount)

def filterExpressionFromRawParts (conditions : List String) (values : List ν) :
    Option (FilterExpression ν) :=
  match rawParts conditions values with
  | [] => none
  | [filter] => some filter
  | filters => some (.and filters)

end Render

/-! ### Binding -/

/-- The values to which a database binds the placeholders: a number stands for itself, and
otherwise the next one is taken. -/
def slotsFrom : Nat → List SqlPiece → List Nat
  | _, [] => []
  | next, .text _ :: rest => slotsFrom next rest
  | next, .placeholder (some n) :: rest => n :: slotsFrom (max next (n + 1)) rest
  | next, .placeholder none :: rest => next :: slotsFrom (next + 1) rest

end GraphqlOrm.Query
