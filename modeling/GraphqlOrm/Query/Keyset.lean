import GraphqlOrm.Foundation.Condition
import GraphqlOrm.Foundation.Records
import GraphqlOrm.Schema.Dialect
import Mathlib.Order.Compare

/-!
# Keyset predicates

A keyset order sorts rows by nullable columns, each with a direction and a place for
its nulls. The predicate after (or before) a cursor is a disjunction over the columns:
all earlier columns equal the cursor's values and this one lies beyond it.
-/
namespace GraphqlOrm.Query

open Schema Sql

inductive OrmErrorCode where
  | invalidInput | unauthenticated | forbidden | notFound | conflict | constraintViolation
  | cursorInvalid | pageLimitExceeded | serviceUnavailable | internalError
  | authorizationMisconfigured

/-! ### Values -/

/-- A scalar of a cursor. Floating-point numbers are left open. -/
inductive KeysetValue (φ : Type) where
  | null
  | string (value : String)
  | int (value : Int)
  | float (value : φ)
  | bool (value : Bool)
  | uuid (value : String)
  | bytes (value : List UInt8)
deriving DecidableEq

/-- The bind values that cursors need. -/
inductive SqlValue (φ υ : Type) where
  | string (value : String)
  | int (value : Int)
  | float (value : φ)
  | bool (value : Bool)
  | uuid (value : υ)
  | bytes (value : List UInt8)

variable {φ υ : Type}

def keysetSqlValue (parseUuid : String → Option υ) : KeysetValue φ → Option (SqlValue φ υ)
  | .null => none
  | .string value => some (.string value)
  | .int value => some (.int value)
  | .float value => some (.float value)
  | .bool value => some (.bool value)
  | .uuid value => (parseUuid value).map .uuid
  | .bytes value => some (.bytes value)

/-! ### Orders -/

inductive KeysetDirection where
  | asc | desc
deriving DecidableEq

def KeysetDirection.asStr : KeysetDirection → String
  | asc => "ASC"
  | desc => "DESC"

inductive KeysetNulls where
  | first | last
deriving DecidableEq

structure KeysetOrderColumn where
  column : String
  direction : KeysetDirection
  nulls : KeysetNulls

namespace KeysetOrderColumn

def asc (column : String) : KeysetOrderColumn := ⟨column, .asc, .last⟩

def desc (column : String) : KeysetOrderColumn := ⟨column, .desc, .last⟩

def nullsFirst (order : KeysetOrderColumn) : KeysetOrderColumn := { order with nulls := .first }

def reversed (order : KeysetOrderColumn) : KeysetOrderColumn :=
  { order with
    direction := match order.direction with
      | .asc => .desc
      | .desc => .asc
    nulls := match order.nulls with
      | .first => .last
      | .last => .first }

@[simp] theorem reversed_column (order : KeysetOrderColumn) :
    order.reversed.column = order.column := rfl

def nullRank (order : KeysetOrderColumn) : Nat :=
  match order.nulls with
  | .first => 0
  | .last => 1

def orderSql (order : KeysetOrderColumn) : String :=
  "CASE WHEN " ++ order.column ++ " IS NULL THEN " ++ order.nullRank.repr ++ " ELSE " ++
    (1 - order.nullRank).repr ++ " END ASC, " ++ order.column ++ " " ++ order.direction.asStr

end KeysetOrderColumn

/-! ### Rendering -/

/-- The two predicates differ in the side of the cursor they select. -/
inductive Side where
  | after | before

inductive Comparison where
  | eq | lt | gt

def Comparison.asStr : Comparison → String
  | eq => "="
  | lt => "<"
  | gt => ">"

def Side.operator : Side → KeysetDirection → Comparison
  | .after, .asc => .gt
  | .after, .desc => .lt
  | .before, .asc => .lt
  | .before, .desc => .gt

/-- The nulls lie beyond every other value. -/
def Side.nullsBeyond : Side → KeysetNulls → Bool
  | .after, .last => true
  | .after, .first => false
  | .before, .first => true
  | .before, .last => false

/-- The comparison with a null of the cursor. -/
def Side.nullComparison (side : Side) (column : KeysetOrderColumn) : String :=
  if side.nullsBeyond column.nulls then "1 = 0" else column.column ++ " IS NOT NULL"

def Side.valueComparison (side : Side) (column : KeysetOrderColumn) (scalar : String) : String :=
  if side.nullsBeyond column.nulls then "(" ++ column.column ++ " IS NULL OR " ++ scalar ++ ")"
  else "(" ++ column.column ++ " IS NOT NULL AND " ++ scalar ++ ")"

section Render

variable (backend : DatabaseBackend) (parseUuid : String → Option υ) (startIndex : Nat)

def nextPlaceholder (values : List (SqlValue φ υ)) : String :=
  backend.placeholder (startIndex + values.length)

/-- The equalities with the cursor for the columns before the compared one. -/
def priorTerms : List (KeysetOrderColumn × KeysetValue φ) → List (SqlValue φ υ) →
    Except OrmErrorCode (List String × List (SqlValue φ υ))
  | [], values => .ok ([], values)
  | (column, .null) :: rest, values => do
    let (terms, values) ← priorTerms rest values
    return ((column.column ++ " IS NULL") :: terms, values)
  | (column, value) :: rest, values =>
    match keysetSqlValue parseUuid value with
    | none => .error .cursorInvalid
    | some bind => do
      let term := column.column ++ " = " ++ nextPlaceholder backend startIndex values
      let (terms, values) ← priorTerms rest (values ++ [bind])
      return (term :: terms, values)

def comparisonTerm (side : Side) (column : KeysetOrderColumn) (value : KeysetValue φ)
    (values : List (SqlValue φ υ)) : Except OrmErrorCode (String × List (SqlValue φ υ)) :=
  match value with
  | .null => .ok (side.nullComparison column, values)
  | value =>
    match keysetSqlValue parseUuid value with
    | none => .error .cursorInvalid
    | some bind =>
      let scalar := column.column ++ " " ++ (side.operator column.direction).asStr ++ " " ++
        nextPlaceholder backend startIndex values
      .ok (side.valueComparison column scalar, values ++ [bind])

/-- One branch for each column of `rest`; `prior` are the columns before it. -/
def branches (side : Side) (prior : List (KeysetOrderColumn × KeysetValue φ)) :
    List (KeysetOrderColumn × KeysetValue φ) → List (SqlValue φ υ) →
      Except OrmErrorCode (List String × List (SqlValue φ υ))
  | [], values => .ok ([], values)
  | (column, value) :: rest, values => do
    let (terms, values) ← priorTerms backend parseUuid startIndex prior values
    let (comparison, values) ← comparisonTerm backend parseUuid startIndex side column value values
    let branch := "(" ++ Text.join " AND " (terms ++ [comparison]) ++ ")"
    let (others, values) ← branches side (prior ++ [(column, value)]) rest values
    return (branch :: others, values)

def renderKeyset (side : Side) (columns : List KeysetOrderColumn) (cursor : List (KeysetValue φ)) :
    Except OrmErrorCode (String × List (SqlValue φ υ)) :=
  if columns.length ≠ cursor.length ∨ columns = [] then .error .cursorInvalid
  else do
    let (branches, values) ← branches backend parseUuid startIndex side [] (columns.zip cursor) []
    return (Text.join " OR " branches, values)

def renderKeysetAfter (columns : List KeysetOrderColumn) (cursor : List (KeysetValue φ)) :
    Except OrmErrorCode (String × List (SqlValue φ υ)) :=
  renderKeyset backend parseUuid startIndex .after columns cursor

/-- Unlike the predicate after a cursor, this one comes with its own parentheses. -/
def renderKeysetBefore (columns : List KeysetOrderColumn) (cursor : List (KeysetValue φ)) :
    Except OrmErrorCode (String × List (SqlValue φ υ)) := do
  let (text, values) ← renderKeyset backend parseUuid startIndex .before columns cursor
  return ("(" ++ text ++ ")", values)

end Render

end GraphqlOrm.Query
