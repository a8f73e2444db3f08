import GraphqlOrm.Runtime.Read

/-!
# Mutation statements

The statements of runtime mutations that embed predicates: the read of a row under its key,
its update or delete, the admission of link targets, and the read of the linked keys.
-/
namespace GraphqlOrm.Runtime

open Outcome
open Schema (DatabaseBackend)
open Text (join)

variable {φ : Type}

/-- The program stops, or a statement has too many values. -/
inductive StatementFailure where
  | stopped | limitExceeded

section Parts

variable (backend : DatabaseBackend)

def bindValue (field : RuntimeFieldHandle) (value : RuntimeValue φ) (values : List (SqlValue φ)) :
    String × List (SqlValue φ) :=
  match valueBind value with
  | some bind => (nextBind backend field values, values ++ [bind])
  | none => ("NULL", values)

def bindEach {α : Type} (bind : α → List (SqlValue φ) → String × List (SqlValue φ)) :
    List α → List (SqlValue φ) → List String × List (SqlValue φ)
  | [], values => ([], values)
  | x :: rest, values =>
    let (text, values) := bind x values
    let (texts, values) := bindEach bind rest values
    (text :: texts, values)

/-- `column = value`. -/
def assignment (column : String) (field : RuntimeFieldHandle) (value : RuntimeValue φ)
    (values : List (SqlValue φ)) : String × List (SqlValue φ) :=
  let (bind, values) := bindValue backend field value values
  (column ++ " = " ++ bind, values)

def fieldAssignment (entry : RuntimeFieldHandle × RuntimeValue φ) (values : List (SqlValue φ)) :
    String × List (SqlValue φ) :=
  assignment backend (backend.quoteIdentifier entry.1.physicalColumn) entry.1 entry.2 values

def keySql (key : List (RuntimeFieldHandle × RuntimeValue φ)) (values : List (SqlValue φ)) :
    String × List (SqlValue φ) :=
  let (terms, values) := bindEach (fieldAssignment backend) key values
  (join " AND " terms, values)

def columnList (fields : List RuntimeFieldHandle) : String :=
  join ", " (fields.map fun field => backend.quoteIdentifier field.physicalColumn)

def checkBinds (limits : RuntimeQueryLimits) (values : List (SqlValue φ)) :
    Except StatementFailure Unit :=
  require (values.length ≤ limits.maxBindParameters) .limitExceeded

def guarded (condition : String) (predicate : RuntimePredicate φ) (values : List (SqlValue φ)) :
    Except StatementFailure (String × List (SqlValue φ)) := do
  let (text, values) ← okOr .stopped (predicate.render backend values)
  return ("(" ++ condition ++ ") AND (" ++ text ++ ")", values)

def guardedBy (condition : String) :
    List (RuntimePredicate φ) → List (SqlValue φ) →
      Except StatementFailure (String × List (SqlValue φ))
  | [], values => .ok (condition, values)
  | predicate :: rest, values => do
    let (condition, values) ← guarded backend condition predicate values
    guardedBy condition rest values

def lockClause (lock : Bool) (clause : String) : String :=
  if lock ∧ backend = .postgres then clause else ""

end Parts

/-! ### One row -/

def runtimeSelect (backend : DatabaseBackend) (table : String) (projection : List RuntimeFieldHandle)
    (key : List (RuntimeFieldHandle × RuntimeValue φ)) (predicate : Option (RuntimePredicate φ))
    (lock : Bool) (limits : RuntimeQueryLimits) : Except StatementFailure (Rendered φ) := do
  let (condition, values) := keySql backend key []
  let (condition, values) ← guardedBy backend condition predicate.toList values
  checkBinds limits values
  return ⟨"SELECT " ++ columnList backend projection ++ " FROM " ++ backend.quoteIdentifier table ++
    " WHERE " ++ condition ++ " LIMIT 2" ++ lockClause backend lock " FOR UPDATE", values⟩

inductive RowAction where
  | update | delete

def runtimeDatetimeNowSql (backend : DatabaseBackend) : String :=
  if backend = .sqlite then "strftime('%Y-%m-%dT%H:%M:%f000Z', 'now')" else "CURRENT_TIMESTAMP"

/-- The update or delete of one row; `refreshed` are the columns of timestamps that every
update sets. -/
def runtimeWriteSql (backend : DatabaseBackend) (action : RowAction) (table : String)
    (fields : List (RuntimeFieldHandle × RuntimeValue φ)) (refreshed : List String)
    (key : List (RuntimeFieldHandle × RuntimeValue φ)) (grant expected : Option (RuntimePredicate φ))
    (returning : List RuntimeFieldHandle) (limits : RuntimeQueryLimits) :
    Except StatementFailure (Rendered φ) := do
  let (assigned, values) := bindEach (fieldAssignment backend) fields []
  let stamps := refreshed.map fun column =>
    backend.quoteIdentifier column ++ " = " ++ runtimeDatetimeNowSql backend
  let (condition, values) := keySql backend key values
  let (condition, values) ← guardedBy backend condition (grant.toList ++ expected.toList) values
  checkBinds limits values
  let head := match action with
    | .update => "UPDATE " ++ backend.quoteIdentifier table ++ " SET " ++
        join ", " (assigned ++ stamps)
    | .delete => "DELETE FROM " ++ backend.quoteIdentifier table
  return ⟨head ++ " WHERE " ++ condition ++ " RETURNING " ++ columnList backend returning, values⟩

/-! ### Links -/

def keyTuple (backend : DatabaseBackend) (fields : List RuntimeFieldHandle)
    (key : List (RuntimeValue φ)) (values : List (SqlValue φ)) : String × List (SqlValue φ) :=
  let (binds, values) := bindEach (fun entry => bindValue backend entry.1 entry.2)
    (fields.zip key) values
  ("(" ++ join ", " binds ++ ")", values)

def admitLinkTargets (backend : DatabaseBackend) (table : String) (fields : List RuntimeFieldHandle)
    (batch : List (List (RuntimeValue φ))) (visible : Option (RuntimePredicate φ))
    (limits : RuntimeQueryLimits) : Except StatementFailure (Rendered φ) := do
  let (tuples, values) := bindEach (keyTuple backend fields) batch []
  let condition := "(" ++ columnList backend fields ++ ") IN (" ++ join ", " tuples ++ ")"
  let (condition, values) ← match visible with
    | none => pure (condition, values)
    | some visible => do
      let (text, values) ← okOr .stopped (visible.render backend values)
      pure (condition ++ " AND (" ++ text ++ ")", values)
  checkBinds limits values
  return ⟨"SELECT 1 AS " ++ backend.quoteIdentifier "graphql_orm_admitted" ++ " FROM " ++
    backend.quoteIdentifier table ++ " WHERE " ++ condition ++
    lockClause backend true " FOR KEY SHARE", values⟩

/-- One side of a link table, with the columns for the keys of both collections. -/
structure LinkSide where
  joinTable : String
  own : List (RuntimeFieldHandle × String)
  other : List (RuntimeFieldHandle × String)
  otherTable : String

def linkAlias : String := "graphql_orm_link"
def targetAlias : String := "graphql_orm_target"

section Links

variable (backend : DatabaseBackend) (side : LinkSide)

def linkColumn (column : String) : String :=
  backend.quoteIdentifier linkAlias ++ "." ++ backend.quoteIdentifier column

/-- The link leads to a target that the predicate admits. Unqualified columns of the
predicate belong to the target row. -/
def visibilityCondition (visible : RuntimePredicate φ) (values : List (SqlValue φ)) :
    Except StatementFailure (String × List (SqlValue φ)) := do
  let correlation := join " AND " (side.other.map fun (field, column) =>
    backend.quoteIdentifier targetAlias ++ "." ++ backend.quoteIdentifier field.physicalColumn ++
      " = " ++ linkColumn backend column)
  let (text, values) ← okOr .stopped (visible.render backend values)
  return ("EXISTS (SELECT 1 FROM " ++ backend.quoteIdentifier side.otherTable ++ " AS " ++
    backend.quoteIdentifier targetAlias ++ " WHERE " ++ correlation ++ " AND (" ++ text ++ "))",
    values)

def linkedKeys (key : List (RuntimeValue φ)) (visible : Option (RuntimePredicate φ)) (limit : Nat)
    (limits : RuntimeQueryLimits) : Except StatementFailure (Rendered φ) := do
  let (conditions, values) := bindEach
    (fun entry => assignment backend (linkColumn backend entry.1.2) entry.1.1 entry.2)
    (side.own.zip key) []
  let (conditions, values) ← match visible with
    | none => pure (conditions, values)
    | some visible => do
      let (condition, values) ← visibilityCondition backend side visible values
      pure (conditions ++ [condition], values)
  checkBinds limits values
  let selected := join ", " (side.other.map fun (field, column) =>
    linkColumn backend column ++ " AS " ++ backend.quoteIdentifier field.physicalColumn)
  let order := join ", " (side.other.map fun (_, column) => linkColumn backend column)
  return ⟨"SELECT " ++ selected ++ " FROM " ++ backend.quoteIdentifier side.joinTable ++ " AS " ++
    backend.quoteIdentifier linkAlias ++ " WHERE " ++ join " AND " conditions ++ " ORDER BY " ++
    order ++ " LIMIT " ++ (min (limit + 1) (2 ^ 64 - 1)).repr ++
    lockClause backend true " FOR UPDATE", values⟩

end Links

end GraphqlOrm.Runtime
