import GraphqlOrm.Schema.Compare
import GraphqlOrm.Schema.Dialect

/-!
# CREATE TABLE

`render_create_table_statement_for_name`: the column definitions, then a
composite primary key, the composite UNIQUE lists, the foreign keys and the
check constraints, in that order.
-/
namespace GraphqlOrm.Migration

open Schema Text

/-! ### Constraint names -/

/-- `fnv1a64`. -/
def fnv1a64 (bytes : List UInt8) : UInt64 :=
  bytes.foldl (fun hash byte => (hash ^^^ byte.toUInt64) * 0x100000001b3) 0xcbf29ce484222325

def hex64 (value : UInt64) : String :=
  String.ofList ((List.range 16).map fun i => hexDigit (value.toNat / 16 ^ (15 - i) % 16))

def takeBytes : Nat → List Char → List Char
  | _, [] => []
  | budget, c :: rest =>
    if c.utf8Size ≤ budget then c :: takeBytes (budget - c.utf8Size) rest else []

def boundedName (full : String) : String :=
  if full.utf8ByteSize ≤ 63 then full
  else String.ofList (takeBytes 46 full.toList) ++ "_" ++
    hex64 (fnv1a64 (full.toList.flatMap String.utf8EncodeChar))

def foreignKeyConstraintName (tableName : String) (foreignKey : ForeignKeyModel) : String :=
  foreignKey.constraintName.getD (boundedName ("fk_" ++ tableName ++ "_" ++
    join "_" foreignKey.sourceColumns ++ "_" ++ foreignKey.targetTable ++ "_" ++
    join "_" foreignKey.targetColumns))

/-! ### The parts of the statement -/

/-- SQLite accepts keywords, numbers and literals bare; any other default is
parenthesized. -/
def renderDefaultClause (backend : DatabaseBackend) (expression : String) : String :=
  if backend ≠ .sqlite then expression
  else
    let trimmed := canonicalizeColumnDefaultExpression expression
    let chars := trimmed.toList
    let isKeywordDefault := ["CURRENT_TIMESTAMP", "CURRENT_DATE", "CURRENT_TIME", "NULL", "TRUE",
      "FALSE"].contains (upper trimmed)
    let isNumericLiteral := (chars.head?.any fun c => c.isDigit || c == '-' || c == '+') &&
      chars.all fun c => c.isDigit || c == '-' || c == '+' || c == '.'
    let isStringLiteral := chars.head? == some '\'' ||
      (chars.head?.any (fun c => c == 'x' || c == 'X') && chars.tail.head? == some '\'')
    if isKeywordDefault || isNumericLiteral || isStringLiteral then trimmed
    else "(" ++ trimmed ++ ")"

def renderColumnDefinition (backend : DatabaseBackend) (column : ColumnModel)
    (inlinePrimaryKey : Bool) : String :=
  join " " ([backend.renderIdentifier column.name ++ " " ++ column.sqlType] ++
    (if column.nullable then [] else ["NOT NULL"]) ++
    (if inlinePrimaryKey && column.isPrimaryKey then ["PRIMARY KEY"] else []) ++
    (if column.isUnique && !column.isPrimaryKey then ["UNIQUE"] else []) ++
    column.default.toList.map fun expression =>
      "DEFAULT " ++ renderDefaultClause backend expression)

def hasCompositePrimaryKey (table : TableModel) : Bool := 1 < table.primaryKeyColumns.length

def renderForeignKeyPart (backend : DatabaseBackend) (tableName : String)
    (foreignKey : ForeignKeyModel) : String :=
  "CONSTRAINT " ++ backend.quoteIdentifier (foreignKeyConstraintName tableName foreignKey) ++
    " FOREIGN KEY (" ++ backend.renderIdentifierList foreignKey.sourceColumns ++ ") REFERENCES " ++
    backend.renderIdentifierPath foreignKey.targetTable ++ "(" ++
    backend.renderIdentifierList foreignKey.targetColumns ++ ") ON DELETE " ++
    foreignKey.onDelete.asSql

def renderCheckPart (backend : DatabaseBackend) (constraint : CheckConstraintModel) : String :=
  "CONSTRAINT " ++ backend.quoteIdentifier constraint.name ++ " CHECK (" ++ constraint.expression ++
    ")"

def structuralParts (backend : DatabaseBackend) (table : TableModel) (tableName : String) :
    List String :=
  (table.columns.map fun column =>
    renderColumnDefinition backend column (!hasCompositePrimaryKey table)) ++
  (if hasCompositePrimaryKey table then
    ["PRIMARY KEY (" ++ backend.renderIdentifierList table.primaryKeyColumns ++ ")"]
  else []) ++
  (table.compositeUniqueIndexes.map fun columns =>
    "UNIQUE (" ++ backend.renderIdentifierList columns ++ ")") ++
  table.foreignKeys.map (renderForeignKeyPart backend tableName)

def renderCreateTableStatementForName (backend : DatabaseBackend) (table : TableModel)
    (tableName : String) : String :=
  "CREATE TABLE " ++ backend.renderIdentifierPath tableName ++ " (" ++
    join ", " (structuralParts backend table tableName ++
      table.checkConstraints.map (renderCheckPart backend)) ++ ")"

def renderCreateTableStatement (backend : DatabaseBackend) (table : TableModel) : String :=
  renderCreateTableStatementForName backend table table.tableName

/-! ### The keys a statement declares -/

/-- The primary key of the rendered table, in order: one clause when it is
composite, and otherwise the columns that are marked inline. -/
def declaredPrimaryKey (table : TableModel) : List String :=
  if hasCompositePrimaryKey table then table.primaryKeyColumns
  else (table.columns.filter (·.isPrimaryKey)).map (·.name)

def SameKeys (current target : TableModel) : Prop :=
  declaredPrimaryKey current = declaredPrimaryKey target ∧
    ∀ columns, columns ∈ current.compositeUniqueIndexes ↔ columns ∈ target.compositeUniqueIndexes

end GraphqlOrm.Migration
