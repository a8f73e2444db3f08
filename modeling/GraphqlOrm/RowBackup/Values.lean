import GraphqlOrm.Backup.Descriptors
import GraphqlOrm.Keys.CompositeKey

/-!
# Backed up rows

A row of a backup holds one value for each of its columns. A value becomes the parameter of a
statement according to the descriptor of its column.
-/
namespace GraphqlOrm.RowBackup

open Backup (BackupValueKind ColumnBackupDescriptor ColumnBackupPolicy EntityBackupDescriptor
  EntityDependencyDescriptor)
open Bytes Decimals Outcome
open Keys (SqlValue)

deriving instance DecidableEq for DecimalValue
deriving instance DecidableEq for SqlValue

/-- What the standard library prints for a floating-point number, given by its bits. -/
structure FloatText where
  display : BitVec 64 → String
  debug : BitVec 64 → String

inductive BackupValue {δ : Type} (rust : DecimalLibrary δ) where
  | null
  | bool (value : Bool)
  | integer (value : Int)
  | float (bits : BitVec 64)
  | decimal (value : DecimalValue rust)
  | string (value : String)
  | uuid (value : BitVec 128)
  | json (value : Json.Value String)
  | bytes (value : List UInt8)
deriving DecidableEq

structure BackupRow {δ : Type} (rust : DecimalLibrary δ) where
  tableName : String
  primaryKey : String
  rowHash : String
  values : OrderedMap String (BackupValue rust)

inductive ImportError where
  | missingSelfReference (primaryKey table column : String)
  | missingRow (primaryKey table parentKey column : String)
  | missingColumn (primaryKey table column : String)
  | undescribedKey (table : String)
  | undefinedDecimal (column : String)
  | otherDecimal
  /-- A counter fell below zero, or the loop did not end. -/
  | arithmetic
  /-- The database reads no `UPDATE` that sets nothing. -/
  | emptyUpdate

def ImportError.message : ImportError → String
  | .missingSelfReference primaryKey table column =>
    "backup row " ++ primaryKey ++ " for table " ++ table ++
      " is missing self-reference column " ++ column
  | .missingRow primaryKey table parentKey column =>
    "backup row " ++ primaryKey ++ " for table " ++ table ++ " references missing row " ++
      parentKey ++ " through " ++ column
  | .missingColumn primaryKey table column =>
    "backup row " ++ primaryKey ++ " for table " ++ table ++ " is missing import column " ++ column
  | .undescribedKey table =>
    "backup descriptor for " ++ table ++ " does not describe its primary key column"
  | .undefinedDecimal column =>
    "decimal backup column " ++ column ++ " is missing its storage definition"
  | .otherDecimal => "backup decimal definition does not match destination column"
  | .arithmetic => "attempt to subtract with overflow"
  | .emptyUpdate => "syntax error"

variable {δ : Type} {rust : DecimalLibrary δ}

def BackupValue.primaryKeyString (floats : FloatText) : BackupValue rust → String
  | .null => "null"
  | .bool value => if value then "true" else "false"
  | .integer value => value.repr
  | .float bits => floats.display bits
  | .decimal value => rust.toString value.value
  | .string value => value
  | .uuid value => UuidText.hyphenated value
  | .json value => value.write
  | .bytes value => hexEncode value

/-! ### Parameters -/

/-- The definition with the evidence that a constructor made it, as for every descriptor. -/
def admitted (definition : Runtime.DecimalDef) : Option DecimalDef :=
  if made : definition.mssqlMoney = false ∧ 0 < definition.precision ∧
      definition.precision ≤ maximumPortablePrecision ∧ definition.scale ≤ definition.precision ∨
      definition.mssqlMoney = true ∧ definition.precision = 19 ∧ definition.scale = 4 then
    some { toDecimalDef := definition, admitted := made }
  else none

def requireDecimalDefinition (descriptor : ColumnBackupDescriptor) :
    Except ImportError DecimalDef :=
  okOr (.undefinedDecimal descriptor.columnName) (descriptor.decimal.bind admitted)

/-- A null is typed by the column, every other value by itself. -/
def backupValueToSqlValue (value : BackupValue rust) (descriptor : ColumnBackupDescriptor) :
    Except ImportError (SqlValue rust) :=
  match value with
  | .null =>
    match descriptor.logicalType with
    | .null | .string | .dateTime => .ok .stringNull
    | .bool => .ok .boolNull
    | .integer => .ok .intNull
    | .float => .ok .floatNull
    | .decimal => (requireDecimalDefinition descriptor).map .decimalNull
    | .uuid => .ok .uuidNull
    | .json => .ok .jsonNull
    | .bytes => .ok .bytesNull
  | .bool value => .ok (.bool value)
  | .integer value => .ok (.int value)
  | .float bits => .ok (.float bits)
  | .decimal value => do
    let definition ← requireDecimalDefinition descriptor
    require (decide (value.definition = definition)) .otherDecimal
    return .decimal value
  | .string value => .ok (.string value)
  | .uuid value => .ok (.uuid value)
  | .json value => .ok (.json value)
  | .bytes value => .ok (.bytes value)

def SqlValue.isNull (value : SqlValue rust) : Bool := value.toComponent.isNull

/-- The parameter of a value that is not null. -/
def BackupValue.toSqlValue : BackupValue rust → SqlValue rust
  | .null => .null
  | .bool value => .bool value
  | .integer value => .int value
  | .float bits => .float bits
  | .decimal value => .decimal value
  | .string value => .string value
  | .uuid value => .uuid value
  | .json value => .json value
  | .bytes value => .bytes value

theorem BackupValue.toSqlValue_injective :
    Function.Injective (toSqlValue : BackupValue rust → SqlValue rust) := by
  intro x y same
  cases x <;> cases y <;> simp_all [toSqlValue]

theorem backupValueToSqlValue_null {descriptor : ColumnBackupDescriptor} {value : SqlValue rust}
    (converted : backupValueToSqlValue .null descriptor = .ok value) :
    SqlValue.isNull value = true := by
  unfold backupValueToSqlValue at converted
  cases kind : descriptor.logicalType with
  | decimal =>
    simp only [kind] at converted
    cases definition : requireDecimalDefinition descriptor with
    | error e => simp [definition, Except.map] at converted
    | ok d =>
      simp only [definition, Except.map, Except.ok.injEq] at converted
      subst converted
      rfl
  | _ =>
    simp only [kind, Except.ok.injEq] at converted
    subst converted
    rfl

/-- A value that is not null does not depend on the column. -/
theorem backupValueToSqlValue_eq {x : BackupValue rust} {descriptor : ColumnBackupDescriptor}
    {value : SqlValue rust} (converted : backupValueToSqlValue x descriptor = .ok value)
    (nonnull : x ≠ .null) : value = x.toSqlValue := by
  cases x with
  | null => exact absurd rfl nonnull
  | decimal d =>
    obtain ⟨definition, _, rest⟩ := bind_eq_ok.mp converted
    obtain ⟨_, _, made⟩ := bind_eq_ok.mp rest
    cases made
    rfl
  | _ =>
    cases converted
    rfl

end GraphqlOrm.RowBackup
