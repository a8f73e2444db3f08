import GraphqlOrm.Foundation.OrderedMap
import GraphqlOrm.Foundation.Outcome
import GraphqlOrm.Foundation.Text
import GraphqlOrm.Schema.Model

/-!
# The physical contract

`SchemaRef::validate_physical_contract`: index metadata names each existing
column once, and every foreign key pairs existing, type-compatible columns and
references an exact unique key of a managed table. Failures carry the protocol
message.
-/
namespace GraphqlOrm.Schema

open Outcome Text

def validateIndexColumns (table : TableModel) (index : IndexModel) :
    List String → List String → Except String Unit
  | _, [] => .ok ()
  | members, column :: rest => do
    require (!members.contains column && table.columns.any (·.name == column))
      ("index " ++ table.tableName ++ "." ++ index.name ++
        " contains a duplicate or missing column " ++ column)
    validateIndexColumns table index (column :: members) rest

def validateIndex (table : TableModel) (index : IndexModel) : Except String Unit := do
  require (!((trim index.name).isEmpty || index.columns.isEmpty || !index.directionsFit))
    ("invalid index column metadata for " ++ table.tableName ++ "." ++ index.name)
  validateIndexColumns table index [] index.columns

def validatePairs (table target : TableModel) (fk : ForeignKeyModel) :
    List String → List String → List ForeignKeyColumnPairModel → Except String Unit
  | _, _, [] => .ok ()
  | sources, targets, pair :: rest => do
    require (!sources.contains pair.sourceColumn && !targets.contains pair.targetColumn)
      ("foreign key on " ++ table.tableName ++ " contains duplicate column members")
    let source ← okOr ("foreign key on " ++ table.tableName ++ " references missing source column " ++
      pair.sourceColumn) (table.columns.find? (·.name == pair.sourceColumn))
    let referenced ← okOr ("foreign key on " ++ table.tableName ++
      " references missing target column " ++ target.tableName ++ "." ++ pair.targetColumn)
      (target.columns.find? (·.name == pair.targetColumn))
    require (eqIgnoreCase source.sqlType referenced.sqlType)
      ("foreign key type mismatch between " ++ table.tableName ++ "." ++ pair.sourceColumn ++ " (" ++
        source.sqlType ++ ") and " ++ target.tableName ++ "." ++ pair.targetColumn ++ " (" ++
        referenced.sqlType ++ ")")
    require (!(fk.onDelete = .setNull && !source.nullable))
      ("SET NULL foreign key source " ++ table.tableName ++ "." ++ pair.sourceColumn ++
        " is not nullable")
    validatePairs table target fk (pair.sourceColumn :: sources) (pair.targetColumn :: targets) rest

/-- The referenced columns are an exact key: the primary key, a unique column, a
composite unique list, or a unique index without a predicate. -/
def isUniqueKey (target : TableModel) (columns : List String) : Bool :=
  target.primaryKeyColumns == columns ||
    (columns.length == 1 && target.columns.any fun column =>
      columns.head? == some column.name && (column.isPrimaryKey || column.isUnique)) ||
    target.compositeUniqueIndexes.any (· == columns) ||
    target.indexes.any fun index =>
      index.isUnique && index.predicate.isNone && index.columns == columns

def validateForeignKey (tables : OrderedMap String TableModel) (table : TableModel)
    (identities : List ForeignKeyIdentity) (fk : ForeignKeyModel) : Except String Unit := do
  require (!(fk.constraintName.any (fun name => (trim name).isEmpty) || fk.columnPairs.isEmpty))
    ("foreign key on " ++ table.tableName ++ " has invalid constraint identity or no column pairs")
  require (!identities.contains fk.identity)
    ("table " ++ table.tableName ++ " contains duplicate semantic foreign keys")
  let target ← okOr ("foreign key on " ++ table.tableName ++ " references unmanaged target table " ++
    fk.targetTable) (tables.get? fk.targetTable)
  validatePairs table target fk [] [] fk.columnPairs
  require (isUniqueKey target fk.targetColumns)
    ("foreign key on " ++ table.tableName ++ " does not reference an exact unique key on " ++
      target.tableName)

def validateForeignKeys (tables : OrderedMap String TableModel) (table : TableModel) :
    List ForeignKeyIdentity → List ForeignKeyModel → Except String Unit
  | _, [] => .ok ()
  | identities, fk :: rest => do
    validateForeignKey tables table identities fk
    validateForeignKeys tables table (fk.identity :: identities) rest

def validateAll {α : Type} (check : α → Except String Unit) : List α → Except String Unit
  | [] => .ok ()
  | x :: rest => do
    check x
    validateAll check rest

def validateTable (tables : OrderedMap String TableModel) (table : TableModel) :
    Except String Unit := do
  validateAll (validateIndex table) table.indexes
  validateForeignKeys tables table [] table.foreignKeys

def SchemaModel.validatePhysicalContract (schema : SchemaModel) : Except String Unit :=
  validateAll (validateTable (.collectBy (·.tableName) schema.tables)) schema.tables

/-! ### What an accepted schema satisfies -/

theorem validateAll_eq_ok {α : Type} {check : α → Except String Unit} {xs : List α} :
    validateAll check xs = .ok () ↔ ∀ x ∈ xs, check x = .ok () := by
  induction xs with
  | nil => simp [validateAll]
  | cons x rest ih =>
    simp only [validateAll, bind_eq_ok, ih, List.mem_cons, forall_eq_or_imp]
    constructor
    · rintro ⟨⟨⟩, first, others⟩
      exact ⟨first, others⟩
    · rintro ⟨first, others⟩
      exact ⟨(), first, others⟩

variable {schema : SchemaModel} {table : TableModel}

theorem directionsFit_of_accepted (accepted : schema.validatePhysicalContract = .ok ())
    (mem : table ∈ schema.tables) {index : IndexModel} (declared : index ∈ table.indexes) :
    index.directionsFit = true := by
  have checked := validateAll_eq_ok.mp accepted table mem
  simp only [validateTable, bind_eq_ok] at checked
  obtain ⟨⟨⟩, indexes, _⟩ := checked
  have passed := validateAll_eq_ok.mp indexes index declared
  simp only [validateIndex, bind_eq_ok, require_eq_ok] at passed
  obtain ⟨_, guard, _⟩ := passed
  simp only [Bool.not_or, Bool.not_not, Bool.and_eq_true] at guard
  exact guard.2

/-- Each foreign key passed its checks, and the identities met before it differ. -/
theorem validateForeignKeys_ok {tables : OrderedMap String TableModel}
    {identities : List ForeignKeyIdentity} {fks : List ForeignKeyModel}
    (passed : validateForeignKeys tables table identities fks = .ok ()) :
    (∀ fk ∈ fks, fk.identity ∉ identities ∧ (tables.get? fk.targetTable).isSome = true) ∧
      (fks.map (·.identity)).Nodup := by
  induction fks generalizing identities with
  | nil => simp
  | cons fk rest ih =>
    simp only [validateForeignKeys, bind_eq_ok] at passed
    obtain ⟨⟨⟩, first, others⟩ := passed
    simp only [validateForeignKey, bind_eq_ok, require_eq_ok, okOr_eq_ok] at first
    obtain ⟨_, _, _, fresh, target, found, _⟩ := first
    simp only [Bool.not_eq_true', List.contains_eq_mem, decide_eq_false_iff_not] at fresh
    obtain ⟨each, distinct⟩ := ih others
    constructor
    · intro other mem
      rcases List.mem_cons.mp mem with rfl | mem
      · exact ⟨fresh, by rw [found]; rfl⟩
      · have ⟨absent, managed⟩ := each other mem
        exact ⟨fun repeated => absent (.tail _ repeated), managed⟩
    · rw [List.map_cons, List.nodup_cons]
      refine ⟨fun repeated => ?_, distinct⟩
      obtain ⟨other, mem, same⟩ := List.mem_map.mp repeated
      exact (each other mem).1 (same ▸ .head _)

theorem foreignKeys_of_accepted (accepted : schema.validatePhysicalContract = .ok ())
    (mem : table ∈ schema.tables) :
    (∀ fk ∈ table.foreignKeys, ∃ target ∈ schema.tables, target.tableName = fk.targetTable) ∧
      (table.foreignKeys.map (·.identity)).Nodup := by
  have checked := validateAll_eq_ok.mp accepted table mem
  simp only [validateTable, bind_eq_ok] at checked
  obtain ⟨⟨⟩, _, foreignKeys⟩ := checked
  obtain ⟨each, distinct⟩ := validateForeignKeys_ok foreignKeys
  refine ⟨fun fk declared => ?_, distinct⟩
  exact OrderedMap.contains_collectBy.mp (each fk declared).2

end GraphqlOrm.Schema
