import GraphqlOrm.Foundation.OrderedMap
import GraphqlOrm.Schema.Compare

/-!
# The schema diff

`diff_schema_views_with`: extensions and new tables first, then every current
table in reverse foreign-key order. A table that is gone is dropped; a surviving
table is compared component by component, each with its own equivalence.
-/
namespace GraphqlOrm.Migration

open Schema

/-- `OwnedMigrationStep`. -/
inductive MigrationStep where
  | enableExtension (name : String)
  | createTable (table : TableModel)
  | dropTable (tableName : String)
  | addColumn (tableName : String) (column : ColumnModel)
  | dropColumn (tableName columnName : String)
  | alterColumn (tableName : String) (before after : ColumnModel)
  | createIndex (tableName : String) (index : IndexModel)
  | dropIndex (tableName indexName : String)
  | createSearchIndex (tableName : String) (index : SearchIndexModel)
  | dropSearchIndex (tableName indexName : String)
  | alterSearchIndex (tableName : String) (before after : SearchIndexModel)
  | addForeignKey (tableName : String) (foreignKey : ForeignKeyModel)
  | dropForeignKey (tableName : String) (foreignKey : ForeignKeyModel)
  | setAppendOnly (tableName : String) (enabled retentionPurge : Bool)
  | setCheckConstraints (tableName : String) (before after : List CheckConstraintModel)
deriving DecidableEq

/-- `migration_step_table_name`. -/
def MigrationStep.tableName? : MigrationStep → Option String
  | enableExtension _ => none
  | createTable table => some table.tableName
  | dropTable name | addColumn name _ | dropColumn name _ | alterColumn name _ _
  | createIndex name _ | dropIndex name _ | createSearchIndex name _ | dropSearchIndex name _
  | alterSearchIndex name _ _ | addForeignKey name _ | dropForeignKey name _
  | setAppendOnly name _ _ | setCheckConstraints name _ _ => some name

/-! ### Tables in foreign-key order -/

/-- The accumulators of the depth-first walk. -/
structure Walk where
  visiting : List String := []
  visited : List String := []
  ordered : List TableModel := []

/-- Visit the referenced tables, then the table itself. A name that is being
visited is skipped, so each nested call has one name more under way and a fuel
above the number of tables never runs out. -/
def visit (tables : OrderedMap String TableModel) : Nat → Walk → String → Walk
  | 0, walk, _ => walk
  | fuel + 1, walk, tableName =>
    if walk.visited.contains tableName || walk.visiting.contains tableName then walk
    else
      match tables.get? tableName with
      | none => walk
      | some table =>
        let inside := table.foreignKeys.foldl
          (fun walk foreignKey =>
            if tables.contains foreignKey.targetTable then
              visit tables fuel walk foreignKey.targetTable
            else walk)
          { walk with visiting := tableName :: walk.visiting }
        { visiting := inside.visiting.erase tableName
          visited := tableName :: inside.visited
          ordered := inside.ordered ++ [table] }

def orderTablesByForeignKeys (tables : OrderedMap String TableModel) : List TableModel :=
  (tables.keys.foldl (visit tables (tables.keys.length + 1)) {}).ordered

/-! ### The steps of one surviving table -/

section Table

variable (tableName : String)

def addedColumn (currentColumns : OrderedMap String ColumnModel) :
    String × ColumnModel → List MigrationStep
  | (columnName, column) =>
    if currentColumns.contains columnName then [] else [.addColumn tableName column]

/-- A current column is dropped when the target lacks it, altered when it changed. -/
def editedColumn (backend : DatabaseBackend) (equivalence : DefaultEquivalence)
    (targetColumns : OrderedMap String ColumnModel) : String × ColumnModel → List MigrationStep
  | (columnName, column) =>
    match targetColumns.get? columnName with
    | none => [.dropColumn tableName columnName]
    | some targetColumn =>
      if columnChangedWith backend column targetColumn equivalence then
        [.alterColumn tableName column targetColumn]
      else []

def columnSteps (backend : DatabaseBackend) (equivalence : DefaultEquivalence)
    (current target : List ColumnModel) : List MigrationStep :=
  let currentColumns := OrderedMap.collectBy ColumnModel.name current
  let targetColumns := OrderedMap.collectBy ColumnModel.name target
  targetColumns.entries.flatMap (addedColumn tableName currentColumns) ++
    currentColumns.entries.flatMap (editedColumn tableName backend equivalence targetColumns)

def wantedIndex (currentIndexes : OrderedMap String IndexModel) :
    String × IndexModel → List MigrationStep
  | (indexName, index) =>
    match currentIndexes.get? indexName with
    | some currentIndex =>
      if currentIndex.eq index then []
      else [.dropIndex tableName indexName, .createIndex tableName index]
    | none => [.createIndex tableName index]

def removedIndex (targetIndexes : OrderedMap String IndexModel) (indexName : String) :
    List MigrationStep :=
  if targetIndexes.contains indexName then [] else [.dropIndex tableName indexName]

def indexSteps (current target : List IndexModel) : List MigrationStep :=
  let currentIndexes := OrderedMap.collectBy IndexModel.name current
  let targetIndexes := OrderedMap.collectBy IndexModel.name target
  targetIndexes.entries.flatMap (wantedIndex tableName currentIndexes) ++
    currentIndexes.keys.flatMap (removedIndex tableName targetIndexes)

def wantedSearchIndex (currentIndexes : OrderedMap String SearchIndexModel) :
    String × SearchIndexModel → List MigrationStep
  | (indexName, index) =>
    match currentIndexes.get? indexName with
    | some currentIndex =>
      if currentIndex = index then [] else [.alterSearchIndex tableName currentIndex index]
    | none => [.createSearchIndex tableName index]

def removedSearchIndex (targetIndexes : OrderedMap String SearchIndexModel) (indexName : String) :
    List MigrationStep :=
  if targetIndexes.contains indexName then [] else [.dropSearchIndex tableName indexName]

def searchIndexSteps (current target : List SearchIndexModel) : List MigrationStep :=
  let currentIndexes := OrderedMap.collectBy SearchIndexModel.name current
  let targetIndexes := OrderedMap.collectBy SearchIndexModel.name target
  targetIndexes.entries.flatMap (wantedSearchIndex tableName currentIndexes) ++
    currentIndexes.keys.flatMap (removedSearchIndex tableName targetIndexes)

def nameLe : Option String → Option String → Prop
  | none, _ => True
  | some _, none => False
  | some a, some b => a ≤ b

instance : DecidableRel nameLe
  | none, _ => isTrue trivial
  | some _, none => isFalse not_false
  | some a, some b => inferInstanceAs (Decidable (a ≤ b))

def sortedGroup (groups : OrderedMap ForeignKeyIdentity (List ForeignKeyModel))
    (identity : ForeignKeyIdentity) : List ForeignKeyModel :=
  ((groups.get? identity).getD []).insertionSort fun a b => nameLe a.constraintName b.constraintName

def surplus (groups others : OrderedMap ForeignKeyIdentity (List ForeignKeyModel))
    (identity : ForeignKeyIdentity) : List ForeignKeyModel :=
  (sortedGroup groups identity).drop
    (min (sortedGroup groups identity).length (sortedGroup others identity).length)

/-- All drops of a table precede its adds: a replaced foreign key keeps its
constraint name. -/
def foreignKeySteps (current target : List ForeignKeyModel) : List MigrationStep :=
  let currentGroups := OrderedMap.groupBy ForeignKeyModel.identity current
  let targetGroups := OrderedMap.groupBy ForeignKeyModel.identity target
  let identities := (OrderedMap.collectBy id (currentGroups.keys ++ targetGroups.keys)).keys
  (identities.flatMap fun identity =>
    (surplus currentGroups targetGroups identity).map (.dropForeignKey tableName)) ++
  identities.flatMap fun identity =>
    (surplus targetGroups currentGroups identity).map (.addForeignKey tableName)

def appendOnlySteps (current target : TableModel) : List MigrationStep :=
  if current.appendOnly != target.appendOnly || current.retentionPurge != target.retentionPurge then
    [.setAppendOnly tableName target.appendOnly target.retentionPurge]
  else []

def checkConstraintSteps (current target : List CheckConstraintModel) : List MigrationStep :=
  if checkConstraintsEquivalent current target then []
  else [.setCheckConstraints tableName current target]

end Table

def alterTableSteps (backend : DatabaseBackend) (equivalence : DefaultEquivalence)
    (current target : TableModel) : List MigrationStep :=
  let tableName := current.tableName
  columnSteps tableName backend equivalence current.columns target.columns ++
  indexSteps tableName current.indexes target.indexes ++
  searchIndexSteps tableName current.searchIndexes target.searchIndexes ++
  foreignKeySteps tableName current.foreignKeys target.foreignKeys ++
  appendOnlySteps tableName current target ++
  checkConstraintSteps tableName current.checkConstraints target.checkConstraints

def dropTableSteps (table : TableModel) : List MigrationStep :=
  table.searchIndexes.map (fun index => .dropSearchIndex table.tableName index.name) ++
    [.dropTable table.tableName]

/-! ### The diff -/

def tableMap (schema : SchemaModel) : OrderedMap String TableModel :=
  .collectBy TableModel.tableName schema.tables

def extensionSteps (current target : List String) : List MigrationStep :=
  let currentExtensions := current.map Text.lower
  target.flatMap fun extension =>
    if currentExtensions.contains (Text.lower extension) then [] else [.enableExtension extension]

def createTableSteps (current target : SchemaModel) : List MigrationStep :=
  (orderTablesByForeignKeys (tableMap target)).flatMap fun table =>
    if (tableMap current).contains table.tableName then [] else [.createTable table]

def currentTableSteps (backend : DatabaseBackend) (equivalence : DefaultEquivalence)
    (target : SchemaModel) (table : TableModel) : List MigrationStep :=
  match (tableMap target).get? table.tableName with
  | none => dropTableSteps table
  | some targetTable => alterTableSteps backend equivalence table targetTable

def diffSchemaViewsWith (backend : DatabaseBackend) (current target : SchemaModel)
    (equivalence : DefaultEquivalence) : List MigrationStep :=
  extensionSteps current.extensions target.extensions ++
  createTableSteps current target ++
  (orderTablesByForeignKeys (tableMap current)).reverse.flatMap
    (currentTableSteps backend equivalence target)

def diffSchemaViews (backend : DatabaseBackend) (current target : SchemaModel) :
    List MigrationStep :=
  diffSchemaViewsWith backend current target .pinned8e1

end GraphqlOrm.Migration
