import GraphqlOrm.Migration.GeneratedIndexes
import GraphqlOrm.Runtime.Schema
import GraphqlOrm.Schema.Contract

/-!
# The physical schema of a runtime schema

`ValidatedRuntimeSchema::physical_schema`: a table for each collection and for each join table, with
the declared indexes and those that the requests of fields and relations generate. Column defaults,
search storage and the sizes of serialized definitions come from the backend.
-/
namespace GraphqlOrm.Runtime

open Outcome Text
open Schema (DatabaseBackend DeletePolicy ColumnModel IndexModel ForeignKeyColumnPairModel
  ForeignKeyModel SearchIndexModel TableModel SchemaModel canonicalizeColumnDefaultExpression)
open Migration (addOwnedGeneratedIndex generatedIndexName)

/-! ### Diagnostics and limits -/

inductive RuntimeMigrationDiagnosticCode where
  | unsupportedBackend | unsupportedGeneration | unsupportedDefault | invalidPhysicalContract
  | limitExceeded

structure RuntimeMigrationDiagnostic where
  code : RuntimeMigrationDiagnosticCode
  collection : Option CollectionId := none
  subject : Option String := none

abbrev RuntimeMigrationDiagnostics := List RuntimeMigrationDiagnostic

def rejection (code : RuntimeMigrationDiagnosticCode) : RuntimeMigrationDiagnostics := [{ code }]

structure RuntimeMigrationLimits where
  maxCollections : Nat := 512
  maxFields : Nat := 256
  maxIndexes : Nat := 128
  maxRelations : Nat := 128
  maxKeyMembers : Nat := 32
  maxDefaultBytes : Nat := 65536
  maxTargetBytes : Nat := 8 * 1024 * 1024

/-- What the conversion takes from the database and from the serializers. -/
structure RuntimeMigrationBackend where
  dialect : DatabaseBackend
  runtimeMigrationsSupported : Bool
  runtimeDefault : RuntimeField → Except RuntimeMigrationDiagnostics (Option String)
  runtimeSearchIndex : RuntimeCollection → RuntimeSearch → SearchIndexModel
  definitionBytes : RuntimeCollection → Nat
  targetBytes : SchemaModel → Nat

/-! ### Admission of the definitions -/

section Admission

variable (limits : RuntimeMigrationLimits) (collection : RuntimeCollection)

def collectionTooLarge : Bool :=
  limits.maxFields < collection.fields.length ||
    limits.maxIndexes < collection.indexes.length ||
    limits.maxRelations < collection.relations.length ||
    limits.maxKeyMembers < collection.primaryKey.length ||
    collection.compositeUnique.any (limits.maxKeyMembers < ·.length) ||
    collection.indexes.any (limits.maxKeyMembers < ·.fields.length) ||
    collection.relations.any (limits.maxKeyMembers < ·.keyPairs.length)

def fieldDiagnostics (field : RuntimeField) : RuntimeMigrationDiagnostics :=
  let diagnostic (code : RuntimeMigrationDiagnosticCode) : RuntimeMigrationDiagnostic :=
    { code, collection := some collection.id, subject := some field.id }
  (if field.generated && field.default.isNone && field.valueKind ≠ .uuid then
    [diagnostic .unsupportedGeneration] else []) ++
  match field.default with
  | some (.literal value) =>
    if limits.maxDefaultBytes < value.utf8ByteSize then [diagnostic .limitExceeded] else []
  | _ => []

def collectionDiagnostics : RuntimeMigrationDiagnostics :=
  (if collectionTooLarge limits collection then
    [{ code := .limitExceeded, collection := some collection.id }] else []) ++
  (if "__graphql_orm_".toList.isPrefixOf collection.physicalTable.toList then
    [{ code := .invalidPhysicalContract, collection := some collection.id }] else []) ++
  collection.fields.flatMap (fieldDiagnostics limits collection)

/-- The diagnostics of the definitions. The size of their serialization is counted along the way,
and a definition that exceeds the bound stops the conversion at once. -/
def definitionDiagnostics (backend : RuntimeMigrationBackend) :
    Nat → List RuntimeCollection → Except RuntimeMigrationDiagnostics RuntimeMigrationDiagnostics
  | _, [] => .ok []
  | size, collection :: rest => do
    let size := size + backend.definitionBytes collection
    require (size ≤ limits.maxTargetBytes) (rejection .limitExceeded)
    let later ← definitionDiagnostics backend size rest
    return collectionDiagnostics limits collection ++ later

end Admission

/-! ### Columns and keys -/

def runtimeSqlType : DatabaseBackend → RuntimeValueKind → String
  | backend, .decimal definition =>
    let arguments := "(" ++ definition.precision.repr ++ "," ++ definition.scale.repr ++ ")"
    match backend with
    | .sqlite => "INTEGER_DECIMAL" ++ arguments
    | .postgres => "NUMERIC" ++ arguments
    | _ => "DECIMAL" ++ arguments
  | .postgres, .boolean => "BOOLEAN"
  | .sqlite, .boolean => "INTEGER"
  | .sqlite, .integer => "INTEGER"
  | _, .integer => "BIGINT"
  | .postgres, .float => "DOUBLE PRECISION"
  | _, .float => "REAL"
  | .postgres, .uuid => "UUID"
  | .postgres, .json => "JSONB"
  | .postgres, .bytes => "BYTEA"
  | _, .bytes => "BLOB"
  | .postgres, .dateTime => "TIMESTAMPTZ"
  | _, _ => "TEXT"

/-- The column of a field ID. The IDs of a validated schema are distinct, and they resolve. -/
def RuntimeCollection.columnName (collection : RuntimeCollection) (id : FieldId) : String :=
  (collection.field? id).elim "" (·.physicalColumn)

def RuntimeSchema.tableOf (schema : RuntimeSchema) (id : CollectionId) : String :=
  (schema.collection? id).elim "" (·.physicalTable)

def RuntimeSchema.columnOf (schema : RuntimeSchema) (id : CollectionId) (field : FieldId) : String :=
  (schema.collection? id).elim "" (·.columnName field)

def sourceColumns (collection : RuntimeCollection) (relation : RuntimeRelation) : List String :=
  relation.keyPairs.map (collection.columnName ·.source)

def targetColumns (schema : RuntimeSchema) (relation : RuntimeRelation) : List String :=
  relation.keyPairs.map (schema.columnOf relation.target ·.target)

def RuntimeOrderDirection.keyword : RuntimeOrderDirection → String
  | asc => "ASC"
  | desc => "DESC"

/-! ### Tables of collections -/

section Collection

variable (backend : RuntimeMigrationBackend) (schema : RuntimeSchema)
  (collection : RuntimeCollection)

def physicalColumn (field : RuntimeField) : Except RuntimeMigrationDiagnostics ColumnModel := do
  let default ← backend.runtimeDefault field
  return {
    name := field.physicalColumn
    sqlType := runtimeSqlType backend.dialect field.valueKind
    nullable := field.nullable
    isPrimaryKey := collection.primaryKey.contains field.id
    isUnique := field.unique
    default := default.map canonicalizeColumnDefaultExpression }

def physicalIndex (index : RuntimeIndex) : IndexModel :=
  { name := index.name
    columns := index.fields.map collection.columnName
    isUnique := index.unique }

def physicalForeignKey (relation : RuntimeRelation) : ForeignKeyModel :=
  { columnPairs := relation.keyPairs.map fun pair =>
      { sourceColumn := collection.columnName pair.source
        targetColumn := schema.columnOf relation.target pair.target }
    targetTable := schema.tableOf relation.target
    isMultiple := relation.cardinality = .many
    onDelete := relation.onDelete.getD .restrict }

def declaredTable (columns : List ColumnModel) : TableModel :=
  let keys := collection.primaryKey.map collection.columnName
  { entityName := collection.apiTypeName
    tableName := collection.physicalTable
    primaryKey := keys.headD ""
    primaryKeys := keys
    defaultSort := join ", " (collection.defaultOrder.map fun term =>
      collection.columnName term.field ++ " " ++ term.direction.keyword)
    columns
    indexes := collection.indexes.map (physicalIndex collection)
    compositeUniqueIndexes := collection.compositeUnique.map (·.map collection.columnName)
    foreignKeys := (collection.relations.filter (·.enforceForeignKey)).map
      (physicalForeignKey schema collection)
    searchIndexes := collection.search.toList.map (backend.runtimeSearchIndex collection)
    appendOnly := collection.appendOnly
    retentionPurge := collection.retentionPurge }

/-- The lists of columns that a collection asks an index for: each filterable column, then the key
of each relation with a foreign key. -/
def ownRequests : List (List String) :=
  (collection.fields.filter (·.filterable)).map (fun field => [field.physicalColumn]) ++
    (collection.relations.filter (·.enforceForeignKey)).map (sourceColumns collection)

def collectionTable : Except RuntimeMigrationDiagnostics TableModel := do
  let columns ← collection.fields.mapM (physicalColumn backend collection)
  return (ownRequests collection).foldl addOwnedGeneratedIndex
    (declaredTable backend schema collection columns)

/-- What a relation asks for besides: the key on the side that holds many rows. -/
def relationRequest (relation : RuntimeRelation) : String × List String :=
  match relation.cardinality with
  | .many => (schema.tableOf relation.target, targetColumns schema relation)
  | .one => (collection.physicalTable, sourceColumns collection relation)

end Collection

def relationRequests (schema : RuntimeSchema) : List (String × List String) :=
  schema.collections.flatMap fun collection =>
    collection.relations.map (relationRequest schema collection)

def requestIndex : List TableModel → String × List String → List TableModel
  | [], _ => []
  | table :: rest, request =>
    if table.tableName = request.1 then addOwnedGeneratedIndex table request.2 :: rest
    else table :: requestIndex rest request

/-! ### Join tables -/

/-- A relation with a join table, and the collection that declares it. -/
structure JoinDeclaration where
  collection : RuntimeCollection
  relation : RuntimeRelation
  table : RuntimeJoinTable

def joinDeclarations (schema : RuntimeSchema) : List JoinDeclaration :=
  schema.collections.flatMap fun collection => collection.relations.filterMap fun relation =>
    relation.join.map (JoinDeclaration.mk collection relation)

/-- The first declaration of each join table; inverse declarations share it. -/
def firstDeclarations : List String → List JoinDeclaration → List JoinDeclaration
  | _, [] => []
  | seen, declaration :: rest =>
    let name := lower declaration.table.physicalTable
    if seen.contains name then firstDeclarations seen rest
    else declaration :: firstDeclarations (name :: seen) rest

/-- The column of the join table, the key column it refers to and the kind of both. -/
def joinSide (columns : List RuntimeJoinColumn) (owner : RuntimeCollection) :
    List (String × String × RuntimeValueKind) :=
  columns.filterMap fun column => (owner.field? column.field).map fun field =>
    (column.column, field.physicalColumn, field.valueKind)

def joinForeignKey (side : List (String × String × RuntimeValueKind)) (owner : RuntimeCollection) :
    ForeignKeyModel :=
  { columnPairs := side.map fun mem =>
      { sourceColumn := mem.1, targetColumn := mem.2.1 }
    targetTable := owner.physicalTable
    isMultiple := true
    onDelete := .cascade }

def JoinDeclaration.physicalTable (backend : RuntimeMigrationBackend) (schema : RuntimeSchema)
    (declaration : JoinDeclaration) : Option TableModel := do
  let target ← schema.collection? declaration.relation.target
  let source := joinSide declaration.table.source declaration.collection
  let targetSide := joinSide declaration.table.target target
  let keys := (source ++ targetSide).map (·.1)
  let targetColumns := targetSide.map (·.1)
  return {
    entityName := declaration.table.physicalTable
    tableName := declaration.table.physicalTable
    primaryKey := keys.headD ""
    primaryKeys := keys
    defaultSort := join ", " (keys.map (· ++ " ASC"))
    columns := (source ++ targetSide).map fun mem =>
      { name := mem.1
        sqlType := runtimeSqlType backend.dialect mem.2.2
        isPrimaryKey := true }
    -- The key serves lookups by the source; the target side gets an index of its own.
    indexes := [{ name := generatedIndexName declaration.table.physicalTable targetColumns
                  columns := targetColumns }]
    foreignKeys := [joinForeignKey source declaration.collection,
      joinForeignKey targetSide target] }

def joinTables (backend : RuntimeMigrationBackend) (schema : RuntimeSchema) : List TableModel :=
  (firstDeclarations [] (joinDeclarations schema)).filterMap (·.physicalTable backend schema)

/-! ### The schema -/

/-- `OwnedSchemaModel::check_limits`. -/
def targetTooLarge (backend : RuntimeMigrationBackend) (limits : RuntimeMigrationLimits)
    (target : SchemaModel) : Bool :=
  limits.maxCollections < target.tables.length ||
    target.tables.any (fun table =>
      limits.maxFields < table.columns.length ||
        limits.maxIndexes < table.indexes.length ||
        limits.maxRelations < table.foreignKeys.length ||
        limits.maxKeyMembers < table.primaryKeyColumns.length ||
        table.columns.any (·.default.any (limits.maxDefaultBytes < ·.utf8ByteSize)) ||
        table.indexes.any (limits.maxKeyMembers < ·.columns.length) ||
        table.compositeUniqueIndexes.any (limits.maxKeyMembers < ·.length) ||
        table.foreignKeys.any (limits.maxKeyMembers < ·.columnPairs.length)) ||
    limits.maxTargetBytes < backend.targetBytes target

def physicalSchema (backend : RuntimeMigrationBackend) (limits : RuntimeMigrationLimits)
    (schema : RuntimeSchema) : Except RuntimeMigrationDiagnostics SchemaModel := do
  require backend.runtimeMigrationsSupported (rejection .unsupportedBackend)
  require (schema.collections.length ≤ limits.maxCollections) (rejection .limitExceeded)
  let diagnostics ← definitionDiagnostics limits backend 0 schema.collections
  require diagnostics.isEmpty diagnostics
  let collections ← schema.collections.mapM (collectionTable backend schema)
  -- Forward and inverse relations ask for their keys once all tables are there.
  let tables := (relationRequests schema).foldl requestIndex collections
  let target : SchemaModel := { tables := tables ++ joinTables backend schema }
  target.validatePhysicalContract.mapError fun _ => rejection .invalidPhysicalContract
  require (!targetTooLarge backend limits target) (rejection .limitExceeded)
  return target

end GraphqlOrm.Runtime
