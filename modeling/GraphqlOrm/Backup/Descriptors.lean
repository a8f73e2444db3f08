import GraphqlOrm.Foundation.OrderedMap
import GraphqlOrm.Runtime.Schema

/-!
# Backup descriptors

What the metadata of the entities says about a backup: the columns of each table, the tables it
depends on, and the order in which tables are exported and restored. An order that an entity does
not state is computed from the emitted foreign keys.
-/
namespace GraphqlOrm.Backup

open Schema (DeletePolicy)
open GraphqlOrm.Runtime (DecimalDef)

/-! ### Metadata -/

inductive BackupValueKind where
  | null | bool | integer | float | decimal | string | uuid | json | bytes | dateTime
deriving DecidableEq

inductive ColumnBackupPolicy where
  | include | exclude | redact
deriving DecidableEq

structure FieldMetadata where
  name : String
  rustName : String
  decimal : Option DecimalDef := none
  logicalType : BackupValueKind
  nullable : Bool := false
  isPrimaryKey : Bool := false
  isGenerated : Bool := false
  backupPolicy : ColumnBackupPolicy := .include

structure RelationMetadata where
  targetType : String
  sourceColumn : String
  targetColumn : String
  emitForeignKey : Bool := true
  onDelete : DeletePolicy := .restrict

structure EntityMetadata where
  entityName : String
  tableName : String
  primaryKey : String
  primaryKeys : List String
  backupEnabled : Bool := true
  backupExportOrder : Option Int := none
  backupRestoreOrder : Option Int := none
  retentionPolicy : Option String := none
  fields : List FieldMetadata := []
  relations : List RelationMetadata := []

/-! ### Descriptors -/

structure ColumnBackupDescriptor where
  columnName : String
  rustFieldName : String
  logicalType : BackupValueKind
  decimal : Option DecimalDef
  nullable : Bool
  isPrimaryKey : Bool
  isGenerated : Bool
  backupPolicy : ColumnBackupPolicy
deriving DecidableEq

structure EntityDependencyDescriptor where
  entityName : String
  tableName : String
  sourceColumn : String
  targetColumn : String
  nullable : Bool
  onDelete : DeletePolicy

structure EntityBackupDescriptor where
  entityName : String
  tableName : String
  primaryKeyColumn : String
  primaryKeyColumns : List String
  retentionPurge : Bool
  exportOrder : Int
  restoreOrder : Int
  columns : List ColumnBackupDescriptor
  dependencies : List EntityDependencyDescriptor

/-! ### Restore ranks -/

def entityTableNames (entities : List EntityMetadata) : OrderedMap String String :=
  entities.foldl (fun names entity => names.insert entity.entityName entity.tableName) .empty

def RelationMetadata.targetTable (names : OrderedMap String String) (relation : RelationMetadata) :
    String :=
  (names.get? relation.targetType).getD relation.targetType

def EntityMetadata.emitted (entity : EntityMetadata) : List RelationMetadata :=
  entity.relations.filter (·.emitForeignKey)

/-- The accumulators of the walk. -/
structure RestoreWalk where
  visiting : List String := []
  visited : List String := []
  ordered : List String := []

/-- Visit the referenced tables, then the table itself. Each nested call has one table more under
way, so that a fuel above the number of tables never runs out. -/
def visit (tables : OrderedMap String EntityMetadata) (names : OrderedMap String String) :
    Nat → RestoreWalk → String → RestoreWalk
  | 0, walk, _ => walk
  | fuel + 1, walk, tableName =>
    if walk.visited.contains tableName || walk.visiting.contains tableName then walk
    else
      match tables.get? tableName with
      | none => walk
      | some entity =>
        let inside := entity.emitted.foldl
          (fun walk relation =>
            -- Tables outside the backup are passed over, with all that they refer to.
            if tables.contains (relation.targetTable names) then
              visit tables names fuel walk (relation.targetTable names)
            else walk)
          { walk with visiting := tableName :: walk.visiting }
        { visiting := inside.visiting.erase tableName
          visited := tableName :: inside.visited
          ordered := inside.ordered ++ [tableName] }

def backupTables (entities : List EntityMetadata) : OrderedMap String EntityMetadata :=
  OrderedMap.collectBy (·.tableName) (entities.filter (·.backupEnabled))

def restoreRanksFromEntities (entities : List EntityMetadata) (names : OrderedMap String String) :
    OrderedMap String Int :=
  let tables := backupTables entities
  let ordered := (tables.keys.foldl (visit tables names (tables.keys.length + 1)) {}).ordered
  ordered.zipIdx.foldl (fun ranks e => ranks.insert e.1 e.2) .empty

/-! ### The descriptors of a list of entities -/

def FieldMetadata.descriptor (field : FieldMetadata) : ColumnBackupDescriptor where
  columnName := field.name
  rustFieldName := field.rustName
  logicalType := field.logicalType
  decimal := field.decimal
  nullable := field.nullable
  isPrimaryKey := field.isPrimaryKey
  isGenerated := field.isGenerated
  backupPolicy := field.backupPolicy

def EntityMetadata.dependency (names : OrderedMap String String)
    (byTable : OrderedMap String EntityMetadata) (entity : EntityMetadata)
    (relation : RelationMetadata) : EntityDependencyDescriptor where
  entityName := ((byTable.get? (relation.targetTable names)).map (·.entityName)).getD
    relation.targetType
  tableName := relation.targetTable names
  sourceColumn := relation.sourceColumn
  targetColumn := relation.targetColumn
  nullable := ((entity.fields.find? fun field => field.name == relation.sourceColumn).map
    (·.nullable)).getD false
  onDelete := relation.onDelete

def EntityMetadata.descriptor (names : OrderedMap String String)
    (byTable : OrderedMap String EntityMetadata) (ranks : OrderedMap String Int)
    (entity : EntityMetadata) : EntityBackupDescriptor :=
  let restoreOrder := entity.backupRestoreOrder.getD ((ranks.get? entity.tableName).getD 0 * 10)
  { entityName := entity.entityName
    tableName := entity.tableName
    primaryKeyColumn := entity.primaryKey
    -- A key of one column is told by that column alone.
    primaryKeyColumns := if 1 < entity.primaryKeys.length then entity.primaryKeys else []
    retentionPurge := entity.retentionPolicy.isSome
    exportOrder := entity.backupExportOrder.getD restoreOrder
    restoreOrder
    columns := entity.fields.map (·.descriptor)
    dependencies := entity.emitted.map (entity.dependency names byTable) }

def backupDescriptorsFromEntities (entities : List EntityMetadata) : List EntityBackupDescriptor :=
  let names := entityTableNames entities
  let byTable := OrderedMap.collectBy (·.tableName) entities
  let ranks := restoreRanksFromEntities entities names
  (entities.filter (·.backupEnabled)).map (·.descriptor names byTable ranks)

end GraphqlOrm.Backup
