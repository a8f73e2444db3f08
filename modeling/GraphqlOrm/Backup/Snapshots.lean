import GraphqlOrm.Backup.Payload

/-!
# Creating snapshots

Full and incremental snapshots of a database, and the compaction of a chain into a
synthetic full snapshot. The manifest is the last blob that each of them writes.
-/
namespace GraphqlOrm.Backup

open Outcome Faulty
open Lease (Uuid)
open Storage (Bytes)

/-- What the database answers to the calls of a backup. -/
structure GraphqlOrmBackupAdapter where
  schemaSnapshot : Except BackupError GraphqlOrmBackupSchema
  exportFull : Except BackupError (List BackupTableExport)
  exportIncremental : Uuid → Except BackupError (List BackupChangeExport)

structure BackupExecutionOptions where
  objectConcurrency : Nat := 8

structure FullBackupRequest where
  snapshotId : Uuid
  createdAt : BitVec 64
  appId : String
  appVersion : String

structure IncrementalBackupRequest where
  snapshotId : Uuid
  parentSnapshotId : Uuid
  createdAt : BitVec 64
  appId : String
  appVersion : String

structure CompactChainRequest where
  snapshotId : Uuid
  sourceSnapshotId : Uuid
  createdAt : BitVec 64
  appId : String
  appVersion : String

/-! ### Full snapshots -/

structure FullBackupPlan where
  schema : GraphqlOrmBackupSchema
  tables : List BackupTableExport
  objects : List BackupObjectRef

def planFullBackup (database : GraphqlOrmBackupAdapter) (objects : BackupObjectIndex) :
    Except BackupError FullBackupPlan := do
  let schema ← database.schemaSnapshot
  let tables ← database.exportFull
  let objects ← objects.listFull
  return ⟨schema, tables, objects⟩

/-- `row_count += ..` over the entries. -/
def totalCount (entries : List TableBackupEntry) : BitVec 64 :=
  entries.foldl (fun total entry => total + entry.rowCount) 0

def fullDatabase (tables : List TableBackupEntry) : DatabaseBackupManifest where
  exportFormat := databaseExportFormat
  compression := .zstd
  rowCount := totalCount tables
  tableCount := BitVec.ofNat 64 tables.length
  tables := tables
  changes := []

section Create

variable (codec : Codec)

def writeManifest (manifest : BackupSnapshotManifest) : Operation BackupSnapshotManifest :=
  let signed := setManifestChecksum codec manifest
  (putBlob (snapshotManifestKey signed.snapshotId) (codec.manifestPretty signed)).bind fun _ =>
    .pure signed

def fullManifest (request : FullBackupRequest) (schema : GraphqlOrmBackupSchema)
    (tables : List TableBackupEntry) (objects : List ObjectBackupEntry) :
    BackupSnapshotManifest where
  formatVersion := backupFormatVersion
  snapshotId := request.snapshotId
  parentSnapshotId := none
  createdAt := request.createdAt
  appId := request.appId
  appVersion := request.appVersion
  graphqlOrmSchemaVersion := schema.migrationVersion
  graphqlOrmSchemaHash := schema.schemaHash
  databaseBackend := schema.backend
  backupKind := .full
  database := fullDatabase tables
  objects := objects
  tombstones := []
  checksum := ""

def createFullBackupInner (database : GraphqlOrmBackupAdapter) (objects : BackupObjectIndex)
    (request : FullBackupRequest) (options : BackupExecutionOptions) (choose : Nat → Nat) :
    Operation BackupSnapshotManifest :=
  (Action.lift (planFullBackup database objects)).bind fun plan =>
  (putPayloads codec (databaseTableKey request.snapshotId)
    (plan.tables.map (tablePayload codec))).bind fun tableEntries =>
  (writeObjectEntries codec objects plan.objects options.objectConcurrency choose).bind
    fun objectEntries =>
  writeManifest codec (fullManifest request plan.schema tableEntries objectEntries)

/-! ### Incremental snapshots -/

structure ChangeGroup where
  tableName : String
  changes : List BackupChangeExport

def ChangeGroup.place (change : BackupChangeExport) : List ChangeGroup → List ChangeGroup
  | [] => [⟨change.tableName, [change]⟩]
  | group :: rest =>
    if group.tableName = change.tableName then
      { group with changes := group.changes ++ [change] } :: rest
    else group :: place change rest

def groupChangesByTable (changes : List BackupChangeExport) : List ChangeGroup :=
  changes.foldl (fun groups change => ChangeGroup.place change groups) []

def changesToTombstones (changes : List BackupChangeExport) : List BackupTombstone :=
  (changes.filter fun change => change.action = .delete).map fun change =>
    ⟨some change.tableName, some change.primaryKey, none, change.changedAt⟩

def changePayload (group : ChangeGroup) : Payload where
  tableName := group.tableName
  count := group.changes.length
  bytes := serializeJsonlEntries codec codec.changeLine group.changes

structure IncrementalPlan where
  schema : GraphqlOrmBackupSchema
  changes : List BackupChangeExport
  objects : List BackupObjectRef

def planIncremental (database : GraphqlOrmBackupAdapter) (objects : BackupObjectIndex)
    (parentSnapshotId : Uuid) : Except BackupError IncrementalPlan := do
  let schema ← database.schemaSnapshot
  let changes ← database.exportIncremental parentSnapshotId
  let objects ← objects.listIncremental parentSnapshotId
  return ⟨schema, changes, objects⟩

def incrementalManifest (request : IncrementalBackupRequest) (schema : GraphqlOrmBackupSchema)
    (changes : List TableBackupEntry) (objects : List ObjectBackupEntry)
    (tombstones : List BackupTombstone) : BackupSnapshotManifest where
  formatVersion := backupFormatVersion
  snapshotId := request.snapshotId
  parentSnapshotId := some request.parentSnapshotId
  createdAt := request.createdAt
  appId := request.appId
  appVersion := request.appVersion
  graphqlOrmSchemaVersion := schema.migrationVersion
  graphqlOrmSchemaHash := schema.schemaHash
  databaseBackend := schema.backend
  backupKind := .incremental
  database :=
    { exportFormat := databaseExportFormat
      compression := .zstd
      rowCount := totalCount changes
      tableCount := 0
      tables := []
      changes := changes }
  objects := objects
  tombstones := tombstones
  checksum := ""

def createIncrementalBackupInner (database : GraphqlOrmBackupAdapter)
    (objects : BackupObjectIndex) (request : IncrementalBackupRequest)
    (options : BackupExecutionOptions) (choose : Nat → Nat) : Operation BackupSnapshotManifest :=
  (Action.lift (planIncremental database objects request.parentSnapshotId)).bind fun plan =>
  (putPayloads codec (databaseChangesKey request.snapshotId)
    ((groupChangesByTable plan.changes).map (changePayload codec))).bind fun changeEntries =>
  (writeObjectEntries codec objects plan.objects options.objectConcurrency choose).bind
    fun objectEntries =>
  writeManifest codec (incrementalManifest request plan.schema changeEntries objectEntries
    (changesToTombstones plan.changes))

/-! ### Compaction -/

abbrev TableRows : Type := OrderedMap String (OrderedMap String BackupRow)

def TableRows.ofTable (tables : TableRows) (name : String) : OrderedMap String BackupRow :=
  (tables.get? name).getD .empty

def TableRows.addTable (tables : TableRows) (table : BackupTableExport) : TableRows :=
  tables.insert table.tableName
    (table.rows.foldl (fun rows row => rows.insert row.primaryKey row)
      (tables.ofTable table.tableName))

def TableRows.applyChange (tables : TableRows) (change : BackupChangeExport) : TableRows :=
  let rows := tables.ofTable change.tableName
  tables.insert change.tableName <|
    match change.action, change.row with
    | .delete, _ => rows.erase change.primaryKey
    | _, some row => rows.insert change.primaryKey row
    | _, none => rows

def isCompositeKey (key : String) : Bool :=
  match Json.parse key with
  | some (.array parts) => parts.all (fun part => part.asStr.isSome) && 2 ≤ parts.length
  | _ => false

def compositeTables (tables : TableRows) : List String :=
  (tables.entries.filter fun table =>
    table.2.keys ≠ [] ∧ table.2.keys.all isCompositeKey).map Prod.fst

def applyChanges (composite : List String) (tables : TableRows)
    (changes : List BackupChangeExport) : Except BackupError TableRows :=
  changes.foldlM (fun tables change =>
    if change.tableName ∈ composite then
      .error (.invalidManifestChain
        s!"incremental changes to composite-key table {change.tableName} cannot be compacted")
    else .ok (tables.applyChange change)) tables

def compactObjectEntries (chain : List BackupSnapshotManifest) : List ObjectBackupEntry :=
  let tombstoned := (chain.flatMap BackupSnapshotManifest.tombstones).filterMap
    BackupTombstone.objectId
  let byId := (chain.flatMap BackupSnapshotManifest.objects).foldl
    (fun (objects : OrderedMap Nat ObjectBackupEntry) object =>
      if object.objectId ∈ tombstoned then objects
      else objects.insert object.objectId.toNat object) .empty
  sortBy (fun object => object.objectId.toNat) byId.values

section Compact

variable (limits : BackupCapacityLimits)

def compactRows (repository : Repository) (full : BackupSnapshotManifest)
    (increments : List BackupSnapshotManifest) : Except BackupError TableRows := do
  let exports ← loadTableExports codec limits repository full
  let tables := exports.foldl TableRows.addTable .empty
  let composite := compositeTables tables
  increments.foldlM (fun tables manifest => do
    let changes ← loadChangeExports codec limits repository manifest
    applyChanges composite tables changes) tables

structure CompactSource where
  chain : List BackupSnapshotManifest
  latest : BackupSnapshotManifest
  tables : TableRows

def loadCompactSource (repository : Repository) (sourceSnapshotId : Uuid) :
    Except BackupError CompactSource := do
  let chain ← loadVerifiedChain codec limits repository sourceSnapshotId
  match chain with
  | [] => .error (.invalidManifestChain "manifest chain is empty")
  | full :: increments =>
    let tables ← compactRows codec limits repository full increments
    return ⟨chain, increments.getLastD full, tables⟩

/-- The object entries of the chain, with the sizes of the blobs they name. -/
def compactedObjects (chain : List BackupSnapshotManifest) (repository : Repository) :
    Except BackupError (List ObjectBackupEntry) :=
  (compactObjectEntries chain).mapM fun object => do
    let size ← verifyBlobChecksum codec repository object.contentKey object.sha256Hex
    return { object with sizeBytes := BitVec.ofNat 64 size }

def rowsPayload (table : String × OrderedMap String BackupRow) : Payload where
  tableName := table.1
  count := table.2.values.length
  bytes := serializeJsonlEntries codec codec.rowLine table.2.values

def syntheticManifest (request : CompactChainRequest) (latest : BackupSnapshotManifest)
    (tables : List TableBackupEntry) (objects : List ObjectBackupEntry) :
    BackupSnapshotManifest where
  formatVersion := backupFormatVersion
  snapshotId := request.snapshotId
  parentSnapshotId := none
  createdAt := request.createdAt
  appId := request.appId
  appVersion := request.appVersion
  graphqlOrmSchemaVersion := latest.graphqlOrmSchemaVersion
  graphqlOrmSchemaHash := latest.graphqlOrmSchemaHash
  databaseBackend := latest.databaseBackend
  backupKind := .syntheticFull
  database := fullDatabase tables
  objects := objects
  tombstones := []
  checksum := ""

def compactChainInner (request : CompactChainRequest) : Operation BackupSnapshotManifest :=
  (reading fun repository => loadCompactSource codec limits repository
    request.sourceSnapshotId).bind fun source =>
  (putPayloads codec (databaseTableKey request.snapshotId)
    (source.tables.entries.map (rowsPayload codec))).bind fun tableEntries =>
  (reading (compactedObjects codec source.chain)).bind fun objectEntries =>
  writeManifest codec (syntheticManifest request source.latest tableEntries objectEntries)

end Compact

/-! ### The operations -/

/-- A call that writes a snapshot, with what it gets from outside: the time of its lock, the answers
of the database and the object index, and the order of the object writes. -/
inductive Creation where
  | full (now : Int) (database : GraphqlOrmBackupAdapter) (objects : BackupObjectIndex)
      (request : FullBackupRequest) (options : BackupExecutionOptions) (choose : Nat → Nat)
  | incremental (now : Int) (database : GraphqlOrmBackupAdapter) (objects : BackupObjectIndex)
      (request : IncrementalBackupRequest) (options : BackupExecutionOptions)
      (choose : Nat → Nat)
  | compact (now : Int) (request : CompactChainRequest)

def Creation.snapshotId : Creation → Uuid
  | full _ _ _ request _ _ => request.snapshotId
  | incremental _ _ _ request _ _ => request.snapshotId
  | compact _ request => request.snapshotId

def Creation.run (limits : BackupCapacityLimits) : Creation → Operation BackupSnapshotManifest
  | full now database objects request options choose =>
    withLock now (createFullBackupInner codec database objects request options choose)
  | incremental now database objects request options choose =>
    withLock now (createIncrementalBackupInner codec database objects request options choose)
  | compact now request => withLock now (compactChainInner codec limits request)

end Create

end GraphqlOrm.Backup
