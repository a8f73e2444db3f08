import GraphqlOrm.Backup.Payload
import GraphqlOrm.Foundation.JsonPretty
import GraphqlOrm.Foundation.Sha256
import GraphqlOrm.Storage.ObjectJson

/-!
# Snapshots in JSON

The documents that `serde_json` writes of manifests, rows and changes, and their readers.
-/
namespace GraphqlOrm.Backup.Codec

open Json Bytes
open Lease (Uuid)
open Storage.Codec (signed unsigned readSigned readUnsigned optional readOptional readSigned_signed
  readUnsigned_unsigned readOptional_optional)

/-! ### Parts -/

def uuidJson (id : Uuid) : Value String := .text (UuidText.hyphenated id)

def readUuid (v : Value String) : Option Uuid := v.asStr.bind UuidText.parse

def optionalUuid (id : Option Uuid) : Value String := optional (id.map UuidText.hyphenated)

def readOptionalUuid (v : Value String) : Option (Option Uuid) :=
  match readOptional v with
  | some (some text) => (UuidText.parse text).map some
  | some none => some none
  | none => none

def kindJson : BackupKind → Value String
  | .full => .text "Full"
  | .incremental => .text "Incremental"
  | .syntheticFull => .text "SyntheticFull"

def readKind : Value String → Option BackupKind
  | .text "Full" => some .full
  | .text "Incremental" => some .incremental
  | .text "SyntheticFull" => some .syntheticFull
  | _ => none

def compressionJson : BackupCompression → Value String
  | .none => .text "None"
  | .zstd => .text "Zstd"

def readCompression : Value String → Option BackupCompression
  | .text "None" => some .none
  | .text "Zstd" => some .zstd
  | _ => none

def listJson {α : Type} (toJson : α → Value String) (items : List α) : Value String :=
  .array (items.map toJson)

def readList {α : Type} (ofJson : Value String → Option α) (v : Value String) : Option (List α) :=
  v.asArray.bind fun items => items.mapM ofJson

theorem readUuid_uuidJson (id : Uuid) : readUuid (uuidJson id) = some id := by
  simp [readUuid, uuidJson, UuidText.parse_hyphenated]

theorem readOptionalUuid_optionalUuid (id : Option Uuid) :
    readOptionalUuid (optionalUuid id) = some id := by
  unfold readOptionalUuid optionalUuid
  rw [readOptional_optional]
  cases id with
  | none => rfl
  | some id => simp [UuidText.parse_hyphenated]

theorem readKind_kindJson (kind : BackupKind) : readKind (kindJson kind) = some kind := by
  cases kind <;> rfl

theorem readCompression_compressionJson (compression : BackupCompression) :
    readCompression (compressionJson compression) = some compression := by
  cases compression <;> rfl

theorem readList_listJson {α : Type} {toJson : α → Value String}
    {ofJson : Value String → Option α} (back : ∀ item, ofJson (toJson item) = some item)
    (items : List α) : readList ofJson (listJson toJson items) = some items := by
  unfold readList listJson
  rw [Value.asArray_array, Option.bind_some]
  induction items with
  | nil => rfl
  | cons item items ih =>
    rw [List.map_cons, List.mapM_cons, back, ih]
    rfl

theorem readUnsigned_bits (x : BitVec 64) : readUnsigned 64 (unsigned x) = some x :=
  readUnsigned_unsigned (Nat.le_refl 64) x

theorem readSigned_bits (x : BitVec 64) : readSigned 64 (signed x) = some x :=
  readSigned_signed (Nat.le_refl 64) x

/-! ### Manifests -/

def tableJson (entry : TableBackupEntry) : Value String :=
  .object [
    ("table_name", .text entry.tableName),
    ("row_count", unsigned entry.rowCount),
    ("content_key", .text entry.contentKey),
    ("sha256_hex", .text entry.sha256Hex)]

def readTable (v : Value String) : Option TableBackupEntry := do
  return {
    tableName := ← (← v.get "table_name").asStr
    rowCount := ← readUnsigned 64 (← v.get "row_count")
    contentKey := ← (← v.get "content_key").asStr
    sha256Hex := ← (← v.get "sha256_hex").asStr }

def objectJson (entry : ObjectBackupEntry) : Value String :=
  .object [
    ("object_id", uuidJson entry.objectId),
    ("storage_key", .text entry.storageKey),
    ("content_key", .text entry.contentKey),
    ("sha256_hex", .text entry.sha256Hex),
    ("size_bytes", unsigned entry.sizeBytes),
    ("mime_type", optional entry.mimeType)]

def readObject (v : Value String) : Option ObjectBackupEntry := do
  return {
    objectId := ← readUuid (← v.get "object_id")
    storageKey := ← (← v.get "storage_key").asStr
    contentKey := ← (← v.get "content_key").asStr
    sha256Hex := ← (← v.get "sha256_hex").asStr
    sizeBytes := ← readUnsigned 64 (← v.get "size_bytes")
    mimeType := ← readOptional ((v.get "mime_type").getD .null) }

def tombstoneJson (tombstone : BackupTombstone) : Value String :=
  .object [
    ("table_name", optional tombstone.tableName),
    ("primary_key", optional tombstone.primaryKey),
    ("object_id", optionalUuid tombstone.objectId),
    ("deleted_at", signed tombstone.deletedAt)]

def readTombstone (v : Value String) : Option BackupTombstone := do
  return {
    tableName := ← readOptional ((v.get "table_name").getD .null)
    primaryKey := ← readOptional ((v.get "primary_key").getD .null)
    objectId := ← readOptionalUuid ((v.get "object_id").getD .null)
    deletedAt := ← readSigned 64 (← v.get "deleted_at") }

def databaseJson (database : DatabaseBackupManifest) : Value String :=
  .object [
    ("export_format", .text database.exportFormat),
    ("compression", compressionJson database.compression),
    ("row_count", unsigned database.rowCount),
    ("table_count", unsigned database.tableCount),
    ("tables", listJson tableJson database.tables),
    ("changes", listJson tableJson database.changes)]

def readDatabase (v : Value String) : Option DatabaseBackupManifest := do
  return {
    exportFormat := ← (← v.get "export_format").asStr
    compression := ← readCompression ((v.get "compression").getD (compressionJson .none))
    rowCount := ← readUnsigned 64 (← v.get "row_count")
    tableCount := ← readUnsigned 64 (← v.get "table_count")
    tables := ← readList readTable (← v.get "tables")
    changes := ← readList readTable ((v.get "changes").getD (.array [])) }

def manifestJson (manifest : BackupSnapshotManifest) : Value String :=
  .object [
    ("format_version", unsigned manifest.formatVersion),
    ("snapshot_id", uuidJson manifest.snapshotId),
    ("parent_snapshot_id", optionalUuid manifest.parentSnapshotId),
    ("created_at", signed manifest.createdAt),
    ("app_id", .text manifest.appId),
    ("app_version", .text manifest.appVersion),
    ("graphql_orm_schema_version", .text manifest.graphqlOrmSchemaVersion),
    ("graphql_orm_schema_hash", .text manifest.graphqlOrmSchemaHash),
    ("database_backend", .text manifest.databaseBackend),
    ("backup_kind", kindJson manifest.backupKind),
    ("database", databaseJson manifest.database),
    ("objects", listJson objectJson manifest.objects),
    ("tombstones", listJson tombstoneJson manifest.tombstones),
    ("checksum", .text manifest.checksum)]

def manifestOfJson (v : Value String) : Option BackupSnapshotManifest := do
  return {
    formatVersion := ← readUnsigned 32 (← v.get "format_version")
    snapshotId := ← readUuid (← v.get "snapshot_id")
    parentSnapshotId := ← readOptionalUuid ((v.get "parent_snapshot_id").getD .null)
    createdAt := ← readSigned 64 (← v.get "created_at")
    appId := ← (← v.get "app_id").asStr
    appVersion := ← (← v.get "app_version").asStr
    graphqlOrmSchemaVersion := ← (← v.get "graphql_orm_schema_version").asStr
    graphqlOrmSchemaHash := ← (← v.get "graphql_orm_schema_hash").asStr
    databaseBackend := ← (← v.get "database_backend").asStr
    backupKind := ← readKind (← v.get "backup_kind")
    database := ← readDatabase (← v.get "database")
    objects := ← readList readObject (← v.get "objects")
    tombstones := ← readList readTombstone (← v.get "tombstones")
    checksum := ← (← v.get "checksum").asStr }

theorem readTable_tableJson (entry : TableBackupEntry) :
    readTable (tableJson entry) = some entry := by
  simp [readTable, tableJson, Value.get, List.lookup_cons, readUnsigned_bits]

theorem readObject_objectJson (entry : ObjectBackupEntry) :
    readObject (objectJson entry) = some entry := by
  simp [readObject, objectJson, Value.get, List.lookup_cons, readUnsigned_bits, readUuid_uuidJson,
    readOptional_optional]

theorem readTombstone_tombstoneJson (tombstone : BackupTombstone) :
    readTombstone (tombstoneJson tombstone) = some tombstone := by
  simp [readTombstone, tombstoneJson, Value.get, List.lookup_cons, readSigned_bits, readOptionalUuid_optionalUuid,
    readOptional_optional]

theorem readDatabase_databaseJson (database : DatabaseBackupManifest) :
    readDatabase (databaseJson database) = some database := by
  simp [readDatabase, databaseJson, Value.get, List.lookup_cons, readUnsigned_bits, readCompression_compressionJson,
    readList_listJson readTable_tableJson]

theorem manifestOfJson_manifestJson (manifest : BackupSnapshotManifest) :
    manifestOfJson (manifestJson manifest) = some manifest := by
  have version : readUnsigned 32 (unsigned manifest.formatVersion) = some manifest.formatVersion :=
    readUnsigned_unsigned (by decide) manifest.formatVersion
  simp [manifestOfJson, manifestJson, Value.get, List.lookup_cons, version, readSigned_bits, readUuid_uuidJson,
    readOptionalUuid_optionalUuid, readKind_kindJson, readDatabase_databaseJson,
    readList_listJson readObject_objectJson, readList_listJson readTombstone_tombstoneJson]

/-! ### Rows and changes -/

def rowJson (row : BackupRow) : Value String :=
  .object [
    ("table_name", .text row.tableName),
    ("primary_key", .text row.primaryKey),
    ("row_hash", .text row.rowHash),
    ("values", .object row.values.entries)]

def readMembers : Value String → Option (OrderedMap String (Value String))
  | .object members =>
    if sorted : members.Pairwise fun a b => a.1 < b.1 then some ⟨members, sorted⟩ else none
  | _ => none

def readRowJson (v : Value String) : Option BackupRow := do
  return {
    tableName := ← (← v.get "table_name").asStr
    primaryKey := ← (← v.get "primary_key").asStr
    rowHash := ← (← v.get "row_hash").asStr
    values := ← readMembers (← v.get "values") }

def actionJson : BackupChangeAction → Value String
  | .create => .text "Create"
  | .update => .text "Update"
  | .delete => .text "Delete"

def readAction : Value String → Option BackupChangeAction
  | .text "Create" => some .create
  | .text "Update" => some .update
  | .text "Delete" => some .delete
  | _ => none

def changeJson (change : BackupChangeExport) : Value String :=
  .object [
    ("table_name", .text change.tableName),
    ("primary_key", .text change.primaryKey),
    ("action", actionJson change.action),
    ("row", (change.row.map rowJson).getD .null),
    ("changed_at", signed change.changedAt)]

def readOptionalRow : Value String → Option (Option BackupRow)
  | .null => some none
  | v => (readRowJson v).map some

def readChangeJson (v : Value String) : Option BackupChangeExport := do
  return {
    tableName := ← (← v.get "table_name").asStr
    primaryKey := ← (← v.get "primary_key").asStr
    action := ← readAction (← v.get "action")
    row := ← readOptionalRow ((v.get "row").getD .null)
    changedAt := ← readSigned 64 (← v.get "changed_at") }

/-! ### The codec -/

def ofBytes {α : Type} (ofJson : Value String → Option α) (bytes : List UInt8) : Option α :=
  (fromUtf8 bytes).bind fun text => (Json.parse text).bind ofJson

/-- SHA-256 and `serde_json`, with zstd left open. -/
def json (encodeAll : List UInt8 → List UInt8) (windowLog : List UInt8 → Nat)
    (decodeAll : List UInt8 → Option (List UInt8)) : Codec where
  sha256 := Sha256.hex
  manifestPretty manifest := utf8 (manifestJson manifest).pretty
  manifestCompact manifest := utf8 (manifestJson manifest).write
  readManifest := ofBytes manifestOfJson
  rowLine row := utf8 (rowJson row).write
  readRow := ofBytes readRowJson
  changeLine change := utf8 (changeJson change).write
  readChange := ofBytes readChangeJson
  encodeAll := encodeAll
  windowLog := windowLog
  decodeAll := decodeAll

theorem readsManifests_json (encodeAll : List UInt8 → List UInt8) (windowLog : List UInt8 → Nat)
    (decodeAll : List UInt8 → Option (List UInt8)) :
    (json encodeAll windowLog decodeAll).ReadsManifests := by
  intro manifest
  simp only [json, ofBytes, fromUtf8_utf8, Option.bind_some, parse_pretty,
    manifestOfJson_manifestJson]

end Codec

def plainCodec : Codec := Codec.json id (fun _ => 0) some

end GraphqlOrm.Backup
