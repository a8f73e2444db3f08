import GraphqlOrm.Storage.Local

/-!
# Backup snapshots

What a backup repository keeps: manifests, each with its table, change and object
entries, and the rows and changes that the payloads of the entries hold.
-/
namespace GraphqlOrm.Backup

open Outcome
open Lease (Uuid)
open Storage (Bytes StorageError)

inductive BackupError where
  | capacityExceeded (limitBytes : Nat)
  | invalidRepositoryKey (key : String)
  | missingBlob (key : String)
  | checksumMismatch (key expected actual : String)
  | invalidManifestChain (reason : String)
  | repositoryLocked (lockKey : String)
  | compression
  | storage (source : StorageError)
  | unsupportedOperation (operation : String)
  | database (message : String)
  | serialization
  | io (path : Storage.PathBuf) (source : FileSystem.ErrorKind)

/-- `From<StorageError> for BackupError`. -/
def BackupError.ofStorage : StorageError → BackupError
  | .invalidStorageKey key => .invalidRepositoryKey key
  | .missingBlob key => .missingBlob key
  | .io path source => .io path source
  | source => .storage source

/-! ### Limits -/

inductive BackupByteLimit where
  | bytes (limit : Nat)
  | unbounded

namespace BackupByteLimit

protected def min : BackupByteLimit → BackupByteLimit → BackupByteLimit
  | bytes a, bytes b => bytes (Nat.min a b)
  | unbounded, limit => limit
  | limit, unbounded => limit

def check : BackupByteLimit → Nat → Except BackupError Unit
  | bytes limit, size => if size > limit then .error (.capacityExceeded limit) else .ok ()
  | unbounded, _ => .ok ()

def remaining (limit : BackupByteLimit) (consumed : Nat) : Except BackupError BackupByteLimit := do
  limit.check consumed
  return match limit with
    | bytes limit => bytes (limit - consumed)
    | unbounded => unbounded

def Admits : BackupByteLimit → Nat → Prop
  | bytes limit, size => size ≤ limit
  | unbounded, _ => True

instance (limit : BackupByteLimit) (size : Nat) : Decidable (limit.Admits size) :=
  match limit with
  | bytes limit => inferInstanceAs (Decidable (size ≤ limit))
  | unbounded => inferInstanceAs (Decidable True)

theorem check_eq_ok {limit : BackupByteLimit} {size : Nat} {u : Unit} :
    limit.check size = .ok u ↔ limit.Admits size := by
  cases limit with
  | bytes limit =>
    by_cases above : size > limit
    · simp only [check, if_pos above, Admits, reduceCtorEq, false_iff]
      exact Nat.not_le_of_gt above
    · simp only [check, if_neg above, Admits, true_iff]
      exact Nat.le_of_not_lt above
  | unbounded => exact ⟨fun _ => trivial, fun _ => rfl⟩

end BackupByteLimit

structure BackupCapacityLimits where
  bufferedBytes : BackupByteLimit := .bytes (64 * 1024 * 1024)
  decompressedBytes : BackupByteLimit := .bytes (256 * 1024 * 1024)
  stageBytes : BackupByteLimit := .bytes (512 * 1024 * 1024)

def collectBackupStream (body : Bytes) (limit : BackupByteLimit) : Except BackupError Bytes := do
  limit.check body.length
  return body

/-! ### Manifests -/

def backupFormatVersion : BitVec 32 := 1

def databaseExportFormat : String := "jsonl"

inductive BackupKind where
  | full
  | incremental
  | syntheticFull

inductive BackupCompression where
  | none
  | zstd

structure TableBackupEntry where
  tableName : String
  rowCount : BitVec 64
  contentKey : String
  sha256Hex : String

structure DatabaseBackupManifest where
  exportFormat : String
  compression : BackupCompression
  rowCount : BitVec 64
  tableCount : BitVec 64
  tables : List TableBackupEntry
  changes : List TableBackupEntry

structure ObjectBackupEntry where
  objectId : Uuid
  storageKey : String
  contentKey : String
  sha256Hex : String
  sizeBytes : BitVec 64
  mimeType : Option String

structure BackupTombstone where
  tableName : Option String
  primaryKey : Option String
  objectId : Option Uuid
  deletedAt : BitVec 64

/-- Times are signed seconds. -/
structure BackupSnapshotManifest where
  formatVersion : BitVec 32
  snapshotId : Uuid
  parentSnapshotId : Option Uuid
  createdAt : BitVec 64
  appId : String
  appVersion : String
  graphqlOrmSchemaVersion : String
  graphqlOrmSchemaHash : String
  databaseBackend : String
  backupKind : BackupKind
  database : DatabaseBackupManifest
  objects : List ObjectBackupEntry
  tombstones : List BackupTombstone
  checksum : String

/-! ### Rows and changes -/

structure BackupRow where
  tableName : String
  primaryKey : String
  rowHash : String
  values : OrderedMap String (Json.Value String)

structure BackupTableExport where
  tableName : String
  rows : List BackupRow

inductive BackupChangeAction where
  | create
  | update
  | delete
deriving DecidableEq

structure BackupChangeExport where
  tableName : String
  primaryKey : String
  action : BackupChangeAction
  row : Option BackupRow
  changedAt : BitVec 64

structure GraphqlOrmBackupSchema where
  backend : String
  migrationVersion : String
  schemaHash : String

structure BackupObjectRef where
  objectId : Uuid
  storageKey : String
  sha256Hex : String
  sizeBytes : BitVec 64
  mimeType : Option String

/-! ### Formats -/

/-- What the crate takes from other crates: the digest in lowercase hexadecimal, the
JSON of manifests, rows and changes, and zstd with the logarithm of the window that
a frame needs. -/
structure Codec where
  sha256 : Bytes → String
  manifestPretty : BackupSnapshotManifest → Bytes
  manifestCompact : BackupSnapshotManifest → Bytes
  readManifest : Bytes → Option BackupSnapshotManifest
  rowLine : BackupRow → Bytes
  readRow : Bytes → Option BackupRow
  changeLine : BackupChangeExport → Bytes
  readChange : Bytes → Option BackupChangeExport
  encodeAll : Bytes → Bytes
  windowLog : Bytes → Nat
  decodeAll : Bytes → Option Bytes

/-- What `serde_json` writes of a manifest it reads back. -/
def Codec.ReadsManifests (codec : Codec) : Prop :=
  ∀ manifest, codec.readManifest (codec.manifestPretty manifest) = some manifest

end GraphqlOrm.Backup
