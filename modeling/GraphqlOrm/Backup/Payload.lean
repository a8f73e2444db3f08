import GraphqlOrm.Backup.Manifest
import GraphqlOrm.Backup.ObjectWrites

/-!
# Payloads

The rows or changes of a table as lines of JSON in one compressed blob, and the
checks that a snapshot passes before its payloads are read.
-/
namespace GraphqlOrm.Backup

open Outcome Faulty
open Lease (Uuid)
open Storage (Bytes)

def newline : UInt8 := 10

section Lines

variable {α : Type}

def serializeJsonlEntries (codec : Codec) (line : α → Bytes) (entries : List α) : Bytes :=
  codec.encodeAll (entries.flatMap fun entry => line entry ++ [newline])

def parseJsonl (read : Bytes → Option α) (payload : Bytes) : Except BackupError (List α) :=
  ((payload.splitOn newline).filter fun line => line ≠ []).mapM fun line =>
    okOr .serialization (read line)

end Lines

/-! ### Writing -/

/-- A blob of rows or changes, with their number. -/
structure Payload where
  tableName : String
  count : Nat
  bytes : Bytes

section Writing

variable (codec : Codec)

def tablePayload (table : BackupTableExport) : Payload where
  tableName := table.tableName
  count := table.rows.length
  bytes := serializeJsonlEntries codec codec.rowLine table.rows

def payloadEntry (key : String → String) (payload : Payload) : TableBackupEntry where
  tableName := payload.tableName
  rowCount := BitVec.ofNat 64 payload.count
  contentKey := key payload.tableName
  sha256Hex := codec.sha256 payload.bytes

/-- Put the payloads one after another, each under the key of its table. -/
def putPayloads (key : String → String) (payloads : List Payload) :
    Operation (List TableBackupEntry) :=
  .collect (fun payload => (putBlob (key payload.tableName) payload.bytes).bind fun _ =>
    .pure (payloadEntry codec key payload)) payloads

end Writing

/-! ### Reading -/

/-- The logarithm of the largest window that the decoder accepts: a power of two within the limit,
between 1 KiB and 1 GiB, or the library's own choice. -/
def windowLogMax : BackupByteLimit → Nat
  | .bytes limit => Nat.max 10 (Nat.min (Nat.log2 (Nat.max limit 1)) 30)
  | .unbounded => 27

section Reading

variable (codec : Codec) (limits : BackupCapacityLimits)

def decompressPayloadWithLimit (bytes : Bytes) (limit : BackupByteLimit) :
    Except BackupError Bytes := do
  if codec.windowLog bytes > windowLogMax limit then .error .compression
  let payload ← okOr .compression (codec.decodeAll bytes)
  limit.check payload.length
  return payload

def decodePayload (bytes : Bytes) (compression : BackupCompression) (limit : BackupByteLimit) :
    Except BackupError Bytes :=
  match compression with
  | .none => do
    limit.check bytes.length
    return bytes
  | .zstd => decompressPayloadWithLimit codec bytes limit

section Entries

variable {α : Type} (read : Bytes → Option α) (repository : Repository)
  (manifest : BackupSnapshotManifest)

/-- The entries of one blob, and the bytes that the stage has decoded with them. -/
def loadJsonlEntries (entry : TableBackupEntry) (stageBytes : Nat) :
    Except BackupError (List α × Nat) := do
  if manifest.database.exportFormat ≠ databaseExportFormat then
    .error (.unsupportedOperation s!"database export format {manifest.database.exportFormat}")
  let stored ← collectBackupStream (← repository.getBlob entry.contentKey) limits.bufferedBytes
  let remainingStage ← limits.stageBytes.remaining stageBytes
  let payload ← decodePayload codec stored manifest.database.compression
    (limits.decompressedBytes.min remainingStage)
  limits.stageBytes.check (stageBytes + payload.length)
  let entries ← parseJsonl read payload
  return (entries, stageBytes + payload.length)

def loadStage : Nat → List TableBackupEntry → Except BackupError (List (String × List α))
  | _, [] => .ok []
  | stageBytes, entry :: rest => do
    let loaded ← loadJsonlEntries codec limits read repository manifest entry stageBytes
    let others ← loadStage loaded.2 rest
    return (entry.tableName, loaded.1) :: others

end Entries

def loadTableExports (repository : Repository) (manifest : BackupSnapshotManifest) :
    Except BackupError (List BackupTableExport) := do
  let stage ← loadStage codec limits codec.readRow repository manifest 0 manifest.database.tables
  return stage.map fun table => ⟨table.1, table.2⟩

def loadChangeExports (repository : Repository) (manifest : BackupSnapshotManifest) :
    Except BackupError (List BackupChangeExport) := do
  let stage ← loadStage codec limits codec.readChange repository manifest 0
    manifest.database.changes
  return stage.flatMap Prod.snd

end Reading

/-! ### Verification -/

section Verification

variable (codec : Codec) (limits : BackupCapacityLimits) (repository : Repository)

def verifyObjectChecksums (manifest : BackupSnapshotManifest) : Except BackupError Unit := do
  manifest.objects.forM fun object => do
    let _ ← verifyBlobChecksum codec repository object.contentKey object.sha256Hex
  (manifest.database.tables ++ manifest.database.changes).forM fun entry => do
    let _ ← verifyBlobChecksum codec repository entry.contentKey entry.sha256Hex

def verifyManifestAndObjects (manifest : BackupSnapshotManifest) : Except BackupError Unit := do
  verifyManifestChecksum codec manifest
  verifyObjectChecksums codec repository manifest

def loadVerifiedChain (snapshotId : Uuid) : Except BackupError (List BackupSnapshotManifest) := do
  let chain ← loadManifestChain codec limits repository snapshotId
  chain.forM (verifyManifestAndObjects codec repository)
  return chain

end Verification

def Stored (codec : Codec) (repository : Repository) (contentKey sha256Hex : String) : Prop :=
  ∃ body, repository.get? contentKey = some body ∧ codec.sha256 body = sha256Hex

section Facts

variable {codec : Codec} {limits : BackupCapacityLimits} {repository repository' : Repository}
  {manifest : BackupSnapshotManifest} {contentKey sha256Hex : String} {size : Nat}

theorem verifyBlobChecksum_eq_ok :
    verifyBlobChecksum codec repository contentKey sha256Hex = .ok size ↔
      ∃ body, repository.get? contentKey = some body ∧ codec.sha256 body = sha256Hex ∧
        body.length = size := by
  unfold verifyBlobChecksum Repository.getBlob
  cases stored : repository.get? contentKey with
  | none => simp [okOr, bind, Except.bind]
  | some body =>
    by_cases same : codec.sha256 body = sha256Hex
    · simp [okOr, bind, Except.bind, pure, Except.pure, same]
    · simp [okOr, bind, Except.bind, same]

theorem verifyBlobChecksum_stored :
    (∃ size, verifyBlobChecksum codec repository contentKey sha256Hex = .ok size) ↔
      Stored codec repository contentKey sha256Hex := by
  simp only [verifyBlobChecksum_eq_ok, Stored]
  constructor
  · rintro ⟨_, body, found, same, _⟩
    exact ⟨body, found, same⟩
  · rintro ⟨body, found, same⟩
    exact ⟨body.length, body, found, same, rfl⟩

theorem Stored.congr (stored : Stored codec repository contentKey sha256Hex)
    (same : repository'.get? contentKey = repository.get? contentKey) :
    Stored codec repository' contentKey sha256Hex := by
  obtain ⟨body, found, digest⟩ := stored
  exact ⟨body, same.trans found, digest⟩

end Facts

end GraphqlOrm.Backup
