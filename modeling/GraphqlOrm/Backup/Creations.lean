import GraphqlOrm.Backup.ObjectPool
import GraphqlOrm.Backup.Snapshots

/-!
# What a creation writes

The blobs of a new snapshot: its payloads, objects that were missing and, at the end, its
manifest. Everything else stays as it was, whatever fails.
-/
namespace GraphqlOrm.Backup

open Outcome Faulty
open Lease (Uuid)
open Storage (Bytes)

def IsPayloadKey (snapshotId : Uuid) (key : String) : Prop :=
  ∃ name, key = snapshotPath snapshotId (name ++ ".jsonl.zst")

theorem isPayloadKey_table (snapshotId : Uuid) (tableName : String) :
    IsPayloadKey snapshotId (databaseTableKey snapshotId tableName) :=
  ⟨"database/tables/" ++ tableName, rfl⟩

theorem isPayloadKey_changes (snapshotId : Uuid) (tableName : String) :
    IsPayloadKey snapshotId (databaseChangesKey snapshotId tableName) :=
  ⟨"database/changes/" ++ tableName, rfl⟩

theorem snapshotPath_middle_inj {snapshotId : Uuid} {front back a b : String} :
    snapshotPath snapshotId (front ++ a ++ back) = snapshotPath snapshotId (front ++ b ++ back) ↔
      a = b := by
  refine ⟨fun same => ?_, fun same => same ▸ rfl⟩
  have names := congrArg String.toList (snapshotPath_inj.mp same).2
  simp only [String.toList_append, List.append_assoc] at names
  exact String.toList_injective (List.append_cancel_right (List.append_cancel_left names))

theorem databaseTableKey_inj {snapshotId : Uuid} {a b : String} :
    databaseTableKey snapshotId a = databaseTableKey snapshotId b ↔ a = b :=
  snapshotPath_middle_inj

theorem databaseChangesKey_inj {snapshotId : Uuid} {a b : String} :
    databaseChangesKey snapshotId a = databaseChangesKey snapshotId b ↔ a = b :=
  snapshotPath_middle_inj

theorem manifestKey_not_payload (snapshotId other : Uuid) :
    ¬ IsPayloadKey other (snapshotManifestKey snapshotId) := by
  rintro ⟨name, same⟩
  have read := snapshotIdFromManifestKey_payload other name
  rw [← same, snapshotIdFromManifestKey_own] at read
  cases read

theorem lock_not_payload (snapshotId : Uuid) : ¬ IsPayloadKey snapshotId repositoryLockKey := by
  rintro ⟨name, same⟩
  exact snapshotPath_ne_lock snapshotId _ same.symm

/-! ### The lock -/

def LockBlind (property : Repository → Prop) : Prop :=
  ∀ repository repository', (∀ key, key ≠ repositoryLockKey →
    repository'.get? key = repository.get? key) → property repository → property repository'

section

variable {property : Repository → Prop} (blind : LockBlind property) {repository : Repository}
    (holds : property repository)
include blind holds

theorem LockBlind.insert (body : Bytes) :
    property (repository.insert repositoryLockKey body) :=
  blind _ _ (fun key apart => by rw [OrderedMap.get?_insert, if_neg apart]) holds

theorem LockBlind.erase :
    property (repository.erase repositoryLockKey) :=
  blind _ _ (fun key apart => by rw [OrderedMap.get?_erase, if_neg apart]) holds

end

section Lock

variable {α : Type} {pre fail : Repository → Prop} {post : α → Repository → Prop}
  {operation : Operation α}

private theorem triple_acquireLock (now : Int) (blind : LockBlind pre) :
    Triple pre (acquireLock now) (fun _ => pre) (fun _ => pre) pre := by
  have after (s : Repository) (holds : pre s) : pre (if s.contains repositoryLockKey then (false, s)
      else (true, s.insert repositoryLockKey (Bytes.utf8 (toString now)))).2 := by
    split
    · exact holds
    · exact blind.insert holds _
  have created : Triple pre (putBlobIfAbsent repositoryLockKey (Bytes.utf8 (toString now)))
      (fun _ => pre) (fun _ => pre) pre :=
    triple_changing after (fun s holds => ⟨holds, after s holds⟩) fun s holds => ⟨holds, after s holds⟩
  refine created.bind fun done => ?_
  cases done
  · exact Triple.throw fun _ holds => holds
  · exact Triple.pure fun _ holds => holds

private theorem triple_releaseLock {property : Repository → Prop} (blind : LockBlind property) :
    Triple property (deleteBlob repositoryLockKey) (fun _ => property) (fun _ => property)
      property :=
  triple_changing (fun _ holds => blind.erase holds) (fun _ holds => ⟨holds, blind.erase holds⟩)
    fun _ holds => ⟨holds, blind.erase holds⟩

/-- What an operation does under the lock it does with it, as far as no one looks at the lock. -/
theorem triple_withLock (now : Int) (blindPre : LockBlind pre) (blindFail : LockBlind fail)
    (blindPost : ∀ a, LockBlind (post a))
    (inner : Triple pre operation post (fun _ => fail) fail) (refused : ∀ s, pre s → fail s)
    (unreleased : ∀ a s, post a s → fail s) :
    Triple pre (withLock now operation) post (fun _ => fail) fail := by
  refine Triple.through (fun _ => pre) ((triple_acquireLock now blindPre).weaken (fun _ h => h)
    (fun _ _ h => h) (fun _ s h => refused s h) fun s h => refused s h) fun _ => ?_
  let known (result : Except BackupError α) (s : Repository) : Prop :=
    match result with
    | .ok a => post a s
    | .error _ => fail s
  refine Triple.through known (inner.attempt known (fun _ _ h => h) fun _ _ h => h) fun result => ?_
  have blind : LockBlind (known result) := by
    cases result with
    | ok a => exact blindPost a
    | error e => exact blindFail
  have visible (s : Repository) (holds : known result s) : fail s := by
    cases result with
    | ok a => exact unreleased a s holds
    | error e => exact holds
  refine Triple.through (fun _ => known result) (((triple_releaseLock blind).weaken (fun _ h => h)
    (fun _ _ h => h) (fun _ _ h => h) visible).attempt (fun _ => known result) (fun _ _ h => h)
    fun _ _ h => h) fun released => ?_
  cases result with
  | error e => cases released <;> exact Triple.throw fun _ holds => holds
  | ok a =>
    cases released with
    | error e => exact Triple.throw fun s holds => unreleased a s holds
    | ok _ => exact Triple.pure fun _ holds => holds

end Lock

/-! ### What else changes -/

/-- Apart from its own blobs and the lock, an operation only adds objects. -/
structure Touches (own : String → Prop) (origin repository : Repository) : Prop where
  kept : ∀ key body, ¬ own key → key ≠ repositoryLockKey → origin.get? key = some body →
    repository.get? key = some body
  others : ∀ key, ¬ own key → key ≠ repositoryLockKey → (∀ sha256Hex, key ≠ objectContentKey sha256Hex) →
    repository.get? key = origin.get? key

section Touches

variable {own own' : String → Prop} {origin repository repository' : Repository} {key : String}
  {body : Bytes}

theorem Touches.refl (own : String → Prop) (origin : Repository) : Touches own origin origin :=
  ⟨fun _ _ _ _ found => found, fun _ _ _ _ => rfl⟩

theorem Touches.insert (touches : Touches own origin repository) (mine : own key) :
    Touches own origin (repository.insert key body) := by
  have apart {other : String} (foreign : ¬ own other) :
      (repository.insert key body).get? other = repository.get? other := by
    rw [OrderedMap.get?_insert, if_neg]
    rintro rfl
    exact foreign mine
  exact ⟨fun other old foreign unlocked found =>
      (apart foreign).trans (touches.kept other old foreign unlocked found),
    fun other foreign unlocked noObject =>
      (apart foreign).trans (touches.others other foreign unlocked noObject)⟩

theorem Touches.widen (touches : Touches own origin repository) (wider : ∀ key, own key → own' key) :
    Touches own' origin repository where
  kept key body apart := touches.kept key body fun mine => apart (wider key mine)
  others key apart := touches.others key fun mine => apart (wider key mine)

theorem Touches.adds (touches : Touches own origin repository)
    (adds : AddsObjects repository repository') : Touches own origin repository' where
  kept key body apart unlocked found :=
    adds.kept key body (touches.kept key body apart unlocked found)
  others key apart unlocked noObject :=
    (adds.others key noObject).trans (touches.others key apart unlocked noObject)

theorem lockBlind_touches (own : String → Prop) (origin : Repository) :
    LockBlind (Touches own origin) := by
  intro repository repository' same touches
  exact ⟨fun key body apart unlocked found =>
      (same key unlocked).trans (touches.kept key body apart unlocked found),
    fun key apart unlocked noObject =>
      (same key unlocked).trans (touches.others key apart unlocked noObject)⟩

/-- Manifests that are not the operation's own stay as they are. -/
theorem Touches.loadManifest_eq (touches : Touches own origin repository) (codec : Codec)
    (limits : BackupCapacityLimits) {snapshotId : Uuid}
    (apart : ¬ own (snapshotManifestKey snapshotId)) :
    loadManifest codec limits repository snapshotId = loadManifest codec limits origin snapshotId :=
  loadManifest_congr (touches.others _ apart (snapshotPath_ne_lock _ _) fun sha256Hex =>
    (objectContentKey_ne_snapshotPath sha256Hex _ _).symm)

end Touches

/-! ### Payloads -/

section Payloads

variable {codec : Codec} {own : String → Prop} {origin : Repository} {key : String → String}

theorem triple_putPayloads (injective : ∀ a b, key a = key b → a = b) (mine : ∀ name, own (key name))
    (payloads : List Payload) :
    Triple (Touches own origin) (putPayloads codec key payloads)
      (fun entries repository => Touches own origin repository ∧
        entries = payloads.map (payloadEntry codec key) ∧
        ((payloads.map Payload.tableName).Nodup →
          ∀ payload ∈ payloads, repository.get? (key payload.tableName) = some payload.bytes))
      (fun _ => Touches own origin) (Touches own origin) := by
  let inv (front : List Payload) (entries : List TableBackupEntry) (repository : Repository) : Prop :=
    Touches own origin repository ∧ entries = front.map (payloadEntry codec key) ∧
      ((front.map Payload.tableName).Nodup →
        ∀ payload ∈ front, repository.get? (key payload.tableName) = some payload.bytes)
  refine Triple.weaken (Triple.collect inv fun front payload outs _ => ?_)
    (fun s touches => ⟨touches, rfl, fun _ _ mem => by cases mem⟩) (fun _ _ h => h)
    (fun _ _ h => h) fun _ h => h
  refine Triple.through (fun _ s => inv (front ++ [payload]) (outs ++ [payloadEntry codec key payload]) s)
    (triple_changing ?_ ?_ ?_) fun _ => Triple.pure fun _ h => h
  · rintro s ⟨touches, rfl, present⟩
    refine ⟨touches.insert (mine _), by simp, fun distinct other mem => ?_⟩
    rw [List.map_append, List.nodup_append] at distinct
    rw [OrderedMap.get?_insert]
    rcases List.mem_append.mp mem with before | here
    · -- A later payload has another table, and so another key.
      have apart : other.tableName ≠ payload.tableName :=
        distinct.2.2 _ (List.mem_map_of_mem before) _ (by simp)
      rw [if_neg fun same => apart (injective _ _ same), present distinct.1 other before]
    · rw [List.mem_singleton.mp here, if_pos rfl]
  · rintro s ⟨touches, _⟩
    exact ⟨touches, touches.insert (mine _)⟩
  · rintro s ⟨touches, _⟩
    exact ⟨touches, touches.insert (mine _)⟩

end Payloads

/-! ### The manifest -/

section Written

variable {codec : Codec} {limits : BackupCapacityLimits}

/-- The manifest is the one that the request, the schema and the entries give. -/
def Creation.Describes (codec : Codec) : Creation → BackupSnapshotManifest → Prop
  | full _ database _ request _ _, manifest =>
    ∃ schema tables objects, database.schemaSnapshot = .ok schema ∧
      manifest = setManifestChecksum codec (fullManifest request schema tables objects)
  | incremental _ database _ request _ _, manifest =>
    ∃ schema changes objects tombstones, database.schemaSnapshot = .ok schema ∧
      manifest = setManifestChecksum codec
        (incrementalManifest request schema changes objects tombstones)
  | compact _ request, manifest =>
    ∃ latest tables objects,
      manifest = setManifestChecksum codec (syntheticManifest request latest tables objects)

def Creation.DistinctTables : Creation → Prop
  | full _ database _ _ _ _ =>
    ∀ tables, database.exportFull = .ok tables → (tables.map BackupTableExport.tableName).Nodup
  | incremental .. => True
  | compact .. => True

def Creation.Own (creation : Creation) (key : String) : Prop :=
  IsPayloadKey creation.snapshotId key ∨ key = snapshotManifestKey creation.snapshotId

def Recorded (codec : Codec) (limits : BackupCapacityLimits) (repository : Repository)
    (object : ObjectBackupEntry) : Prop :=
  ∃ snapshotId manifest, loadManifest codec limits repository snapshotId = .ok manifest ∧
    ∃ recorded ∈ manifest.objects, recorded.contentKey = object.contentKey ∧
      recorded.sha256Hex = object.sha256Hex

/-- What the manifest lists is addressed as it should be, and stored. -/
structure Creation.Listed (codec : Codec) (limits : BackupCapacityLimits) (creation : Creation)
    (origin : Repository) (manifest : BackupSnapshotManifest) (repository : Repository) : Prop where
  payloadKeys : ∀ entry ∈ manifest.database.tables ++ manifest.database.changes,
    IsPayloadKey creation.snapshotId entry.contentKey
  payloads : creation.DistinctTables →
    ∀ entry ∈ manifest.database.tables ++ manifest.database.changes,
      Stored codec repository entry.contentKey entry.sha256Hex
  objectKeys : ∀ object ∈ manifest.objects,
    object.contentKey = objectContentKey object.sha256Hex ∨ Recorded codec limits origin object
  objects : ∀ object ∈ manifest.objects, object.contentKey = objectContentKey object.sha256Hex →
    Stored codec repository object.contentKey object.sha256Hex

/-- The state after a creation that has returned its manifest. -/
structure Creation.Written (codec : Codec) (limits : BackupCapacityLimits) (creation : Creation)
    (origin : Repository) (manifest : BackupSnapshotManifest) (repository : Repository) : Prop
    extends creation.Listed codec limits origin manifest repository where
  touches : Touches creation.Own origin repository
  stored : repository.get? (snapshotManifestKey creation.snapshotId) =
    some (codec.manifestPretty manifest)
  signed : manifestChecksum codec manifest = manifest.checksum
  describes : creation.Describes codec manifest

def Creation.Between (codec : Codec) (limits : BackupCapacityLimits) (creation : Creation)
    (origin repository : Repository) : Prop :=
  Touches (IsPayloadKey creation.snapshotId) origin repository ∨
    ∃ manifest, creation.Written codec limits origin manifest repository

theorem manifestChecksum_set (manifest : BackupSnapshotManifest) :
    manifestChecksum codec (setManifestChecksum codec manifest) =
      (setManifestChecksum codec manifest).checksum := rfl

theorem Creation.Describes.snapshotId {creation : Creation} {manifest : BackupSnapshotManifest}
    (describes : creation.Describes codec manifest) :
    manifest.snapshotId = creation.snapshotId := by
  cases creation with
  | full =>
    obtain ⟨_, _, _, _, rfl⟩ := describes
    rfl
  | incremental =>
    obtain ⟨_, _, _, _, _, rfl⟩ := describes
    rfl
  | compact =>
    obtain ⟨_, _, _, rfl⟩ := describes
    rfl

theorem Creation.lockBlind_written (creation : Creation) (origin : Repository)
    (manifest : BackupSnapshotManifest) :
    LockBlind (creation.Written codec limits origin manifest) := by
  intro repository repository' same written
  have moved {contentKey sha256Hex : String} (apart : contentKey ≠ repositoryLockKey)
      (stored : Stored codec repository contentKey sha256Hex) :
      Stored codec repository' contentKey sha256Hex := stored.congr (same contentKey apart)
  refine ⟨⟨written.payloadKeys, fun distinct entry mem => ?_, written.objectKeys,
    fun object mem key => ?_⟩, lockBlind_touches _ _ _ _ same written.touches,
    (same _ (snapshotPath_ne_lock _ _)).trans written.stored, written.signed, written.describes⟩
  · refine moved ?_ (written.payloads distinct entry mem)
    rintro locked
    exact lock_not_payload _ (locked ▸ written.payloadKeys entry mem)
  · refine moved ?_ (written.objects object mem key)
    rw [key]
    exact objectContentKey_ne_lock _

theorem Creation.lockBlind_between (creation : Creation) (origin : Repository) :
    LockBlind (creation.Between codec limits origin) := by
  rintro repository repository' same (touches | ⟨manifest, written⟩)
  · exact .inl (lockBlind_touches _ _ _ _ same touches)
  · exact .inr ⟨manifest, creation.lockBlind_written origin manifest _ _ same written⟩

/-- The last call of a creation puts the manifest. -/
theorem triple_writeManifest {creation : Creation} {origin : Repository} {pre : Repository → Prop}
    {manifest : BackupSnapshotManifest} (own : manifest.snapshotId = creation.snapshotId)
    (before : ∀ s, pre s → Touches (IsPayloadKey creation.snapshotId) origin s)
    (after : ∀ s, pre s → creation.Written codec limits origin (setManifestChecksum codec manifest)
      (s.insert (snapshotManifestKey creation.snapshotId)
        (codec.manifestPretty (setManifestChecksum codec manifest)))) :
    Triple pre (writeManifest codec manifest) (creation.Written codec limits origin)
      (fun _ => creation.Between codec limits origin) (creation.Between codec limits origin) := by
  have key : snapshotManifestKey (setManifestChecksum codec manifest).snapshotId =
      snapshotManifestKey creation.snapshotId := congrArg snapshotManifestKey own
  unfold writeManifest
  simp only [key]
  refine Triple.through (fun _ => creation.Written codec limits origin
    (setManifestChecksum codec manifest)) (triple_changing after ?_ ?_)
    fun _ => Triple.pure fun _ h => h
  · exact fun s holds => ⟨.inl (before s holds), .inr ⟨_, after s holds⟩⟩
  · exact fun s holds => ⟨.inl (before s holds), .inr ⟨_, after s holds⟩⟩

end Written

end GraphqlOrm.Backup
