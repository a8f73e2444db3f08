import GraphqlOrm.Backup.Model
import GraphqlOrm.Foundation.Bytes

/-!
# The repository

A map from keys to blobs, the calls that are made on it, each of which may fail, and
the lock that every operation holds while it runs. Reading changes nothing, so the
reads that an operation makes in a row are one call.
-/
namespace GraphqlOrm.Backup

open Outcome Faulty
open Lease (Uuid)
open Storage (Bytes)

abbrev Repository : Type := OrderedMap String Bytes

/-- How a call fails, and whether it took effect before it did. -/
structure Fault where
  error : BackupError
  effect : Bool

abbrev Operation (α : Type) : Type := Action Repository Fault BackupError α

/-! ### Calls -/

section Calls

variable {α : Type}

def changing (act : Repository → α × Repository) : Operation α :=
  .call fun fault repository =>
    match fault with
    | none => (.ok (act repository).1, (act repository).2)
    | some fault => (.error fault.error, if fault.effect then (act repository).2 else repository)

def reading (look : Repository → Except BackupError α) : Operation α :=
  .call fun fault repository =>
    match fault with
    | none => (look repository, repository)
    | some fault => (.error fault.error, repository)

section Rules

variable {pre fail point : Repository → Prop} {post : α → Repository → Prop}

/-- A call that fails may have taken effect. -/
theorem triple_changing {act : Repository → α × Repository}
    (done : ∀ s, pre s → post (act s).1 (act s).2) (failed : ∀ s, pre s → fail s ∧ fail (act s).2)
    (visible : ∀ s, pre s → point s ∧ point (act s).2) :
    Triple pre (changing act) post (fun _ => fail) point := by
  refine Triple.call fun fault s holds => ?_
  cases fault with
  | none => exact ⟨done s holds, (visible s holds).2⟩
  | some fault =>
    simp only
    cases fault.effect
    · exact ⟨(failed s holds).1, (visible s holds).1⟩
    · exact ⟨(failed s holds).2, (visible s holds).2⟩

theorem triple_reading {look : Repository → Except BackupError α}
    (done : ∀ s a, pre s → look s = .ok a → post a s) (failed : ∀ s, pre s → fail s)
    (visible : ∀ s, pre s → point s) :
    Triple pre (reading look) post (fun _ => fail) point := by
  refine Triple.call fun fault s holds => ⟨?_, ?_⟩
  · cases fault with
    | some fault => exact failed s holds
    | none =>
      simp only
      cases value : look s with
      | ok a => exact done s a holds value
      | error e => exact failed s holds
  · cases fault <;> exact visible s holds

end Rules

def putBlob (key : String) (body : Bytes) : Operation Unit :=
  changing fun repository => ((), repository.insert key body)

/-- `put_blob_if_absent`: whether the blob was written. -/
def putBlobIfAbsent (key : String) (body : Bytes) : Operation Bool :=
  changing fun repository =>
    if repository.contains key then (false, repository) else (true, repository.insert key body)

def deleteBlob (key : String) : Operation Unit :=
  changing fun repository => ((), repository.erase key)

def Repository.getBlob (repository : Repository) (key : String) : Except BackupError Bytes :=
  okOr (.missingBlob key) (repository.get? key)

end Calls

/-! ### The lock -/

def repositoryLockKey : String := "locks/repository.lock"

/-- An existing lock is never taken over. -/
def acquireLock (now : Int) : Operation Unit :=
  (putBlobIfAbsent repositoryLockKey (Bytes.utf8 (toString now))).bind fun created =>
    if created then .pure () else .throw (.repositoryLocked repositoryLockKey)

/-- The lock is released whether the operation succeeds or not. Its error goes before
one of the release. -/
def withLock {α : Type} (now : Int) (operation : Operation α) : Operation α :=
  (acquireLock now).bind fun _ =>
  operation.attempt.bind fun result =>
  (deleteBlob repositoryLockKey).attempt.bind fun released =>
    match result, released with
    | .ok value, .ok () => .pure value
    | .error e, _ => .throw e
    | .ok _, .error e => .throw e

/-! ### Keys -/

def snapshotPath (snapshotId : Uuid) (name : String) : String :=
  "snapshots/" ++ UuidText.hyphenated snapshotId ++ "/" ++ name

def snapshotManifestKey (snapshotId : Uuid) : String := snapshotPath snapshotId "manifest.json"

def databaseTableKey (snapshotId : Uuid) (tableName : String) : String :=
  snapshotPath snapshotId ("database/tables/" ++ tableName ++ ".jsonl.zst")

def databaseChangesKey (snapshotId : Uuid) (tableName : String) : String :=
  snapshotPath snapshotId ("database/changes/" ++ tableName ++ ".jsonl.zst")

/-- The characters that make up the first `n` bytes, if these end between characters. -/
def byteTake : Nat → List Char → Option (List Char)
  | 0, _ => some []
  | _ + 1, [] => none
  | n + 1, c :: rest =>
    if c.utf8Size ≤ n + 1 then (byteTake (n + 1 - c.utf8Size) rest).map (c :: ·) else none

/-- `str::get(from..from + 2).unwrap_or("00")`. -/
def shard (first : Nat) (sha256Hex : String) : String :=
  match byteTake first sha256Hex.toList with
  | none => "00"
  | some front =>
    match byteTake 2 (sha256Hex.toList.drop front.length) with
    | none => "00"
    | some two => String.ofList two

def objectContentKey (sha256Hex : String) : String :=
  "objects/sha256/" ++ shard 0 sha256Hex ++ "/" ++ shard 2 sha256Hex ++ "/" ++ sha256Hex

def snapshotIdFromManifestKey (key : String) : Option Uuid := do
  let rest ← Bytes.stripLead "snapshots/" key
  let snapshotId ← Bytes.stripTail "/manifest.json" rest
  if snapshotId.toList.contains '/' then none else UuidText.parse snapshotId

theorem snapshotPath_toList (snapshotId : Uuid) (name : String) :
    (snapshotPath snapshotId name).toList =
      "snapshots/".toList ++ ((UuidText.hyphenated snapshotId).toList ++ '/' :: name.toList) := by
  simp [snapshotPath]

theorem snapshotPath_inj {a b : Uuid} {name other : String} :
    snapshotPath a name = snapshotPath b other ↔ a = b ∧ name = other := by
  refine ⟨fun same => ?_, fun ⟨left, right⟩ => left ▸ right ▸ rfl⟩
  have chars := congrArg String.toList same
  rw [snapshotPath_toList, snapshotPath_toList] at chars
  -- Identifiers have one length, so that the names start at one place.
  have lengths : (UuidText.hyphenated a).toList.length = (UuidText.hyphenated b).toList.length := by
    rw [UuidText.length_hyphenated, UuidText.length_hyphenated]
  obtain ⟨ids, names⟩ := List.append_inj (List.append_cancel_left chars) lengths
  exact ⟨UuidText.hyphenated_injective (String.toList_injective ids),
    String.toList_injective (List.cons.inj names).2⟩

theorem snapshotManifestKey_inj {a b : Uuid} :
    snapshotManifestKey a = snapshotManifestKey b ↔ a = b := by
  simp [snapshotManifestKey, snapshotPath_inj]

theorem head_snapshotPath (snapshotId : Uuid) (name : String) :
    (snapshotPath snapshotId name).toList.head? = some 's' := by
  rw [snapshotPath_toList]
  rfl

theorem head_objectContentKey (sha256Hex : String) :
    (objectContentKey sha256Hex).toList.head? = some 'o' := by
  have lead : "objects/sha256/".toList = 'o' :: "bjects/sha256/".toList := by simp
  unfold objectContentKey
  simp only [String.toList_append, List.append_assoc, lead, List.cons_append, List.head?_cons]

theorem objectContentKey_ne_snapshotPath (sha256Hex : String) (snapshotId : Uuid) (name : String) :
    objectContentKey sha256Hex ≠ snapshotPath snapshotId name := by
  intro same
  have heads := head_objectContentKey sha256Hex
  rw [same, head_snapshotPath] at heads
  simp at heads

theorem snapshotPath_ne_lock (snapshotId : Uuid) (name : String) :
    snapshotPath snapshotId name ≠ repositoryLockKey := by
  intro same
  have heads := head_snapshotPath snapshotId name
  rw [same] at heads
  exact absurd heads (by decide)

theorem objectContentKey_ne_lock (sha256Hex : String) :
    objectContentKey sha256Hex ≠ repositoryLockKey := by
  intro same
  have heads := head_objectContentKey sha256Hex
  rw [same] at heads
  exact absurd heads (by decide)

theorem length_utf8_byteTake {n : Nat} {cs front : List Char} (taken : byteTake n cs = some front) :
    (Bytes.utf8 (String.ofList front)).length = n := by
  induction cs generalizing n front with
  | nil =>
    cases n with
    | zero => cases taken; rfl
    | succ n => cases taken
  | cons c rest ih =>
    cases n with
    | zero => cases taken; rfl
    | succ n =>
      simp only [byteTake] at taken
      split at taken
      next fits =>
        obtain ⟨others, found, rfl⟩ := Option.map_eq_some_iff.mp taken
        have rest := ih found
        simp only [Bytes.utf8, String.toList_ofList, List.flatMap_cons, List.length_append,
          String.length_utf8EncodeChar] at rest ⊢
        omega
      · cases taken

theorem length_utf8_shard (first : Nat) (sha256Hex : String) :
    (Bytes.utf8 (shard first sha256Hex)).length = 2 := by
  unfold shard
  split
  · rfl
  · split
    · rfl
    next two => exact length_utf8_byteTake two

/-- The shards have two bytes each, so that the checksum starts at one place. -/
theorem objectContentKey_inj {a b : String} : objectContentKey a = objectContentKey b ↔ a = b := by
  refine ⟨fun same => ?_, fun same => same ▸ rfl⟩
  have bytes := congrArg Bytes.utf8 same
  unfold objectContentKey at bytes
  simp only [Bytes.utf8_append, List.append_assoc] at bytes
  have ⟨_, afterFirst⟩ := List.append_inj (List.append_cancel_left bytes)
    (by rw [length_utf8_shard, length_utf8_shard])
  have ⟨_, afterSecond⟩ := List.append_inj (List.append_cancel_left afterFirst)
    (by rw [length_utf8_shard, length_utf8_shard])
  exact Bytes.utf8_injective (List.append_cancel_left afterSecond)

/-! ### Listings -/

theorem snapshotIdFromManifestKey_own (snapshotId : Uuid) :
    snapshotIdFromManifestKey (snapshotManifestKey snapshotId) = some snapshotId := by
  have lead : snapshotManifestKey snapshotId =
      "snapshots/" ++ (UuidText.hyphenated snapshotId ++ "/manifest.json") := by
    apply String.toList_injective
    simp [snapshotManifestKey, snapshotPath]
  have slashless : (UuidText.hyphenated snapshotId).toList.contains '/' = false := by
    simpa using UuidText.notMem_hyphenated (by decide) (by decide) snapshotId
  simp only [snapshotIdFromManifestKey, lead, Bytes.stripLead_append, Bytes.stripTail_append,
    Option.bind_eq_bind, Option.bind_some, slashless, Bool.false_eq_true, if_false,
    UuidText.parse_hyphenated]

/-- The keys of payloads end differently. -/
theorem snapshotIdFromManifestKey_payload (snapshotId : Uuid) (name : String) :
    snapshotIdFromManifestKey (snapshotPath snapshotId (name ++ ".jsonl.zst")) = none := by
  unfold snapshotIdFromManifestKey
  cases lead : Bytes.stripLead "snapshots/" (snapshotPath snapshotId (name ++ ".jsonl.zst")) with
  | none => rfl
  | some rest =>
    cases tail : Bytes.stripTail "/manifest.json" rest with
    | none => simp only [Option.bind_eq_bind, Option.bind_some, tail, Option.bind_none]
    | some front =>
      exfalso
      have whole := Bytes.stripLead_eq_some lead
      rw [Bytes.stripTail_eq_some tail] at whole
      have ends := congrArg (fun text => text.toList.getLast?) whole
      simp [snapshotPath, List.getLast?_cons, List.getLast?_append] at ends

end GraphqlOrm.Backup
