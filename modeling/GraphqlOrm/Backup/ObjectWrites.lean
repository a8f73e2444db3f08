import GraphqlOrm.Backup.Repository
import GraphqlOrm.Foundation.StableSort

/-!
# Writing objects

The tasks that copy objects into the repository under their checksums. At most a given number of
them is in flight, any of these makes the next step, and the first error drops the others where
they are.
-/
namespace GraphqlOrm.Backup

open Outcome Faulty
open Lease (Uuid)
open Storage (Bytes StorageByteStream)

/-- The application's objects. What a load returns may change from call to call, and
the calls are told apart by their number. -/
structure BackupObjectIndex where
  listFull : Except BackupError (List BackupObjectRef)
  listIncremental : Uuid → Except BackupError (List BackupObjectRef)
  loadObjectStream : BackupObjectRef → Nat → Except BackupError StorageByteStream

def drain : StorageByteStream → Except BackupError Bytes
  | [] => .ok []
  | .error e :: _ => .error (.ofStorage e)
  | .ok chunk :: rest => (drain rest).map (chunk ++ ·)

section Verify

variable (codec : Codec)

def verifyBlobChecksum (repository : Repository) (contentKey expectedSha256Hex : String) :
    Except BackupError Nat := do
  let body ← repository.getBlob contentKey
  let actual := codec.sha256 body
  if actual ≠ expectedSha256Hex then .error (.checksumMismatch contentKey expectedSha256Hex actual)
  return body.length

end Verify

/-! ### Tasks -/

/-- Where a task waits. A task that is `mismatched` has written its blob and has yet to
delete it. -/
inductive Stage where
  | starting
  | opened (source : StorageByteStream)
  | mismatched (actual : String)
  | reusing
  | checking

structure Task where
  index : Nat
  object : BackupObjectRef
  stage : Stage

inductive Progress where
  | goesOn (stage : Stage)
  | finished (entry : ObjectBackupEntry)
  | failed (error : BackupError)

def Progress.isFailed : Progress → Bool
  | failed _ => true
  | _ => false

def Task.contentKey (task : Task) : String := objectContentKey task.object.sha256Hex

def Task.mismatch (task : Task) (actual : String) : BackupError :=
  .checksumMismatch task.contentKey task.object.sha256Hex actual

def Task.entry (task : Task) (observedSize : Nat) : ObjectBackupEntry where
  objectId := task.object.objectId
  storageKey := task.object.storageKey
  contentKey := task.contentKey
  sha256Hex := task.object.sha256Hex
  sizeBytes := BitVec.ofNat 64 observedSize
  mimeType := task.object.mimeType

/-- `put_blob_stream_if_absent`: the bytes that were written, if any. The body is read to its end
first, and one that breaks off is not stored. -/
def putStreamIfAbsent (key : String) (source : StorageByteStream) (repository : Repository) :
    Except BackupError (Option Bytes) × Repository :=
  match drain source with
  | .error e => (.error e, repository)
  | .ok bytes =>
    if repository.contains key then (.ok none, repository)
    else (.ok (some bytes), repository.insert key bytes)

def Task.poll (codec : Codec) (objects : BackupObjectIndex) (task : Task) (fault : Option Fault)
    (repository : Repository) : Progress × Repository :=
  match task.stage with
  | .starting =>
    match objects.loadObjectStream task.object (2 * task.index) with
    | .error e => (.failed e, repository)
    | .ok source => (.goesOn (.opened source), repository)
  | .opened source =>
    let put := putStreamIfAbsent task.contentKey source repository
    match fault, put.1 with
    | some fault, _ => (.failed fault.error, if fault.effect then put.2 else repository)
    | none, .error e => (.failed e, put.2)
    | none, .ok none => (.goesOn .reusing, put.2)
    | none, .ok (some bytes) =>
      let actual := codec.sha256 bytes
      if actual = task.object.sha256Hex then (.finished (task.entry bytes.length), put.2)
      else (.goesOn (.mismatched actual), put.2)
  | .mismatched actual =>
    match fault with
    | some fault =>
      (.failed fault.error, if fault.effect then repository.erase task.contentKey else repository)
    | none => (.failed (task.mismatch actual), repository.erase task.contentKey)
  | .reusing =>
    -- The bytes of the source are compared again, whatever the repository holds.
    match (objects.loadObjectStream task.object (2 * task.index + 1)).bind drain with
    | .error e => (.failed e, repository)
    | .ok bytes =>
      let sourceChecksum := codec.sha256 bytes
      if sourceChecksum ≠ task.object.sha256Hex then (.failed (task.mismatch sourceChecksum), repository)
      else (.goesOn .checking, repository)
  | .checking =>
    match fault, verifyBlobChecksum codec repository task.contentKey task.object.sha256Hex with
    | some fault, _ => (.failed fault.error, repository)
    | none, .error e => (.failed e, repository)
    | none, .ok size => (.finished (task.entry size), repository)

/-! ### The pool -/

structure Pool where
  waiting : List Task
  running : List Task
  collected : List (Nat × ObjectBackupEntry)
  error : Option BackupError

namespace Pool

def start (objectRefs : List BackupObjectRef) : Pool where
  waiting := objectRefs.zipIdx.map fun entry => ⟨entry.2, entry.1, .starting⟩
  running := []
  collected := []
  error := none

/-- Nothing is left to run, or an error has dropped it. -/
def returned (pool : Pool) : Bool :=
  pool.error.isSome || pool.waiting.isEmpty && pool.running.isEmpty

def refill (concurrency : Nat) (pool : Pool) : Pool :=
  let free := concurrency - pool.running.length
  { pool with
    running := pool.running ++ pool.waiting.take free
    waiting := pool.waiting.drop free }

def settle (pool : Pool) (position : Nat) (task : Task) : Progress → Pool
  | .goesOn stage => { pool with running := pool.running.set position { task with stage } }
  | .finished entry =>
    { pool with
      running := pool.running.eraseIdx position
      collected := pool.collected ++ [(task.index, entry)] }
  | .failed error =>
    { pool with running := pool.running.eraseIdx position, error := some error }

section Step

variable (codec : Codec) (objects : BackupObjectIndex) (concurrency : Nat)

def pick (pool : Pool) (choice : Nat) : Nat := choice % pool.running.length

def step (choice : Nat) (fault : Option Fault) (pool : Pool) (repository : Repository) :
    Pool × Repository :=
  if pool.returned then (pool, repository)
  else
    let pool := pool.refill concurrency
    match pool.running[pool.pick choice]? with
    | none => (pool, repository)
    | some task =>
      let polled := task.poll codec objects fault repository
      (pool.settle (pool.pick choice) task polled.1, polled.2)

/-- Run for a number of steps, the next of which is the one at `position`. -/
def run (choose : Nat → Nat) : Nat → Nat → Pool → Operation Pool
  | 0, _, pool => .pure pool
  | fuel + 1, position, pool =>
    (Action.call fun fault repository =>
      let next := pool.step codec objects concurrency (choose position) fault repository
      (.ok next.1, next.2)).bind fun next => run choose fuel (position + 1) next

end Step

end Pool

/-- Copy the objects, the next step at each point made by the task that `choose` picks. No task
takes more than four steps. -/
def writeObjectEntries (codec : Codec) (objects : BackupObjectIndex)
    (objectRefs : List BackupObjectRef) (objectConcurrency : Nat) (choose : Nat → Nat) :
    Operation (List ObjectBackupEntry) :=
  (Pool.run codec objects (max objectConcurrency 1) choose (4 * objectRefs.length) 0
    (Pool.start objectRefs)).bind fun pool =>
  match pool.error with
  | some error => .throw error
  | none => .pure ((sortBy Prod.fst pool.collected).map Prod.snd)

end GraphqlOrm.Backup
