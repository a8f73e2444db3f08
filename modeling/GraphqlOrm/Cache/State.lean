import GraphqlOrm.Foundation.Outcome
import GraphqlOrm.Foundation.Text
import GraphqlOrm.Lease.State

/-!
# Cache refresh state

The durable state, policies and claims of `cache_sync.rs`, and the three
transactions of the coordinator. A transaction is a function from the last
saved state to its outcome; the clock readings, the store and the callback of
the host are inputs, so a clock may move in either direction between two reads
and every store call may fail.
-/
namespace GraphqlOrm.Cache

open Lease Outcome

inductive OrmErrorCode where
  | invalidInput | unauthenticated | forbidden | notFound | conflict | constraintViolation
  | cursorInvalid | pageLimitExceeded | serviceUnavailable | internalError
  | authorizationMisconfigured

structure OrmPublicError where
  code : OrmErrorCode
  message : String

/-- Why a transaction did not commit. `overflow` is an unchecked operation out
of its range: a panic where overflow checks are on, a wrapped value elsewhere. -/
inductive Fault where
  | refused (error : OrmPublicError)
  | overflow

def invalid : Fault := .refused ⟨.invalidInput, "Invalid cache refresh policy or state"⟩

def conflict : Fault := .refused ⟨.conflict, "Cache refresh claim is no longer current"⟩

/-- Unchecked `+` on `i64`. -/
def plus (x y : Int64) : Except Fault Int64 := okOr .overflow (Checked.add x y)

/-- Unchecked `- 1` on `u32`. -/
def pred (x : UInt32) : Except Fault UInt32 := do
  require (x != 0) Fault.overflow
  return x - 1

def checkDeadline (now admitted expiresAt : Int64) : Except Fault Unit :=
  require (!(now < admitted || expiresAt ≤ now)) conflict

def milliseconds (seconds : Int64) : Except Fault Int64 :=
  okOr invalid ((Checked.mul seconds 1000).filter fun value => decide (0 ≤ value))

/-- Dataset and opaque partition identity. -/
structure CachePartitionKey where
  dataset : String
  partition : String

def CachePartitionKey.new (dataset partition : String) : Except Fault CachePartitionKey := do
  let key : CachePartitionKey := ⟨dataset, partition⟩
  require (!([key.dataset, key.partition].any fun s => s.isEmpty || 1024 < s.utf8ByteSize)) invalid
  return key

/-- Per-dataset timing policy in seconds. -/
structure RefreshPolicy where
  freshFor : Int64
  cooldown : Int64
  leaseFor : Int64
  retryBackoff : Int64
  maxBackoff : Int64

def RefreshPolicy.validate (policy : RefreshPolicy) (now : Int64) : Except Fault Unit := do
  require (!(now < 0 || policy.freshFor ≤ 0 || policy.cooldown ≤ 0 || policy.leaseFor ≤ 0
    || policy.retryBackoff ≤ 0 || policy.maxBackoff < policy.retryBackoff
    || [policy.freshFor, policy.cooldown, policy.leaseFor, policy.maxBackoff].any
      fun d => (Checked.add now d).isNone)) invalid
  let _ ← milliseconds (← plus now policy.leaseFor)
  let _ ← milliseconds policy.leaseFor

inductive RefreshFailure where
  | unavailable | throttled | prerequisite | invalidCandidate | resourceLimit

/-- Durable metadata persisted beside a cache projection. -/
structure CacheState where
  generation : Int64 := 0
  lastAttempt : Option Int64 := none
  lastSuccess : Option Int64 := none
  sourceObservedAt : Option Int64 := none
  freshUntil : Option Int64 := none
  nextAttempt : Int64 := 0
  consecutiveFailures : UInt32 := 0
  failure : Option RefreshFailure := none
  rows : Int64 := 0
  lease : Option FencedLeaseState := none

/-- Owned refresh fence returned only after a durable claim commit. -/
structure RefreshClaim where
  key : CachePartitionKey
  proof : LeaseProof
  rowVersion : Int64
  baseGeneration : Int64
  policy : RefreshPolicy

/-- Run a lease method and hide its error, as `map_err(|_| conflict())` does. -/
def leaseCall {α : Type} (method : LeaseM α) (lease : FencedLeaseState) :
    Except Fault (α × FencedLeaseState) :=
  match method.on lease with
  | (.ok value, after) => .ok (value, after)
  | (.error _, _) => .error conflict

namespace CacheState

def isFresh (s : CacheState) (now : Int64) : Bool :=
  0 < s.generation && s.freshUntil.any fun «until» => decide (now < «until»)

def refreshExpiresAt (s : CacheState) : Option Int64 :=
  (s.lease.bind (·.expiresAtMs)).map (· / 1000)

def refreshInProgress (s : CacheState) (now : Int64) : Bool :=
  match milliseconds now with
  | .ok nowMs => s.lease.any (·.isActive nowMs)
  | .error _ => false

def checkClaim (s : CacheState) (claim : RefreshClaim) (now : Int64) : Except Fault Unit := do
  require (!(now < s.lastAttempt.getD 0 || s.generation != claim.baseGeneration)) conflict
  let lease ← okOr conflict s.lease
  let _ ← leaseCall (FencedLeaseState.validate claim.proof (← milliseconds now) claim.rowVersion)
    lease

def releaseClaim (s : CacheState) (claim : RefreshClaim) (now : Int64) :
    Except Fault CacheState := do
  let lease ← okOr conflict s.lease
  let (_, lease) ←
    leaseCall (FencedLeaseState.release claim.proof (← milliseconds now) claim.rowVersion) lease
  return { s with lease := some lease }

end CacheState

/-! ### The three transactions -/

/-- Outcomes of the host's calls inside one transaction, and of its commit. -/
structure Host where
  load : Except OrmPublicError Unit := .ok ()
  apply : Except OrmPublicError Unit := .ok ()
  save : Except OrmPublicError Unit := .ok ()
  commit : Except OrmPublicError Unit := .ok ()

/-- A host call's error refuses the transaction. -/
def hosted (outcome : Except OrmPublicError Unit) : Except Fault Unit :=
  outcome.mapError Fault.refused

/-- The clock readings of one transaction, in the order they are taken. Only
promotion reads `completed`. -/
structure Readings where
  first : Int64
  now : Int64
  completed : Int64
  last : Int64

inductive RefreshAdmission where
  | claimed (claim : RefreshClaim)
  | inProgress
  | notDue

/-- Announced to subscribers once the promotion has committed. -/
structure CommittedCacheChange where
  key : CachePartitionKey
  generation : Int64

/-- `Uuid::to_string`: hyphenated lower-case hexadecimal. -/
def uuidText (id : Uuid) : String :=
  let digits := id.toHex.toList
  String.ofList (digits.take 8 ++ ['-'] ++ (digits.drop 8).take 4 ++ ['-'] ++
    (digits.drop 12).take 4 ++ ['-'] ++ (digits.drop 16).take 4 ++ ['-'] ++ digits.drop 20)

/-- `serde_json::to_string(&(dataset, partition))`. -/
def resourceIdOf (key : CachePartitionKey) : String :=
  "[" ++ Text.jsonString key.dataset ++ "," ++ Text.jsonString key.partition ++ "]"

def claim (key : CachePartitionKey) (policy : RefreshPolicy) (force : Bool) (attempt : Uuid)
    (clock : Readings) (host : Host) (s : CacheState) :
    Except Fault (RefreshAdmission × CacheState) := do
  policy.validate clock.first
  let _ ← CachePartitionKey.new key.dataset key.partition
  hosted host.load
  let now := clock.now
  policy.validate now
  if s.refreshInProgress now then
    hosted host.commit
    return (.inProgress, s)
  else if now < s.nextAttempt || (!force && s.isFresh now) then
    hosted host.commit
    return (.notDue, s)
  else
    require (!(s.generation < 0 || (Checked.add s.generation 1).isNone)) invalid
    let resourceId := resourceIdOf key
    let lease := s.lease.getD (FencedLeaseState.new resourceId 0)
    require (lease.resourceId == resourceId) conflict
    let (proof, lease) ← leaseCall (FencedLeaseState.claim (uuidText attempt) attempt
      (← milliseconds now) (← milliseconds policy.leaseFor) lease.rowVersion) lease
    let nextAttempt ← plus now policy.cooldown
    let saved := { s with lease := some lease, lastAttempt := some now, nextAttempt := nextAttempt }
    hosted host.save
    checkDeadline clock.last now (← plus now policy.leaseFor)
    hosted host.commit
    return (.claimed ⟨key, proof, lease.rowVersion, s.generation, policy⟩, saved)

def promote (claim : RefreshClaim) (rows : Int64) (sourceObservedAt : Option Int64)
    (clock : Readings) (host : Host) (s : CacheState) :
    Except Fault (CommittedCacheChange × CacheState) := do
  claim.policy.validate clock.first
  hosted host.load
  let now := clock.now
  claim.policy.validate now
  require (!(rows < 0 || sourceObservedAt.any fun t => t < 0 || now < t)) invalid
  s.checkClaim claim now
  let generation ← okOr invalid (Checked.add s.generation 1)
  let expiresAt ← okOr conflict s.refreshExpiresAt
  hosted host.apply
  let completed := clock.completed
  claim.policy.validate completed
  checkDeadline completed now expiresAt
  s.checkClaim claim completed
  let freshUntil ← plus completed claim.policy.freshFor
  let promoted := { s with
    generation := generation, rows := rows, lastSuccess := some completed,
    sourceObservedAt := sourceObservedAt, freshUntil := some freshUntil }
  let released ← promoted.releaseClaim claim completed
  let saved := { released with failure := none, consecutiveFailures := 0 }
  hosted host.save
  checkDeadline clock.last completed expiresAt
  hosted host.commit
  return (⟨claim.key, generation⟩, saved)

/-- The backoff of the `failures`-th consecutive failure. -/
def backoffFor (policy : RefreshPolicy) (failures : UInt32) : Except Fault Int64 := do
  let exponent ← pred failures
  return min (Checked.saturatingMul policy.retryBackoff
    ((Checked.shiftOne (min exponent 62)).getD Int64.maxValue)) policy.maxBackoff

/-- Record a failed attempt without altering committed data. -/
def fail (claim : RefreshClaim) (failure : RefreshFailure) (clock : Readings) (host : Host)
    (s : CacheState) : Except Fault (Unit × CacheState) := do
  claim.policy.validate clock.first
  hosted host.load
  let now := clock.now
  claim.policy.validate now
  s.checkClaim claim now
  let expiresAt ← okOr conflict s.refreshExpiresAt
  let released ← s.releaseClaim claim now
  let failures := Checked.saturatingSucc released.consecutiveFailures
  let backoff ← backoffFor claim.policy failures
  let earliest ← plus now backoff
  let saved := { released with
    failure := some failure, consecutiveFailures := failures
    nextAttempt := max released.nextAttempt earliest }
  hosted host.save
  checkDeadline clock.last now expiresAt
  hosted host.commit
  return ((), saved)

end GraphqlOrm.Cache
