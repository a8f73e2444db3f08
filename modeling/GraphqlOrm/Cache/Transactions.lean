import GraphqlOrm.Cache.State
import GraphqlOrm.Lease.Runs

/-!
# What a committed refresh transaction did

One inversion lemma per transaction: a success names every guard that was
passed and the exact state that was saved. No transaction can fail with an
arithmetic overflow, because validation is repeated on the very clock reading
the later sums use.
-/
namespace GraphqlOrm.Cache

open Lease Outcome

/-! ### Arithmetic under a validated policy -/

/-- The facts `RefreshPolicy::validate` establishes at a clock reading. -/
structure Validated (policy : RefreshPolicy) (now : Int64) : Prop where
  clock : 0 ≤ now.toInt
  fresh : 0 < policy.freshFor.toInt
  cooldown : 0 < policy.cooldown.toInt
  lease : 0 < policy.leaseFor.toInt
  retry : 0 < policy.retryBackoff.toInt
  backoff : policy.retryBackoff.toInt ≤ policy.maxBackoff.toInt
  freshSum : now.toInt + policy.freshFor.toInt < 2 ^ 63
  cooldownSum : now.toInt + policy.cooldown.toInt < 2 ^ 63
  backoffSum : now.toInt + policy.maxBackoff.toInt < 2 ^ 63
  leaseMillis : (now.toInt + policy.leaseFor.toInt) * 1000 < 2 ^ 63

theorem milliseconds_eq_ok {x y : Int64} :
    milliseconds x = .ok y ↔ y.toInt = x.toInt * 1000 ∧ 0 ≤ y.toInt := by
  have thousand : (1000 : Int64).toInt = 1000 := rfl
  simp only [milliseconds, okOr_eq_ok, Option.filter_eq_some_iff, Checked.mul_eq_some, thousand,
    decide_eq_true_eq, Int64.le_iff_toInt_le, Int64.toInt_zero]

theorem plus_eq_ok {x y z : Int64} : plus x y = .ok z ↔ z.toInt = x.toInt + y.toInt := by
  simp [plus, okOr_eq_ok]

theorem plus_ne_error {x y : Int64} {fault : Fault} (fits : Checked.InRange (x.toInt + y.toInt)) :
    plus x y ≠ .error fault := by
  obtain ⟨z, sum, _⟩ := Checked.exists_add fits
  simp [plus, Outcome.okOr, sum]

theorem add_isNone_eq_false {x y : Int64} :
    (Checked.add x y).isNone = false ↔ Checked.InRange (x.toInt + y.toInt) := by
  rw [Option.isNone_eq_false_iff, Option.isSome_iff_ne_none, Ne, Checked.add,
    Checked.narrow_eq_none, not_not]

/-- Everything the first guard of `validate` rules out. -/
theorem durations_iff (policy : RefreshPolicy) (now : Int64) :
    (!(now < 0 || policy.freshFor ≤ 0 || policy.cooldown ≤ 0 || policy.leaseFor ≤ 0
      || policy.retryBackoff ≤ 0 || policy.maxBackoff < policy.retryBackoff
      || [policy.freshFor, policy.cooldown, policy.leaseFor, policy.maxBackoff].any
        fun d => (Checked.add now d).isNone)) = true ↔
    0 ≤ now.toInt ∧ 0 < policy.freshFor.toInt ∧ 0 < policy.cooldown.toInt ∧
      0 < policy.leaseFor.toInt ∧ 0 < policy.retryBackoff.toInt ∧
      policy.retryBackoff.toInt ≤ policy.maxBackoff.toInt ∧
      Checked.InRange (now.toInt + policy.freshFor.toInt) ∧
      Checked.InRange (now.toInt + policy.cooldown.toInt) ∧
      Checked.InRange (now.toInt + policy.leaseFor.toInt) ∧
      Checked.InRange (now.toInt + policy.maxBackoff.toInt) := by
  simp only [List.any_cons, List.any_nil, Bool.or_false, Bool.not_eq_true', Bool.or_eq_false_iff,
    decide_eq_false_iff_not, Int64.lt_iff_toInt_lt, Int64.le_iff_toInt_le, Int64.toInt_zero,
    add_isNone_eq_false, not_lt, not_le, and_assoc]

theorem validate_eq_ok {policy : RefreshPolicy} {now : Int64} :
    policy.validate now = .ok () ↔ Validated policy now := by
  simp only [RefreshPolicy.validate, bind_eq_ok, require_eq_ok, durations_iff, plus_eq_ok,
    milliseconds_eq_ok, pure, Except.pure, and_true]
  constructor
  · rintro ⟨_, ⟨clock, fresh, cooldown, lease, retry, backoff, freshSum, cooldownSum, _,
      backoffSum⟩, sum, sumValue, millis, ⟨millisValue, _⟩, _⟩
    have bound := millis.toInt_lt
    exact ⟨clock, fresh, cooldown, lease, retry, backoff, freshSum.2, cooldownSum.2, backoffSum.2,
      by rw [← sumValue, ← millisValue]; exact bound⟩
  · intro h
    obtain ⟨clock, fresh, cooldown, lease, retry, backoff, freshSum, cooldownSum, backoffSum,
      leaseMillis⟩ := h
    have inRange (n : Int) (low : 0 ≤ n) (high : n < 2 ^ 63) : Checked.InRange n := ⟨by omega, high⟩
    obtain ⟨sum, _, sumValue⟩ := Checked.exists_narrow
      (inRange (now.toInt + policy.leaseFor.toInt) (by omega) (by omega))
    obtain ⟨millis, _, millisValue⟩ := Checked.exists_narrow
      (inRange ((now.toInt + policy.leaseFor.toInt) * 1000) (by omega) leaseMillis)
    obtain ⟨ttl, _, ttlValue⟩ := Checked.exists_narrow
      (inRange (policy.leaseFor.toInt * 1000) (by omega) (by omega))
    refine ⟨(), ⟨clock, fresh, cooldown, lease, retry, backoff, inRange _ (by omega) freshSum,
      inRange _ (by omega) cooldownSum, inRange _ (by omega) (by omega),
      inRange _ (by omega) backoffSum⟩, sum, sumValue, millis, ⟨by rw [millisValue, sumValue], ?_⟩,
      ttl, ⟨ttlValue, ?_⟩⟩ <;> omega

/-! ### Claims on the stored lease -/

theorem leaseCall_eq_ok {α : Type} {method : LeaseM α} {lease after : FencedLeaseState}
    {value : α} : leaseCall method lease = .ok (value, after) ↔ method.on lease = (.ok value, after) := by
  unfold leaseCall
  rcases method.on lease with ⟨_ | _, _⟩ <;> simp

/-- The stored lease accepts the claim at `now`, and nothing was promoted since. -/
structure Holds (claim : RefreshClaim) (now : Int64) (s : CacheState) (lease : FencedLeaseState) :
    Prop where
  stored : s.lease = some lease
  accepts : ∃ nowMs : Int64, nowMs.toInt = now.toInt * 1000 ∧ lease.Accepts claim.proof nowMs
  version : lease.rowVersion = claim.rowVersion
  generation : s.generation = claim.baseGeneration

theorem checkClaim_ok {s : CacheState} {claim : RefreshClaim} {now : Int64}
    (passed : s.checkClaim claim now = .ok ()) : ∃ lease, Holds claim now s lease := by
  simp only [CacheState.checkClaim, bind_eq_ok, require_eq_ok, okOr_eq_ok] at passed
  obtain ⟨_, guard, lease, stored, nowMs, millis, ⟨⟨⟩, after⟩, validated, _⟩ := passed
  rw [leaseCall_eq_ok] at validated
  rcases lease.validate_on claim.proof nowMs claim.rowVersion with
    ⟨_, version, accepts⟩ | ⟨⟨_, failed⟩, _⟩
  · refine ⟨lease, stored, ⟨nowMs, (milliseconds_eq_ok.mp millis).1, accepts⟩, version, ?_⟩
    simp only [Bool.not_eq_true', Bool.or_eq_false_iff, bne_eq_false_iff_eq] at guard
    exact guard.2
  · rw [failed] at validated
    cases validated

def Released (lease after : FencedLeaseState) : Prop :=
  after.resourceId = lease.resourceId ∧ after.ownerId = none ∧
    after.fencingToken = lease.fencingToken ∧ after.expiresAtMs = none ∧
    after.rowVersion.toInt = lease.rowVersion.toInt + 1

theorem releaseClaim_ok {s s' : CacheState} {claim : RefreshClaim} {now : Int64}
    {lease : FencedLeaseState} (passed : s.releaseClaim claim now = .ok s')
    (stored : s.lease = some lease) :
    ∃ after nowMs, Released lease after ∧ s' = { s with lease := some after } ∧
      (Lease.step lease (.release claim.proof nowMs claim.rowVersion)).2 = after := by
  simp only [CacheState.releaseClaim, bind_eq_ok, okOr_eq_ok, stored] at passed
  obtain ⟨_, same, nowMs, _, ⟨⟨⟩, after⟩, released, done⟩ := passed
  cases same
  cases done
  rw [leaseCall_eq_ok] at released
  refine ⟨after, nowMs, ?_, rfl, by simp [Lease.step, released]⟩
  rcases lease.release_on claim.proof nowMs claim.rowVersion with
    ⟨_, failed⟩ | ⟨version, _, _, advanced, returned⟩
  · rw [failed] at released
    cases released
  · rw [returned] at released
    cases released
    exact ⟨rfl, rfl, rfl, rfl, advanced⟩

theorem checkDeadline_eq_ok {now admitted expiresAt : Int64} :
    checkDeadline now admitted expiresAt = .ok () ↔
      admitted.toInt ≤ now.toInt ∧ now.toInt < expiresAt.toInt := by
  simp [checkDeadline, require_eq_ok, Int64.lt_iff_toInt_lt, Int64.le_iff_toInt_le]

/-! ### Inversion of committed transactions -/

/-- What an admitted claim did: the lease was inactive or absent, the cooldown
had passed, and the lease moved by exactly one `claim` of the lease machine. -/
structure Admitted (key : CachePartitionKey) (policy : RefreshPolicy) (now : Int64)
    (s s' : CacheState) (granted : RefreshClaim) : Prop where
  validated : Validated policy now
  due : s.nextAttempt.toInt ≤ now.toInt
  next : s'.nextAttempt.toInt = now.toInt + policy.cooldown.toInt
  base : granted.baseGeneration = s.generation
  boundPolicy : granted.policy = policy
  kept : s' = { s with lease := s'.lease, lastAttempt := some now, nextAttempt := s'.nextAttempt }
  moved : ∃ lease call, Lease.step (s.lease.getD (FencedLeaseState.new (resourceIdOf key) 0)) call =
      (.ok (.leased granted.proof), lease) ∧ s'.lease = some lease ∧
      granted.rowVersion = lease.rowVersion ∧
      ∃ deadline : Int64, lease.expiresAtMs = some deadline ∧
        deadline.toInt = (now.toInt + policy.leaseFor.toInt) * 1000

theorem claim_ok {key : CachePartitionKey} {policy : RefreshPolicy} {force : Bool} {attempt : Uuid}
    {clock : Readings} {host : Host} {s s' : CacheState} {admission : RefreshAdmission}
    (committed : claim key policy force attempt clock host s = .ok (admission, s')) :
    (s' = s ∧ ∀ granted, admission ≠ .claimed granted) ∨
    ∃ granted, admission = .claimed granted ∧ Admitted key policy clock.now s s' granted := by
  simp only [claim, bind_eq_ok] at committed
  obtain ⟨_, _, _, _, _, _, _, valid, committed⟩ := committed
  have validated := validate_eq_ok.mp valid
  split at committed
  · simp only [bind_eq_ok] at committed
    obtain ⟨_, _, done⟩ := committed
    cases done
    exact .inl ⟨rfl, by simp⟩
  split at committed
  · simp only [bind_eq_ok] at committed
    obtain ⟨_, _, done⟩ := committed
    cases done
    exact .inl ⟨rfl, by simp⟩
  next notDue =>
    right
    simp only [bind_eq_ok, plus_eq_ok] at committed
    obtain ⟨_, _, _, _, nowMs, nowMillis, ttlMs, ttlMillis, ⟨proof, lease⟩, leased, next, nextValue,
      _, _, _, _, _, _, _, _, done⟩ := committed
    cases done
    rw [leaseCall_eq_ok] at leased
    rw [milliseconds_eq_ok] at nowMillis ttlMillis
    simp only [Bool.or_eq_true, decide_eq_true_eq, not_or, Int64.not_lt] at notDue
    -- The expected version is the stored one, so only the lease itself can refuse.
    generalize stored : s.lease.getD (FencedLeaseState.new (resourceIdOf key) 0) = before at leased
    refine ⟨_, rfl, validated, Int64.le_iff_toInt_le.mp notDue.1, nextValue, rfl, rfl, rfl, lease,
      .claim (uuidText attempt) attempt nowMs ttlMs before.rowVersion, ?_, rfl, rfl, ?_⟩
    · simp [stored, Lease.step, leased, Except.map]
    · rcases before.claim_on (uuidText attempt) attempt nowMs ttlMs before.rowVersion with
        ⟨_, failed⟩ | ⟨_, deadline, _, _, _, _, _, deadlineValue, _, returned⟩
      · rw [failed] at leased
        cases leased
      · rw [returned] at leased
        cases leased
        refine ⟨deadline, rfl, ?_⟩
        omega

/-- What a completed attempt did to the lease: it was accepted at every deadline
check, and then released. -/
structure Completed (claim : RefreshClaim) (now last : Int64) (s s' : CacheState) : Prop where
  lease : ∃ lease after expiresAt call, Holds claim now s lease ∧
    s.refreshExpiresAt = some expiresAt ∧ last.toInt < expiresAt.toInt ∧
    Released lease after ∧ s'.lease = some after ∧ (Lease.step lease call).2 = after
  ordered : now.toInt ≤ last.toInt

theorem promote_ok {claim : RefreshClaim} {rows : Int64} {observed : Option Int64}
    {clock : Readings} {host : Host} {s s' : CacheState} {change : CommittedCacheChange}
    (committed : promote claim rows observed clock host s = .ok (change, s')) :
    Completed claim clock.now clock.last s s' ∧ Completed claim clock.completed clock.last s s' ∧
    Validated claim.policy clock.completed ∧
    s'.generation.toInt = s.generation.toInt + 1 ∧ s'.nextAttempt = s.nextAttempt := by
  simp only [promote, bind_eq_ok, plus_eq_ok] at committed
  obtain ⟨_, _, _, _, _, _, _, _, _, checked, generation, nextGeneration, expiresAt, expires, _, _,
    _, valid, _, deadline, _, checkedAgain, _, _, released, release, _, _, _, deadlineAgain, _, _,
    done⟩ := committed
  cases done
  rw [okOr_eq_ok] at nextGeneration expires
  rw [checkDeadline_eq_ok] at deadline deadlineAgain
  obtain ⟨lease, holds⟩ := checkClaim_ok checked
  obtain ⟨lease', holdsAgain⟩ := checkClaim_ok checkedAgain
  have same : lease' = lease := by
    have both := holdsAgain.stored
    rw [holds.stored] at both
    exact (Option.some.inj both).symm
  subst same
  obtain ⟨after, nowMs, isReleased, rfl, moved⟩ := releaseClaim_ok release holds.stored
  refine ⟨⟨⟨lease', after, expiresAt, _, holds, expires, deadlineAgain.2, isReleased, rfl, moved⟩,
    by omega⟩, ⟨⟨lease', after, expiresAt, _, holdsAgain, expires, deadlineAgain.2, isReleased, rfl,
    moved⟩, deadlineAgain.1⟩, validate_eq_ok.mp valid, ?_, rfl⟩
  exact Checked.add_eq_some.mp nextGeneration

theorem fail_ok {claim : RefreshClaim} {failure : RefreshFailure} {clock : Readings} {host : Host}
    {s s' : CacheState} (committed : fail claim failure clock host s = .ok ((), s')) :
    Completed claim clock.now clock.last s s' ∧ Validated claim.policy clock.now ∧
    s'.generation = s.generation ∧ s'.rows = s.rows ∧ s'.freshUntil = s.freshUntil ∧
    s'.consecutiveFailures = Checked.saturatingSucc s.consecutiveFailures ∧
    ∃ backoff earliest, backoffFor claim.policy s'.consecutiveFailures = .ok backoff ∧
      earliest.toInt = clock.now.toInt + backoff.toInt ∧
      s'.nextAttempt = max s.nextAttempt earliest := by
  simp only [fail, bind_eq_ok, plus_eq_ok] at committed
  obtain ⟨_, _, _, _, _, valid, _, checked, expiresAt, expires, released, release, backoff, backoffs,
    earliest, earliestValue, _, _, _, deadline, _, _, done⟩ := committed
  cases done
  rw [okOr_eq_ok] at expires
  rw [checkDeadline_eq_ok] at deadline
  obtain ⟨lease, holds⟩ := checkClaim_ok checked
  obtain ⟨after, nowMs, isReleased, rfl, moved⟩ := releaseClaim_ok release holds.stored
  exact ⟨⟨⟨lease, after, expiresAt, _, holds, expires, deadline.2, isReleased, rfl, moved⟩,
    deadline.1⟩, validate_eq_ok.mp valid, rfl, rfl, rfl, rfl, backoff, earliest, backoffs,
    earliestValue, rfl⟩

/-! ### The machine -/

/-- One transaction addressed to the partition, with everything the worker and
its host supply. -/
inductive Transaction where
  | claim (key : CachePartitionKey) (policy : RefreshPolicy) (force : Bool) (attempt : Uuid)
      (clock : Readings) (host : Host)
  | promote (claim : RefreshClaim) (rows : Int64) (observed : Option Int64) (clock : Readings)
      (host : Host)
  | fail (claim : RefreshClaim) (failure : RefreshFailure) (clock : Readings) (host : Host)

inductive Reply where
  | admission (admission : RefreshAdmission)
  | promoted (change : CommittedCacheChange)
  | failed

/-- A failing transaction saves nothing; a committed one saves what it computed. -/
def settle {α : Type} (reply : α → Reply) (s : CacheState) :
    Except Fault (α × CacheState) → Except Fault Reply × CacheState
  | .ok (value, saved) => (.ok (reply value), saved)
  | .error fault => (.error fault, s)

def step (s : CacheState) : Transaction → Except Fault Reply × CacheState
  | .claim key policy force attempt clock host =>
    settle .admission s (claim key policy force attempt clock host s)
  | .promote claim rows observed clock host =>
    settle .promoted s (promote claim rows observed clock host s)
  | .fail claim failure clock host => settle (fun _ => .failed) s (fail claim failure clock host s)

namespace Transaction

def clock : Transaction → Readings
  | claim _ _ _ _ clock _ | promote _ _ _ clock _ | fail _ _ clock _ => clock

/-- The claim that a promotion or a failure report tries to consume. -/
def consumes : Transaction → Option RefreshClaim
  | claim .. => none
  | promote c .. | fail c .. => some c

end Transaction

abbrev CacheEvent := Trace.Event CacheState Transaction (Except Fault Reply)

/-- The event admitted `granted` under `policy`. -/
def Grants (e : CacheEvent) (granted : RefreshClaim) : Prop :=
  e.result = .ok (.admission (.claimed granted))

/-- The event is a committed promotion of `claim`. -/
def Promotes (e : CacheEvent) (claim : RefreshClaim) : Prop :=
  (∃ rows observed clock host, e.input = .promote claim rows observed clock host) ∧
    ∃ change, e.result = .ok (.promoted change)

/-- The event is a committed failure report of `claim`. -/
def Fails (e : CacheEvent) (claim : RefreshClaim) : Prop :=
  (∃ failure clock host, e.input = .fail claim failure clock host) ∧ e.result = .ok .failed

/-- Everything one transaction can do to the partition. -/
theorem step_cases (s : CacheState) (tx : Transaction) :
    ((step s tx).2 = s ∧ ∀ reply, (step s tx).1 = .ok reply →
      ∃ admission, reply = .admission admission ∧ ∀ granted, admission ≠ .claimed granted) ∨
    (∃ key policy granted, tx.consumes = none ∧
      (step s tx).1 = .ok (.admission (.claimed granted)) ∧
      Admitted key policy tx.clock.now s (step s tx).2 granted) ∨
    (∃ claim rows observed clock host change, tx = .promote claim rows observed clock host ∧
      (step s tx).1 = .ok (.promoted change) ∧
      promote claim rows observed clock host s = .ok (change, (step s tx).2)) ∨
    (∃ claim failure clock host, tx = .fail claim failure clock host ∧
      (step s tx).1 = .ok .failed ∧
      fail claim failure clock host s = .ok ((), (step s tx).2)) := by
  cases tx with
  | claim key policy force attempt clock host =>
    simp only [step]
    cases h : claim key policy force attempt clock host s with
    | error fault => exact .inl ⟨rfl, by simp [settle]⟩
    | ok value =>
      obtain ⟨admission, s'⟩ := value
      rcases claim_ok h with ⟨rfl, other⟩ | ⟨granted, rfl, admitted⟩
      · exact .inl ⟨rfl, fun _ returned => ⟨admission, (Except.ok.inj returned).symm, other⟩⟩
      · exact .inr (.inl ⟨key, policy, granted, rfl, rfl, admitted⟩)
  | promote claim rows observed clock host =>
    simp only [step]
    cases h : promote claim rows observed clock host s with
    | error fault => exact .inl ⟨rfl, by simp [settle]⟩
    | ok value =>
      obtain ⟨change, s'⟩ := value
      exact .inr (.inr (.inl ⟨claim, rows, observed, clock, host, change, rfl, rfl, h⟩))
  | fail claim failure clock host =>
    simp only [step]
    cases h : fail claim failure clock host s with
    | error fault => exact .inl ⟨rfl, by simp [settle]⟩
    | ok value =>
      obtain ⟨⟨⟩, s'⟩ := value
      exact .inr (.inr (.inr ⟨claim, failure, clock, host, rfl, rfl, h⟩))

end GraphqlOrm.Cache
