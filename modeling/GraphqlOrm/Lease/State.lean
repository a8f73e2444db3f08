import GraphqlOrm.Foundation.Checked

/-!
# Fenced leases

The in-memory lease transitions of `lease.rs`. A Rust method over `&mut self`
that returns a `Result` becomes a computation that keeps whatever was written
before an early return: nothing in the embedding rolls a failed call back, so
"an error leaves the state unchanged" is a theorem and not a convention.
-/
namespace GraphqlOrm.Lease

abbrev Uuid := BitVec 128

instance Uuid.lawfulBEq : LawfulBEq Uuid := inferInstance

/-- Monotonically increasing fencing token for one durable resource. -/
@[ext] structure FencingToken where
  value : UInt64
deriving DecidableEq

/-- Stable fenced-lease transition error. -/
inductive LeaseError where
  | invalidTtl
  | alreadyLeased
  | expired
  | staleFence
  | versionConflict (expected actual : Int64)
  | generationExhausted
  | versionExhausted
  | timeOverflow

/-- Values carried by every write performed by a leased attempt. -/
structure LeaseProof where
  resourceId : String
  ownerId : String
  attemptId : Uuid
  fencingToken : FencingToken

/-- Portable durable lease state embedded in an entity. -/
structure FencedLeaseState where
  resourceId : String
  ownerId : Option String
  attemptId : Option Uuid
  fencingToken : FencingToken
  expiresAtMs : Option Int64
  rowVersion : Int64

/-- A fallible method over `&mut self`: writes made before an error remain. -/
abbrev LeaseM := ExceptT LeaseError (StateM FencedLeaseState)

/-- `Option::ok_or` followed by `?`. -/
def okOr {α : Type} (error : LeaseError) : Option α → LeaseM α
  | some value => pure value
  | none => throw error

namespace FencingToken

def zero : FencingToken := ⟨0⟩

def next (token : FencingToken) : LeaseM FencingToken :=
  okOr .generationExhausted ((Checked.succ token.value).map FencingToken.mk)

end FencingToken

namespace FencedLeaseState

/-- Unclaimed state for a resource. -/
def new (resourceId : String) (rowVersion : Int64) : FencedLeaseState :=
  ⟨resourceId, none, none, FencingToken.zero, none, rowVersion⟩

/-- Whether the current lease is active at `nowMs`. -/
def isActive (s : FencedLeaseState) (nowMs : Int64) : Bool :=
  s.ownerId.isSome && s.attemptId.isSome &&
    s.expiresAtMs.any (fun deadline => decide (nowMs < deadline))

def ensureVersion (expected : Int64) : LeaseM Unit := do
  let s ← get
  if s.rowVersion = expected then pure ()
  else throw (.versionConflict expected s.rowVersion)

def claim (ownerId : String) (attemptId : Uuid) (nowMs leaseTtlMs expectedRowVersion : Int64) :
    LeaseM LeaseProof := do
  if leaseTtlMs ≤ 0 then throw .invalidTtl
  ensureVersion expectedRowVersion
  if (← get).isActive nowMs then throw .alreadyLeased
  let nextRowVersion ← okOr .versionExhausted (Checked.add (← get).rowVersion 1)
  let expiresAtMs ← okOr .timeOverflow (Checked.add nowMs leaseTtlMs)
  let fencingToken ← (← get).fencingToken.next
  modify fun s => { s with ownerId := some ownerId }
  modify fun s => { s with attemptId := some attemptId }
  modify fun s => { s with fencingToken := fencingToken }
  modify fun s => { s with expiresAtMs := some expiresAtMs }
  modify fun s => { s with rowVersion := nextRowVersion }
  return ⟨(← get).resourceId, ownerId, attemptId, fencingToken⟩

def validate (proof : LeaseProof) (nowMs expectedRowVersion : Int64) : LeaseM Unit := do
  ensureVersion expectedRowVersion
  let s ← get
  if proof.resourceId ≠ s.resourceId ∨ s.ownerId ≠ some proof.ownerId
      ∨ s.attemptId ≠ some proof.attemptId ∨ s.fencingToken ≠ proof.fencingToken then
    throw .staleFence
  if !s.isActive nowMs then throw .expired

def heartbeat (proof : LeaseProof) (nowMs leaseTtlMs expectedRowVersion : Int64) :
    LeaseM Unit := do
  if leaseTtlMs ≤ 0 then throw .invalidTtl
  validate proof nowMs expectedRowVersion
  let expiresAtMs ← okOr .timeOverflow (Checked.add nowMs leaseTtlMs)
  let nextRowVersion ← okOr .versionExhausted (Checked.add (← get).rowVersion 1)
  modify fun s => { s with expiresAtMs := some expiresAtMs }
  modify fun s => { s with rowVersion := nextRowVersion }

def commitFencedWrite (proof : LeaseProof) (nowMs expectedRowVersion : Int64) :
    LeaseM Int64 := do
  validate proof nowMs expectedRowVersion
  let nextRowVersion ← okOr .versionExhausted (Checked.add (← get).rowVersion 1)
  modify fun s => { s with rowVersion := nextRowVersion }
  return (← get).rowVersion

def release (proof : LeaseProof) (nowMs expectedRowVersion : Int64) : LeaseM Unit := do
  validate proof nowMs expectedRowVersion
  let nextRowVersion ← okOr .versionExhausted (Checked.add (← get).rowVersion 1)
  modify fun s => { s with ownerId := none }
  modify fun s => { s with attemptId := none }
  modify fun s => { s with expiresAtMs := none }
  modify fun s => { s with rowVersion := nextRowVersion }

end FencedLeaseState

/-! ### Running one call -/

/-- Run a method on a state: its `Result` and the state it leaves behind. -/
def LeaseM.on {α : Type} (method : LeaseM α) (s : FencedLeaseState) :
    Except LeaseError α × FencedLeaseState := method.run.run s

section Running

variable {α β : Type}

@[simp] theorem on_pure (value : α) (s : FencedLeaseState) :
    LeaseM.on (pure value) s = (.ok value, s) := rfl

@[simp] theorem on_throw (error : LeaseError) (s : FencedLeaseState) :
    LeaseM.on (throw error : LeaseM α) s = (.error error, s) := rfl

@[simp] theorem on_get (s : FencedLeaseState) : LeaseM.on get s = (.ok s, s) := rfl

@[simp] theorem on_modify (f : FencedLeaseState → FencedLeaseState) (s : FencedLeaseState) :
    LeaseM.on (modify f) s = (.ok ⟨⟩, f s) := rfl

/-- Sequencing: an error stops the method in the state reached so far. -/
theorem on_bind (first : LeaseM α) (rest : α → LeaseM β) (s : FencedLeaseState) :
    LeaseM.on (first >>= rest) s =
      match LeaseM.on first s with
      | (.ok value, middle) => LeaseM.on (rest value) middle
      | (.error error, middle) => (.error error, middle) := by
  change (ExceptT.run (first >>= rest)).run s = _
  rw [ExceptT.run_bind, StateT.run_bind]
  unfold LeaseM.on
  rcases first.run.run s with ⟨_ | _, middle⟩ <;> rfl

@[simp] theorem on_map (f : α → β) (method : LeaseM α) (s : FencedLeaseState) :
    LeaseM.on (f <$> method) s = ((LeaseM.on method s).1.map f, (LeaseM.on method s).2) := by
  rw [map_eq_pure_bind, on_bind]
  rcases LeaseM.on method s with ⟨_ | _, middle⟩ <;> rfl

@[simp] theorem on_okOr (error : LeaseError) (value : Option α) (s : FencedLeaseState) :
    LeaseM.on (okOr error value) s = (value.elim (.error error) .ok, s) := by
  cases value <;> rfl

end Running

/-! ### What each method can do -/

namespace FencedLeaseState

variable (s : FencedLeaseState)

/-- The bindings that `validate` compares, at a clock value where the lease is active. -/
def Accepts (proof : LeaseProof) (nowMs : Int64) : Prop :=
  proof.resourceId = s.resourceId ∧ s.ownerId = some proof.ownerId ∧
    s.attemptId = some proof.attemptId ∧ s.fencingToken = proof.fencingToken ∧
    s.isActive nowMs = true

theorem ensureVersion_on (expected : Int64) :
    (ensureVersion expected).on s =
      if s.rowVersion = expected then (.ok (), s)
      else (.error (.versionConflict expected s.rowVersion), s) := by
  simp only [ensureVersion, on_bind, on_get]
  split <;> simp

/-- `validate` only reads, and accepts exactly the current bindings. -/
theorem validate_on (proof : LeaseProof) (nowMs expected : Int64) :
    ((validate proof nowMs expected).on s = (.ok (), s) ∧ s.rowVersion = expected ∧
      s.Accepts proof nowMs) ∨
    ((∃ e, (validate proof nowMs expected).on s = (.error e, s)) ∧
      ¬(s.rowVersion = expected ∧ s.Accepts proof nowMs)) := by
  by_cases version : s.rowVersion = expected
  · by_cases stale : proof.resourceId ≠ s.resourceId ∨ s.ownerId ≠ some proof.ownerId
        ∨ s.attemptId ≠ some proof.attemptId ∨ s.fencingToken ≠ proof.fencingToken
    · right
      refine ⟨⟨.staleFence, ?_⟩, ?_⟩
      · simp [validate, on_bind, ensureVersion_on, version, stale]
      · rintro ⟨_, resource, owner, attempt, token, _⟩
        rcases stale with wrong | wrong | wrong | wrong
        · exact wrong resource
        · exact wrong owner
        · exact wrong attempt
        · exact wrong token
    · have bindings := stale
      simp only [not_or, not_not] at bindings
      by_cases active : s.isActive nowMs = true
      · left
        refine ⟨?_, version, bindings.1, bindings.2.1, bindings.2.2.1, bindings.2.2.2, active⟩
        simp [validate, on_bind, ensureVersion_on, version, bindings, active]
      · right
        refine ⟨⟨.expired, ?_⟩, fun accepted => active accepted.2.2.2.2.2⟩
        simp [validate, on_bind, ensureVersion_on, version, bindings, active]
  · right
    exact ⟨⟨_, by simp [validate, on_bind, ensureVersion_on, version]; rfl⟩,
      fun accepted => version accepted.1⟩

/-- A claim fails without a trace, or takes an inactive lease under the next token. -/
theorem claim_on (ownerId : String) (attemptId : Uuid) (nowMs ttl expected : Int64) :
    (∃ e, (claim ownerId attemptId nowMs ttl expected).on s = (.error e, s)) ∨
    (∃ version deadline token,
      s.rowVersion = expected ∧ 0 < ttl ∧ s.isActive nowMs = false ∧
      version.toInt = s.rowVersion.toInt + 1 ∧ deadline.toInt = nowMs.toInt + ttl.toInt ∧
      token.toNat = s.fencingToken.value.toNat + 1 ∧
      (claim ownerId attemptId nowMs ttl expected).on s =
        (.ok ⟨s.resourceId, ownerId, attemptId, ⟨token⟩⟩,
          ⟨s.resourceId, some ownerId, some attemptId, ⟨token⟩, some deadline, version⟩)) := by
  by_cases positive : ttl ≤ 0
  · exact .inl ⟨.invalidTtl, by simp [claim, positive]⟩
  by_cases current : s.rowVersion = expected
  swap
  · exact .inl ⟨_, by simp [claim, on_bind, positive, ensureVersion_on, current]; rfl⟩
  subst current
  by_cases active : s.isActive nowMs = true
  · exact .inl ⟨.alreadyLeased, by simp [claim, on_bind, positive, ensureVersion_on, active]⟩
  cases nextVersion : Checked.add s.rowVersion 1 with
  | none =>
    exact .inl ⟨.versionExhausted, by
      simp [claim, on_bind, positive, ensureVersion_on, active, nextVersion]⟩
  | some version =>
    cases nextDeadline : Checked.add nowMs ttl with
    | none =>
      exact .inl ⟨.timeOverflow, by
        simp [claim, on_bind, positive, ensureVersion_on, active, nextVersion,
          nextDeadline]⟩
    | some deadline =>
      cases nextToken : Checked.succ s.fencingToken.value with
      | none =>
        exact .inl ⟨.generationExhausted, by
          simp [claim, on_bind, positive, ensureVersion_on, active, nextVersion,
            nextDeadline, FencingToken.next, nextToken]⟩
      | some token =>
        right
        refine ⟨version, deadline, token, rfl, Int64.not_le.mp positive,
          by simpa using active, ?_, Checked.add_eq_some.mp nextDeadline,
          Checked.succ_eq_some.mp nextToken, ?_⟩
        · exact Checked.add_eq_some.mp nextVersion
        · simp [claim, on_bind, positive, ensureVersion_on, active, nextVersion,
            nextDeadline, FencingToken.next, nextToken, Except.map]

theorem heartbeat_on (proof : LeaseProof) (nowMs ttl expected : Int64) :
    (∃ e, (heartbeat proof nowMs ttl expected).on s = (.error e, s)) ∨
    (∃ version deadline,
      s.rowVersion = expected ∧ s.Accepts proof nowMs ∧
      version.toInt = s.rowVersion.toInt + 1 ∧ deadline.toInt = nowMs.toInt + ttl.toInt ∧
      (heartbeat proof nowMs ttl expected).on s =
        (.ok (), { s with expiresAtMs := some deadline, rowVersion := version })) := by
  by_cases positive : ttl ≤ 0
  · exact .inl ⟨.invalidTtl, by simp [heartbeat, positive]⟩
  rcases s.validate_on proof nowMs expected with ⟨valid, current, accepted⟩ | ⟨⟨e, invalid⟩, _⟩
  swap
  · exact .inl ⟨e, by simp [heartbeat, on_bind, positive, invalid]⟩
  cases nextDeadline : Checked.add nowMs ttl with
  | none => exact .inl ⟨.timeOverflow, by simp [heartbeat, on_bind, positive, valid, nextDeadline]⟩
  | some deadline =>
    cases nextVersion : Checked.add s.rowVersion 1 with
    | none =>
      exact .inl ⟨.versionExhausted, by
        simp [heartbeat, on_bind, positive, valid, nextDeadline, nextVersion]⟩
    | some version =>
      exact .inr ⟨version, deadline, current, accepted, Checked.add_eq_some.mp nextVersion,
        Checked.add_eq_some.mp nextDeadline, by
          simp [heartbeat, on_bind, positive, valid, nextDeadline, nextVersion]⟩

theorem commitFencedWrite_on (proof : LeaseProof) (nowMs expected : Int64) :
    (∃ e, (commitFencedWrite proof nowMs expected).on s = (.error e, s)) ∨
    (∃ version,
      s.rowVersion = expected ∧ s.Accepts proof nowMs ∧
      version.toInt = s.rowVersion.toInt + 1 ∧
      (commitFencedWrite proof nowMs expected).on s =
        (.ok version, { s with rowVersion := version })) := by
  rcases s.validate_on proof nowMs expected with ⟨valid, current, accepted⟩ | ⟨⟨e, invalid⟩, _⟩
  swap
  · exact .inl ⟨e, by simp [commitFencedWrite, on_bind, invalid]⟩
  cases nextVersion : Checked.add s.rowVersion 1 with
  | none =>
    exact .inl ⟨.versionExhausted, by simp [commitFencedWrite, on_bind, valid, nextVersion]⟩
  | some version =>
    exact .inr ⟨version, current, accepted, Checked.add_eq_some.mp nextVersion, by
      simp [commitFencedWrite, on_bind, valid, nextVersion, Except.map]⟩

theorem release_on (proof : LeaseProof) (nowMs expected : Int64) :
    (∃ e, (release proof nowMs expected).on s = (.error e, s)) ∨
    (∃ version,
      s.rowVersion = expected ∧ s.Accepts proof nowMs ∧
      version.toInt = s.rowVersion.toInt + 1 ∧
      (release proof nowMs expected).on s =
        (.ok (), ⟨s.resourceId, none, none, s.fencingToken, none, version⟩)) := by
  rcases s.validate_on proof nowMs expected with ⟨valid, current, accepted⟩ | ⟨⟨e, invalid⟩, _⟩
  swap
  · exact .inl ⟨e, by simp [release, on_bind, invalid]⟩
  cases nextVersion : Checked.add s.rowVersion 1 with
  | none => exact .inl ⟨.versionExhausted, by simp [release, on_bind, valid, nextVersion]⟩
  | some version =>
    exact .inr ⟨version, current, accepted, Checked.add_eq_some.mp nextVersion, by
      simp [release, on_bind, valid, nextVersion]⟩

end FencedLeaseState

end GraphqlOrm.Lease
