import GraphqlOrm.Foundation.Trace
import GraphqlOrm.Lease.State

/-!
# Safety of lease runs

Any number of workers call the five operations on one lease, in any order, with
any proof, clock value, TTL and expected version. The whole argument rests on
one observation about a proof `p`: its token never exceeds the stored token,
and once the stored token has passed it, or has been released, no later call
can make `p` acceptable again (`Dead`).
-/
namespace GraphqlOrm.Lease

open FencedLeaseState Trace

/-- One operation of a worker, with everything the worker supplies. -/
inductive Call where
  | claim (ownerId : String) (attemptId : Uuid) (nowMs ttl expected : Int64)
  | validate (proof : LeaseProof) (nowMs expected : Int64)
  | heartbeat (proof : LeaseProof) (nowMs ttl expected : Int64)
  | commitFencedWrite (proof : LeaseProof) (nowMs expected : Int64)
  | release (proof : LeaseProof) (nowMs expected : Int64)

/-- What a successful operation returns. -/
inductive Answer where
  | leased (proof : LeaseProof)
  | version (rowVersion : Int64)
  | done

namespace Call

def carried : Call → Option LeaseProof
  | claim .. => none
  | validate proof .. | heartbeat proof .. | commitFencedWrite proof .. | release proof .. =>
    some proof

/-- Every operation but `validate` takes `&mut self`. -/
def mutates : Call → Bool
  | validate .. => false
  | _ => true

def isRelease : Call → Bool
  | release .. => true
  | _ => false

theorem isRelease_carries {call : Call} (isRelease : call.isRelease = true) :
    call.mutates = true ∧ call.carried ≠ none := by
  cases call <;> simp_all [Call.isRelease, mutates, carried]

end Call

def step (s : FencedLeaseState) : Call → Except LeaseError Answer × FencedLeaseState
  | .claim ownerId attemptId nowMs ttl expected =>
    (Answer.leased <$> claim ownerId attemptId nowMs ttl expected).on s
  | .validate proof nowMs expected => ((fun _ => .done) <$> validate proof nowMs expected).on s
  | .heartbeat proof nowMs ttl expected =>
    ((fun _ => .done) <$> heartbeat proof nowMs ttl expected).on s
  | .commitFencedWrite proof nowMs expected =>
    (Answer.version <$> commitFencedWrite proof nowMs expected).on s
  | .release proof nowMs expected => ((fun _ => .done) <$> release proof nowMs expected).on s

abbrev LeaseEvent := Event FencedLeaseState Call (Except LeaseError Answer)

/-- A successful claim that handed out `proof`. -/
def Claimed (e : LeaseEvent) (proof : LeaseProof) : Prop := e.result = .ok (.leased proof)

def Succeeded (e : LeaseEvent) : Prop := ∃ answer, e.result = .ok answer

/-- A state whose next accepted proof, if any, carries a strictly later token. -/
def Dead (proof : LeaseProof) (s : FencedLeaseState) : Prop :=
  proof.fencingToken.value < s.fencingToken.value ∨
    (proof.fencingToken = s.fencingToken ∧ s.ownerId = none)

/-- Tokens handed out so far never exceed the stored token. -/
def Issued (proof : LeaseProof) (s : FencedLeaseState) : Prop :=
  proof.fencingToken.value ≤ s.fencingToken.value

/-! ### One step -/

/-- Everything one call can do, guards included. -/
theorem step_cases (s : FencedLeaseState) (call : Call) :
    (∃ e, step s call = (.error e, s)) ∨
    (∃ proof nowMs, call.mutates = false ∧ s.Accepts proof nowMs ∧
      call.carried = some proof ∧ step s call = (.ok .done, s)) ∨
    (∃ proof deadline version, call.carried = none ∧ call.mutates = true ∧
      proof.fencingToken.value.toNat = s.fencingToken.value.toNat + 1 ∧
      version.toInt = s.rowVersion.toInt + 1 ∧
      step s call = (.ok (.leased proof),
        ⟨s.resourceId, some proof.ownerId, some proof.attemptId, proof.fencingToken,
          some deadline, version⟩)) ∨
    (∃ proof nowMs answer deadline version, call.carried = some proof ∧ call.isRelease = false ∧
      s.Accepts proof nowMs ∧ (∀ p, answer ≠ .leased p) ∧
      version.toInt = s.rowVersion.toInt + 1 ∧
      step s call = (.ok answer, { s with expiresAtMs := deadline, rowVersion := version })) ∨
    (∃ proof nowMs version, call.carried = some proof ∧ call.isRelease = true ∧
      s.Accepts proof nowMs ∧ version.toInt = s.rowVersion.toInt + 1 ∧
      step s call = (.ok .done, ⟨s.resourceId, none, none, s.fencingToken, none, version⟩)) := by
  cases call with
  | claim ownerId attemptId nowMs ttl expected =>
    rcases s.claim_on ownerId attemptId nowMs ttl expected with
      ⟨e, failed⟩ | ⟨version, deadline, token, _, _, _, hversion, _, htoken, returned⟩
    · exact .inl ⟨e, by simp [step, failed, Except.map]⟩
    · refine .inr (.inr (.inl ⟨⟨s.resourceId, ownerId, attemptId, ⟨token⟩⟩, deadline, version,
        rfl, rfl, htoken, hversion, ?_⟩))
      simp [step, returned, Except.map]
  | validate proof nowMs expected =>
    rcases s.validate_on proof nowMs expected with ⟨returned, _, accepted⟩ | ⟨⟨e, failed⟩, _⟩
    · exact .inr (.inl ⟨proof, nowMs, rfl, accepted, rfl, by simp [step, returned, Except.map]⟩)
    · exact .inl ⟨e, by simp [step, failed, Except.map]⟩
  | heartbeat proof nowMs ttl expected =>
    rcases s.heartbeat_on proof nowMs ttl expected with
      ⟨e, failed⟩ | ⟨version, deadline, _, accepted, hversion, _, returned⟩
    · exact .inl ⟨e, by simp [step, failed, Except.map]⟩
    · exact .inr (.inr (.inr (.inl ⟨proof, nowMs, .done, some deadline, version, rfl, rfl,
        accepted, by simp, hversion, by simp [step, returned, Except.map]⟩)))
  | commitFencedWrite proof nowMs expected =>
    rcases s.commitFencedWrite_on proof nowMs expected with
      ⟨e, failed⟩ | ⟨version, _, accepted, hversion, returned⟩
    · exact .inl ⟨e, by simp [step, failed, Except.map]⟩
    · exact .inr (.inr (.inr (.inl ⟨proof, nowMs, .version version, s.expiresAtMs, version, rfl,
        rfl, accepted, by simp, hversion, by simp [step, returned, Except.map]⟩)))
  | release proof nowMs expected =>
    rcases s.release_on proof nowMs expected with
      ⟨e, failed⟩ | ⟨version, _, accepted, hversion, returned⟩
    · exact .inl ⟨e, by simp [step, failed, Except.map]⟩
    · exact .inr (.inr (.inr (.inr ⟨proof, nowMs, version, rfl, rfl, accepted, hversion, by
        simp [step, returned, Except.map]⟩)))

theorem step_token_mono (s : FencedLeaseState) (call : Call) :
    s.fencingToken.value ≤ (step s call).2.fencingToken.value := by
  rcases step_cases s call with ⟨_, h⟩ | ⟨_, _, _, _, _, h⟩ | ⟨p, _, _, _, _, token, _, h⟩ |
    ⟨_, _, _, _, _, _, _, _, _, _, h⟩ | ⟨_, _, _, _, _, _, _, h⟩
  case inr.inr.inl =>
    rw [h]
    exact UInt64.le_iff_toNat_le.mpr (by simp only; omega)
  all_goals rw [h]; exact UInt64.le_refl _

theorem issued_stable (proof : LeaseProof) : Stable step (Issued proof) :=
  fun s call issued => UInt64.le_trans issued (step_token_mono s call)

/-- Only a claim moves a lease out of the released state, and it takes a new token. -/
theorem dead_stable (proof : LeaseProof) : Stable step (Dead proof) := by
  intro s call dead
  rcases step_cases s call with ⟨_, h⟩ | ⟨_, _, _, _, _, h⟩ | ⟨p, _, _, _, _, token, _, h⟩ |
    ⟨_, _, _, _, _, _, _, _, _, _, h⟩ | ⟨_, _, _, _, _, _, _, h⟩
  case inr.inr.inl =>
    rw [h]
    left
    rcases dead with older | ⟨same, _⟩
    · rw [UInt64.lt_iff_toNat_lt] at older ⊢
      simp only
      omega
    · rw [same, UInt64.lt_iff_toNat_lt]
      simp only
      omega
  case inr.inr.inr.inr =>
    rw [h]
    rcases dead with older | ⟨same, _⟩
    · exact .inl older
    · exact .inr ⟨same, rfl⟩
  all_goals rw [h]; exact dead

variable {proof : LeaseProof} {s : FencedLeaseState}

theorem dead_not_accepts (dead : Dead proof s) (nowMs : Int64) : ¬s.Accepts proof nowMs := by
  rintro ⟨_, owner, _, token, _⟩
  rcases dead with older | ⟨_, released⟩
  · rw [token] at older
    exact UInt64.lt_irrefl _ older
  · rw [released] at owner
    cases owner

/-- A call that presents a dead proof fails. -/
theorem dead_call_fails (dead : Dead proof s) (call : Call) (carries : call.carried = some proof) :
    ∃ e, step s call = (.error e, s) := by
  have rejects := dead_not_accepts dead
  rcases step_cases s call with h | ⟨_, _, _, accepted, carried, _⟩ | ⟨_, _, _, carried, _⟩ |
    ⟨_, _, _, _, _, carried, _, accepted, _⟩ | ⟨_, _, _, carried, _, accepted, _⟩
  · exact h
  · cases carries.symm.trans carried
    exact absurd accepted (rejects _)
  · cases carries.symm.trans carried
  · cases carries.symm.trans carried
    exact absurd accepted (rejects _)
  · cases carries.symm.trans carried
    exact absurd accepted (rejects _)

/-- A successful claim stores the next token and hands out exactly that token. -/
theorem leased_tokens {s' : FencedLeaseState} {call : Call}
    (leased : step s call = (.ok (.leased proof), s')) :
    proof.fencingToken.value.toNat = s.fencingToken.value.toNat + 1 ∧
      s'.fencingToken = proof.fencingToken := by
  rcases step_cases s call with ⟨_, h⟩ | ⟨_, _, _, _, _, h⟩ | ⟨p, _, _, _, _, token, _, h⟩ |
    ⟨_, _, _, _, _, _, _, _, other, _, h⟩ | ⟨_, _, _, _, _, _, _, h⟩ <;> rw [h] at leased
  case inr.inr.inl =>
    cases leased
    exact ⟨token, rfl⟩
  case inr.inr.inr.inl =>
    cases leased
    exact absurd rfl (other proof)
  all_goals cases leased

theorem claimed_tokens {e : LeaseEvent} (answered : e = event step e.before e.input)
    (claimed : Claimed e proof) :
    proof.fencingToken.value.toNat = e.before.fencingToken.value.toNat + 1 ∧
      e.after.fencingToken = proof.fencingToken := by
  have result : (step e.before e.input).1 = .ok (.leased proof) := by
    rw [answered] at claimed
    exact claimed
  have after : e.after = (step e.before e.input).2 := by rw [answered]; rfl
  have leased : step e.before e.input = (.ok (.leased proof), e.after) := by rw [← result, after]
  exact leased_tokens leased

/-- A successful release leaves no owner and keeps the token. -/
theorem released_state {e : LeaseEvent} (answered : e = event step e.before e.input)
    (isRelease : e.input.isRelease = true) (succeeded : Succeeded e) :
    e.after.ownerId = none ∧ e.after.fencingToken = e.before.fencingToken := by
  obtain ⟨answer, result⟩ := succeeded
  have result : (step e.before e.input).1 = .ok answer := by
    rw [answered] at result
    exact result
  have after : e.after = (step e.before e.input).2 := by rw [answered]; rfl
  rw [after]
  obtain ⟨mutates, carries⟩ := Call.isRelease_carries isRelease
  rcases step_cases e.before e.input with ⟨_, h⟩ | ⟨_, _, reads, _⟩ | ⟨_, _, _, claims, _⟩ |
    ⟨_, _, _, _, _, _, other, _⟩ | ⟨_, _, _, _, _, _, _, h⟩
  · rw [h] at result
    cases result
  · simp [mutates] at reads
  · exact absurd claims carries
  · simp [isRelease] at other
  · rw [h]
    exact ⟨rfl, rfl⟩

/-- A later claim overtakes every proof issued before it. -/
theorem leased_dead {later : LeaseProof} {s' : FencedLeaseState} {call : Call}
    (issued : Issued proof s) (leased : step s call = (.ok (.leased later), s')) :
    Dead proof s' := by
  obtain ⟨advanced, stored⟩ := leased_tokens leased
  have bound := UInt64.le_iff_toNat_le.mp issued
  left
  rw [stored, UInt64.lt_iff_toNat_lt]
  omega

/-- A state without an owner and with an issued token accepts no earlier proof. -/
theorem released_dead (issued : Issued proof s) (released : s.ownerId = none) : Dead proof s := by
  rcases UInt64.le_iff_lt_or_eq.mp issued with older | same
  · exact .inl older
  · exact .inr ⟨FencingToken.ext same, released⟩

/-- After a later successful claim or release, a proof issued before is dead. -/
theorem superseded_dead {e : LeaseEvent} (answered : e = event step e.before e.input)
    (issued : Issued proof e.before)
    (superseded : (∃ later, Claimed e later) ∨ (e.input.isRelease = true ∧ Succeeded e)) :
    Dead proof e.after := by
  rcases superseded with ⟨later, claimed⟩ | ⟨isRelease, succeeded⟩
  · have leased : step e.before e.input = (.ok (.leased later), e.after) := by
      rw [answered] at claimed ⊢
      exact Prod.ext claimed rfl
    exact leased_dead issued leased
  · obtain ⟨released, kept⟩ := released_state answered isRelease succeeded
    exact released_dead (by rw [Issued, kept]; exact issued) released

/-! ### Whole runs -/

/-- The lease contract over every run: tokens of successive claims increase, a
superseded or released proof is never accepted again, at most one claim is
accepted in a reachable state, and every call either advances the row version
by exactly one or changes nothing. -/
theorem lease_run_safety (resourceId : String) (rowVersion : Int64) (calls : List Call) :
    let start := FencedLeaseState.new resourceId rowVersion
    let run := events step start calls
    (∀ e₁ e₂ p₁ p₂, [e₁, e₂].Sublist run → Claimed e₁ p₁ → Claimed e₂ p₂ →
      p₁.fencingToken.value < p₂.fencingToken.value) ∧
    (∀ e₁ e₂ e₃ proof, [e₁, e₂, e₃].Sublist run → Claimed e₁ proof →
      ((∃ later, Claimed e₂ later) ∨ (e₂.input.isRelease = true ∧ Succeeded e₂)) →
      e₃.input.carried = some proof → ¬Succeeded e₃) ∧
    (∀ e₁ e₂ p₁ p₂ now₁ now₂ v₁ v₂, [e₁, e₂].Sublist run → Claimed e₁ p₁ → Claimed e₂ p₂ →
      ¬(((validate p₁ now₁ v₁).on (final step start calls)).1 = .ok () ∧
        ((validate p₂ now₂ v₂).on (final step start calls)).1 = .ok ())) ∧
    (∀ e ∈ run, (e.input.mutates = true → Succeeded e →
        e.after.rowVersion.toInt = e.before.rowVersion.toInt + 1) ∧
      (¬Succeeded e → e.after = e.before)) := by
  intro start run
  have answered : ∀ e ∈ run, e = event step e.before e.input := event_of_mem start calls
  have increasing : ∀ e₁ e₂ p₁ p₂, [e₁, e₂].Sublist run → Claimed e₁ p₁ → Claimed e₂ p₂ →
      p₁.fencingToken.value < p₂.fencingToken.value := by
    intro e₁ e₂ p₁ p₂ ordered first second
    have stored := (claimed_tokens (answered e₁ (ordered.subset (by simp))) first).2
    have issued : Issued p₁ e₂.before :=
      (issued_stable p₁).later start calls e₁ e₂ ordered (by rw [Issued, stored]; exact UInt64.le_refl _)
    have advanced := (claimed_tokens (answered e₂ (ordered.subset (by simp))) second).1
    have bound := UInt64.le_iff_toNat_le.mp issued
    rw [UInt64.lt_iff_toNat_lt]
    omega
  refine ⟨increasing, ?_, ?_, ?_⟩
  · intro e₁ e₂ e₃ proof ordered claimed superseded carries succeeded
    obtain ⟨front, back, second, third⟩ := ordered_triple ordered
    have stored := (claimed_tokens (answered e₁ (front.subset (by simp))) claimed).2
    have issued : Issued proof e₂.before :=
      (issued_stable proof).later start calls e₁ e₂ front (by rw [Issued, stored]; exact UInt64.le_refl _)
    have dead : Dead proof e₃.before := (dead_stable proof).later start calls e₂ e₃ back
      (superseded_dead (answered e₂ second) issued superseded)
    obtain ⟨error, failed⟩ := dead_call_fails dead e₃.input carries
    obtain ⟨answer, result⟩ := succeeded
    rw [answered e₃ third] at result
    simp [event, failed] at result
  · intro e₁ e₂ p₁ p₂ now₁ now₂ v₁ v₂ ordered first second accepted
    have older := increasing e₁ e₂ p₁ p₂ ordered first second
    have tokens (p : LeaseProof) (now v : Int64)
        (ok : ((validate p now v).on (final step start calls)).1 = .ok ()) :
        (final step start calls).fencingToken = p.fencingToken := by
      rcases (final step start calls).validate_on p now v with ⟨_, _, accepts⟩ | ⟨⟨_, failed⟩, _⟩
      · exact accepts.2.2.2.1
      · rw [failed] at ok
        cases ok
    rw [← tokens p₁ now₁ v₁ accepted.1, ← tokens p₂ now₂ v₂ accepted.2] at older
    exact UInt64.lt_irrefl _ older
  · intro e mem
    rw [answered e mem]
    simp only [event, Succeeded]
    rcases step_cases e.before e.input with ⟨_, h⟩ | ⟨_, _, reads, _, _, h⟩ |
      ⟨_, _, _, _, _, _, version, h⟩ | ⟨_, _, _, _, _, _, _, _, _, version, h⟩ |
      ⟨_, _, _, _, _, _, version, h⟩ <;> simp [h]
    · simp [reads]
    all_goals exact fun _ => version

end GraphqlOrm.Lease
