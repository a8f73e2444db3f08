import GraphqlOrm.Cache.Coordination

/-!
# Rate limiting of refresh attempts

`next_attempt` only moves forward, so the earliest time that one admission or
one failure report sets is still a lower bound at every later admission. The
unchecked sums of the transactions stay in range because each of them follows a
validation of the same policy at the same clock reading.
-/
namespace GraphqlOrm.Cache

open Lease Outcome Trace

/-! ### Unchecked arithmetic -/

/-- The computation never leaves the range of an unchecked operation. -/
def Safe {α : Type} (x : Except Fault α) : Prop := x ≠ .error .overflow

section Safe

variable {α β : Type}

theorem Safe.bind {x : Except Fault α} {f : α → Except Fault β} (first : Safe x)
    (rest : ∀ a, x = .ok a → Safe (f a)) : Safe (x >>= f) := by
  intro failed
  rcases bind_eq_error.mp failed with here | ⟨a, passed, later⟩
  · exact first here
  · exact rest a passed later

theorem safe_ok (a : α) : Safe (.ok a : Except Fault α) := nofun

theorem safe_require {condition : Bool} {error : OrmPublicError} :
    Safe (require condition (.refused error)) := by
  intro failed
  cases (require_eq_error.mp failed).2

theorem safe_okOr {x : Option α} {error : OrmPublicError} : Safe (okOr (.refused error) x) := by
  intro failed
  cases (okOr_eq_error.mp failed).2

theorem safe_hosted (outcome : Except OrmPublicError Unit) : Safe (hosted outcome) := by
  cases outcome <;> simp [Safe, hosted, Except.mapError]

theorem safe_leaseCall (method : LeaseM α) (lease : FencedLeaseState) :
    Safe (leaseCall method lease) := by
  unfold leaseCall
  split
  · exact safe_ok _
  · simp [Safe, conflict]

theorem safe_milliseconds (x : Int64) : Safe (milliseconds x) := safe_okOr

theorem safe_plus {x y : Int64} (fits : Checked.InRange (x.toInt + y.toInt)) : Safe (plus x y) :=
  plus_ne_error fits

theorem safe_checkDeadline (now admitted expiresAt : Int64) :
    Safe (checkDeadline now admitted expiresAt) := safe_require

theorem safe_checkClaim (s : CacheState) (claim : RefreshClaim) (now : Int64) :
    Safe (s.checkClaim claim now) := by
  unfold CacheState.checkClaim
  refine safe_require.bind fun _ _ => safe_okOr.bind fun _ _ => ?_
  exact (safe_milliseconds now).bind fun _ _ => (safe_leaseCall _ _).bind fun _ _ => safe_ok _

theorem safe_releaseClaim (s : CacheState) (claim : RefreshClaim) (now : Int64) :
    Safe (s.releaseClaim claim now) := by
  unfold CacheState.releaseClaim
  refine safe_okOr.bind fun _ _ => (safe_milliseconds now).bind fun _ _ => ?_
  exact (safe_leaseCall _ _).bind fun _ _ => safe_ok _

end Safe

section Validated

variable {policy : RefreshPolicy} {now : Int64}

theorem safe_validate (policy : RefreshPolicy) (now : Int64) : Safe (policy.validate now) := by
  unfold RefreshPolicy.validate
  refine safe_require.bind fun _ checked => ?_
  rw [require_eq_ok, durations_iff] at checked
  obtain ⟨_, _, _, _, _, _, _, _, leaseSum, _⟩ := checked
  refine (safe_plus leaseSum).bind fun _ _ => ?_
  exact (safe_milliseconds _).bind fun _ _ => (safe_milliseconds _).bind fun _ _ => safe_ok _

theorem Validated.inRange {d : Int64} (valid : Validated policy now) (positive : 0 < d.toInt)
    (bound : now.toInt + d.toInt < 2 ^ 63) : Checked.InRange (now.toInt + d.toInt) := by
  have clock := valid.clock
  exact ⟨by omega, bound⟩

theorem Validated.leaseSum (valid : Validated policy now) :
    now.toInt + policy.leaseFor.toInt < 2 ^ 63 := by
  obtain ⟨clock, _, _, lease, _, _, _, _, _, millis⟩ := valid
  omega

/-- What the backoff of a validated policy is: the doubled initial backoff with
the exponent cut at 62, truncated at the maximum. -/
theorem backoffFor_eq {failures : UInt32} (valid : Validated policy now) (failed : failures ≠ 0) :
    ∃ backoff, backoffFor policy failures = .ok backoff ∧
      backoff.toInt = min (policy.retryBackoff.toInt * 2 ^ min (failures.toNat - 1) 62)
        policy.maxBackoff.toInt := by
  have positive : 0 < failures.toNat := by
    rcases Nat.eq_zero_or_pos failures.toNat with zero | positive
    · exact absurd (UInt32.toNat.inj zero) failed
    · exact positive
  have one : (1 : UInt32) ≤ failures := UInt32.le_iff_toNat_le.mpr positive
  have exponent : (min (failures - 1) 62 : UInt32).toNat = min (failures.toNat - 1) 62 := by
    have value : (failures - 1).toNat = failures.toNat - 1 := UInt32.toNat_sub_of_le _ _ one
    rw [show min (failures - 1) (62 : UInt32) = if failures - 1 ≤ 62 then failures - 1 else 62
      from rfl]
    have limit : (62 : UInt32).toNat = 62 := rfl
    split
    next below =>
      rw [UInt32.le_iff_toNat_le] at below
      omega
    next above =>
      rw [UInt32.le_iff_toNat_le] at above
      omega
  obtain ⟨factor, shifted, value⟩ := Checked.shiftOne_eq (n := min (failures - 1) 62) (by omega)
  rw [exponent] at value
  refine ⟨_, by simp [backoffFor, pred, require, failed, shifted, bind, Except.bind, pure, Except.pure]; rfl,
    ?_⟩
  have power : (0 : Int) < 2 ^ min (failures.toNat - 1) 62 := Int.pow_pos (by decide)
  rw [Checked.toInt_min, Checked.toInt_saturatingMul valid.retry.le (by omega), value]
  -- Saturation is invisible: the maximum is itself representable.
  have bound := policy.maxBackoff.toInt_lt
  omega

/-- A validated reading leaves room for the backoff of any failure count. -/
theorem backoff_inRange {failures : UInt32} {backoff : Int64} (valid : Validated policy now)
    (failed : failures ≠ 0) (computed : backoffFor policy failures = .ok backoff) :
    Checked.InRange (now.toInt + backoff.toInt) := by
  obtain ⟨_, same, value⟩ := backoffFor_eq valid failed
  cases computed.symm.trans same
  have power : (0 : Int) < 2 ^ min (failures.toNat - 1) 62 := Int.pow_pos (by decide)
  have product := Int.mul_pos valid.retry power
  have := valid.retry
  have := valid.backoff
  have := valid.backoffSum
  exact valid.inRange (by omega) (by omega)

theorem saturatingSucc_ne_zero (x : UInt32) : Checked.saturatingSucc x ≠ 0 := by
  intro zero
  have value := Checked.toNat_saturatingSucc x
  rw [zero, UInt32.toNat_zero] at value
  omega

end Validated

/-! ### No transaction overflows -/

theorem safe_claim (key : CachePartitionKey) (policy : RefreshPolicy) (force : Bool)
    (attempt : Uuid) (clock : Readings) (host : Host) (s : CacheState) :
    Safe (claim key policy force attempt clock host s) := by
  unfold claim
  refine (safe_validate _ _).bind fun _ _ => ?_
  refine (safe_require.bind fun _ _ => safe_ok _).bind fun _ _ => ?_
  refine (safe_hosted _).bind fun _ _ => (safe_validate _ _).bind fun _ valid => ?_
  have valid := validate_eq_ok.mp valid
  have leaseSum := valid.inRange valid.lease valid.leaseSum
  split
  · exact (safe_hosted _).bind fun _ _ => safe_ok _
  split
  · exact (safe_hosted _).bind fun _ _ => safe_ok _
  refine safe_require.bind fun _ _ => safe_require.bind fun _ _ => ?_
  refine (safe_milliseconds _).bind fun _ _ => (safe_milliseconds _).bind fun _ _ => ?_
  refine (safe_leaseCall _ _).bind fun _ _ => ?_
  refine (safe_plus (valid.inRange valid.cooldown valid.cooldownSum)).bind fun _ _ => ?_
  refine (safe_hosted _).bind fun _ _ => (safe_plus leaseSum).bind fun _ _ => ?_
  exact (safe_checkDeadline _ _ _).bind fun _ _ => (safe_hosted _).bind fun _ _ => safe_ok _

theorem safe_promote (claim : RefreshClaim) (rows : Int64) (observed : Option Int64)
    (clock : Readings) (host : Host) (s : CacheState) :
    Safe (promote claim rows observed clock host s) := by
  unfold promote
  refine (safe_validate _ _).bind fun _ _ => (safe_hosted _).bind fun _ _ => ?_
  refine (safe_validate _ _).bind fun _ _ => safe_require.bind fun _ _ => ?_
  refine (safe_checkClaim _ _ _).bind fun _ _ => safe_okOr.bind fun _ _ => ?_
  refine safe_okOr.bind fun _ _ => (safe_hosted _).bind fun _ _ => ?_
  refine (safe_validate _ _).bind fun _ valid => (safe_checkDeadline _ _ _).bind fun _ _ => ?_
  have valid := validate_eq_ok.mp valid
  refine (safe_checkClaim _ _ _).bind fun _ _ => ?_
  refine (safe_plus (valid.inRange valid.fresh valid.freshSum)).bind fun _ _ => ?_
  refine (safe_releaseClaim _ _ _).bind fun _ _ => (safe_hosted _).bind fun _ _ => ?_
  exact (safe_checkDeadline _ _ _).bind fun _ _ => (safe_hosted _).bind fun _ _ => safe_ok _

theorem safe_fail (claim : RefreshClaim) (failure : RefreshFailure) (clock : Readings) (host : Host)
    (s : CacheState) : Safe (fail claim failure clock host s) := by
  unfold fail
  refine (safe_validate _ _).bind fun _ _ => (safe_hosted _).bind fun _ _ => ?_
  refine (safe_validate _ _).bind fun _ valid => (safe_checkClaim _ _ _).bind fun _ _ => ?_
  have valid := validate_eq_ok.mp valid
  refine safe_okOr.bind fun _ _ => (safe_releaseClaim _ _ _).bind fun released _ => ?_
  have counted := saturatingSucc_ne_zero released.consecutiveFailures
  obtain ⟨_, computed, _⟩ := backoffFor_eq valid counted
  refine Safe.bind (by rw [computed]; exact safe_ok _) fun _ same => ?_
  refine (safe_plus (backoff_inRange valid counted same)).bind fun _ _ => ?_
  refine (safe_hosted _).bind fun _ _ => (safe_checkDeadline _ _ _).bind fun _ _ => ?_
  exact (safe_hosted _).bind fun _ _ => safe_ok _

theorem safe_settle {α : Type} {reply : α → Reply} {s : CacheState}
    {outcome : Except Fault (α × CacheState)} (safe : Safe outcome) :
    Safe (settle reply s outcome).1 := by
  rcases outcome with fault | ⟨value, saved⟩
  · intro failed
    exact safe (congrArg Except.error (Except.error.inj failed))
  · exact safe_ok _

theorem safe_step (s : CacheState) (tx : Transaction) : Safe (step s tx).1 := by
  cases tx with
  | claim => exact safe_settle (safe_claim _ _ _ _ _ _ _)
  | promote => exact safe_settle (safe_promote _ _ _ _ _ _)
  | fail => exact safe_settle (safe_fail _ _ _ _ _)

/-! ### The earliest next attempt -/

theorem nextAttempt_step (s : CacheState) (tx : Transaction) :
    s.nextAttempt.toInt ≤ (step s tx).2.nextAttempt.toInt := by
  rcases step_cases s tx with ⟨kept, _⟩ | ⟨_, _, _, _, _, admitted⟩ |
    ⟨_, _, _, _, _, _, _, _, promoted⟩ | ⟨_, _, _, _, _, _, failed⟩
  · rw [kept]
  · have := admitted.due
    have := admitted.next
    have := admitted.validated.cooldown
    omega
  · rw [(promote_ok promoted).2.2.2.2]
  · obtain ⟨_, _, _, _, _, _, _, _, _, _, next⟩ := fail_ok failed
    rw [next, Checked.toInt_max]
    exact le_max_left _ _

theorem nextAttempt_stable (bound : Int) :
    Stable step fun s => bound ≤ s.nextAttempt.toInt :=
  fun s tx reached => le_trans reached (nextAttempt_step s tx)

section Runs

variable {start : CacheState} {txs : List Transaction} {e e₁ e₂ : CacheEvent}
  {claim granted : RefreshClaim}

/-- A time that was set as the earliest next attempt bounds every later admission. -/
theorem admitted_after {bound : Int} (ordered : [e₁, e₂].Sublist (events step start txs))
    (set : bound ≤ e₁.after.nextAttempt.toInt) (grants : Grants e₂ granted) :
    bound ≤ e₂.input.clock.now.toInt := by
  have answered := event_of_mem start txs e₂ (ordered.subset (by simp))
  obtain ⟨_, admitted⟩ := grants_admitted answered grants
  exact le_trans ((nextAttempt_stable bound).later start txs e₁ e₂ ordered set) admitted.due

/-- An admission reads a clock whose milliseconds are representable. -/
theorem admitted_early (answered : e = event step e.before e.input) (grants : Grants e granted) :
    e.input.clock.now.toInt * 1000 < 2 ^ 63 := by
  obtain ⟨_, admitted⟩ := grants_admitted answered grants
  obtain ⟨_, _, _, lease, _, _, _, _, _, millis⟩ := admitted.validated
  omega

theorem fails_next (answered : e = event step e.before e.input) (fails : Fails e claim) :
    0 ≤ e.input.clock.now.toInt ∧ 0 < claim.policy.retryBackoff.toInt ∧
    e.input.clock.now.toInt + min (claim.policy.retryBackoff.toInt *
        2 ^ min (e.after.consecutiveFailures.toNat - 1) 62) claim.policy.maxBackoff.toInt ≤
      e.after.nextAttempt.toInt := by
  obtain ⟨⟨failure, clock, host, input⟩, done⟩ := fails
  have after : e.after = (step e.before e.input).2 := by rw [answered]; rfl
  have result : (step e.before e.input).1 = e.result := by rw [answered]; rfl
  rw [input] at after result ⊢
  simp only [step] at after result
  cases h : fail claim failure clock host e.before with
  | error fault =>
    rw [h, done] at result
    cases result
  | ok value =>
    obtain ⟨⟨⟩, s'⟩ := value
    rw [h] at after
    simp only [settle] at after
    obtain ⟨_, valid, _, _, _, counted, backoff, earliest, computed, sum, next⟩ := fail_ok h
    have nonzero : s'.consecutiveFailures ≠ 0 := by
      rw [counted]
      exact saturatingSucc_ne_zero _
    obtain ⟨_, same, value⟩ := backoffFor_eq valid nonzero
    cases computed.symm.trans same
    rw [after, next, Checked.toInt_max, ← value]
    refine ⟨valid.clock, valid.retry, ?_⟩
    show clock.now.toInt + backoff.toInt ≤ _
    rw [← sum]
    exact le_max_right _ _

/-- The full doubling, also where the code cuts the exponent: a failure count
that large would postpone the next attempt past every admissible reading. -/
theorem backoff_respected (ordered : [e₁, e₂].Sublist (events step start txs))
    (fails : Fails e₁ claim) (grants : Grants e₂ granted) :
    e₁.input.clock.now.toInt + min claim.policy.maxBackoff.toInt
        (claim.policy.retryBackoff.toInt * 2 ^ (e₁.after.consecutiveFailures.toNat - 1)) ≤
      e₂.input.clock.now.toInt := by
  have answered : ∀ e ∈ events step start txs, e = event step e.before e.input :=
    event_of_mem start txs
  obtain ⟨clock, retry, next⟩ := fails_next (answered e₁ (ordered.subset (by simp))) fails
  have reached := admitted_after ordered next grants
  rcases Nat.le_total (e₁.after.consecutiveFailures.toNat - 1) 62 with small | large
  · rw [Nat.min_eq_left small] at reached
    omega
  · rw [Nat.min_eq_right large] at reached
    have early := admitted_early (answered e₂ (ordered.subset (by simp))) grants
    have huge : claim.policy.maxBackoff.toInt ≤ claim.policy.retryBackoff.toInt * 2 ^ 62 := by
      omega
    omega

/-- Rate limiting over every run: the earliest next attempt never moves back and
moves forward with each admission, admissions keep the cooldown and the backoff
of what came before them, and no arithmetic leaves its range. -/
theorem refresh_rate_limit (start : CacheState) (txs : List Transaction) :
    let run := events step start txs
    (∀ e ∈ run, e.before.nextAttempt ≤ e.after.nextAttempt ∧
      ∀ granted, Grants e granted → e.before.nextAttempt < e.after.nextAttempt) ∧
    (∀ e₁ e₂ granted other, [e₁, e₂].Sublist run → Grants e₁ granted → Grants e₂ other →
      e₁.input.clock.now.toInt + granted.policy.cooldown.toInt ≤ e₂.input.clock.now.toInt) ∧
    (∀ e₁ e₂ claim granted, [e₁, e₂].Sublist run → Fails e₁ claim → Grants e₂ granted →
      e₁.input.clock.now.toInt + min claim.policy.maxBackoff.toInt
          (claim.policy.retryBackoff.toInt * 2 ^ (e₁.after.consecutiveFailures.toNat - 1)) ≤
        e₂.input.clock.now.toInt) ∧
    (∀ e ∈ run, e.result ≠ .error .overflow) ∧
    (∀ policy now, RefreshPolicy.validate policy now = .ok () →
      (∀ d ∈ [policy.freshFor, policy.cooldown, policy.leaseFor], ∃ sum, plus now d = .ok sum) ∧
      (∀ seconds ∈ [now, policy.leaseFor], ∃ millis, milliseconds seconds = .ok millis) ∧
      ∀ failures, failures ≠ 0 → ∃ backoff earliest,
        backoffFor policy failures = .ok backoff ∧ plus now backoff = .ok earliest) := by
  intro run
  have answered : ∀ e ∈ run, e = event step e.before e.input := event_of_mem start txs
  refine ⟨?_, ?_, fun _ _ _ _ => backoff_respected, ?_, ?_⟩
  · intro e mem
    refine ⟨?_, fun granted grants => ?_⟩
    · rw [Int64.le_iff_toInt_le, answered e mem]
      exact nextAttempt_step e.before e.input
    · obtain ⟨_, admitted⟩ := grants_admitted (answered e mem) grants
      have due := admitted.due
      have next := admitted.next
      have cooldown := admitted.validated.cooldown
      rw [Int64.lt_iff_toInt_lt]
      omega
  · intro e₁ e₂ granted other ordered first second
    obtain ⟨_, admitted⟩ := grants_admitted (answered e₁ (ordered.subset (by simp))) first
    exact admitted_after ordered admitted.next.ge second
  · intro e mem
    rw [answered e mem]
    exact safe_step e.before e.input
  · intro policy now accepted
    have valid := validate_eq_ok.mp accepted
    have sums (d : Int64) (fits : Checked.InRange (now.toInt + d.toInt)) :
        ∃ sum, plus now d = .ok sum := by
      obtain ⟨sum, _, value⟩ := Checked.exists_add fits
      exact ⟨sum, plus_eq_ok.mpr value⟩
    have millis (seconds : Int64) (low : 0 ≤ seconds.toInt) (high : seconds.toInt * 1000 < 2 ^ 63) :
        ∃ millis, milliseconds seconds = .ok millis := by
      obtain ⟨millis, _, value⟩ := Checked.exists_narrow (n := seconds.toInt * 1000)
        ⟨by omega, high⟩
      exact ⟨millis, milliseconds_eq_ok.mpr ⟨value, by omega⟩⟩
    have clock := valid.clock
    have lease := valid.lease
    have bound := valid.leaseMillis
    refine ⟨?_, ?_, fun failures failed => ?_⟩
    · simp only [List.mem_cons, List.not_mem_nil, or_false, forall_eq_or_imp, forall_eq]
      exact ⟨sums _ (valid.inRange valid.fresh valid.freshSum),
        sums _ (valid.inRange valid.cooldown valid.cooldownSum),
        sums _ (valid.inRange valid.lease valid.leaseSum)⟩
    · simp only [List.mem_cons, List.not_mem_nil, or_false, forall_eq_or_imp, forall_eq]
      exact ⟨millis _ clock (by omega), millis _ lease.le (by omega)⟩
    · obtain ⟨backoff, computed, _⟩ := backoffFor_eq valid failed
      obtain ⟨earliest, sum⟩ := sums backoff (backoff_inRange valid failed computed)
      exact ⟨backoff, earliest, computed, sum⟩

end Runs

end GraphqlOrm.Cache
