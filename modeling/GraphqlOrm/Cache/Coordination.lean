import GraphqlOrm.Cache.Transactions

/-!
# Coordination of overlapping refresh workers

The stored lease only ever moves by one claim or one release of the lease
machine, so every stable property of leases is a stable property of the
partition. Exclusion, single consumption and expiry follow from the dead-proof
argument of the lease runs.
-/
namespace GraphqlOrm.Cache

open Lease Outcome Trace

def OnLease (P : FencedLeaseState → Prop) (s : CacheState) : Prop :=
  ∃ lease, s.lease = some lease ∧ P lease

/-- Promotion and failure reports consume the claim they present. -/
def Consumes (e : CacheEvent) (claim : RefreshClaim) : Prop := Promotes e claim ∨ Fails e claim

/-- The readings that a consuming transaction compares with the lease deadline. -/
def Transaction.deadlineReadings : Transaction → List Int64
  | .claim .. => []
  | .promote _ _ _ clock _ => [clock.now, clock.completed, clock.last]
  | .fail _ _ clock _ => [clock.now, clock.last]

/-! ### One transaction -/

/-- Any property that no lease call destroys survives every transaction. -/
theorem onLease_stable {P : FencedLeaseState → Prop} (stable : Stable Lease.step P) :
    Stable step (OnLease P) := by
  rintro s tx ⟨lease, stored, holds⟩
  rcases step_cases s tx with ⟨kept, _⟩ | ⟨_, _, _, _, _, admitted⟩ |
    ⟨_, _, _, _, _, _, _, _, promoted⟩ | ⟨_, _, _, _, _, _, failed⟩
  · rw [kept]
    exact ⟨lease, stored, holds⟩
  · obtain ⟨after, call, moved, saved, _⟩ := admitted.moved
    rw [stored, Option.getD_some] at moved
    refine ⟨after, saved, ?_⟩
    have preserved := stable lease call holds
    rwa [moved] at preserved
  · obtain ⟨lease', after, _, call, current, _, _, _, saved, moved⟩ := (promote_ok promoted).1.lease
    cases stored.symm.trans current.stored
    exact ⟨after, saved, moved ▸ stable lease call holds⟩
  · obtain ⟨lease', after, _, call, current, _, _, _, saved, moved⟩ := (fail_ok failed).1.lease
    cases stored.symm.trans current.stored
    exact ⟨after, saved, moved ▸ stable lease call holds⟩

variable {e : CacheEvent} {claim granted : RefreshClaim}

section

variable (answered : e = event step e.before e.input)
include answered

/-- A committed consumer passed every deadline check and released the lease. -/
theorem consumes_completed (consumed : Consumes e claim) :
    Completed claim e.input.clock.now e.input.clock.last e.before e.after ∧
      ∀ reading ∈ e.input.deadlineReadings, reading.toInt ≤ e.input.clock.last.toInt := by
  have after : e.after = (step e.before e.input).2 := by rw [answered]; rfl
  have result : (step e.before e.input).1 = e.result := by rw [answered]; rfl
  rcases consumed with ⟨⟨rows, observed, clock, host, input⟩, change, done⟩ |
    ⟨⟨failure, clock, host, input⟩, done⟩
  · rw [input] at after result
    simp only [step] at after result
    cases h : promote claim rows observed clock host e.before with
    | error fault =>
      rw [h, done] at result
      cases result
    | ok value =>
      obtain ⟨change', s'⟩ := value
      rw [h] at after
      obtain ⟨first, second, _⟩ := promote_ok h
      rw [after, input]
      refine ⟨first, ?_⟩
      simp only [Transaction.deadlineReadings, Transaction.clock, List.mem_cons, List.not_mem_nil,
        or_false, forall_eq_or_imp, forall_eq]
      exact ⟨first.ordered, second.ordered, le_refl _⟩
  · rw [input] at after result
    simp only [step] at after result
    cases h : fail claim failure clock host e.before with
    | error fault =>
      rw [h, done] at result
      cases result
    | ok value =>
      obtain ⟨⟨⟩, s'⟩ := value
      rw [h] at after
      obtain ⟨first, _⟩ := fail_ok h
      rw [after, input]
      refine ⟨first, ?_⟩
      simp only [Transaction.deadlineReadings, Transaction.clock, List.mem_cons, List.not_mem_nil,
        or_false, forall_eq_or_imp, forall_eq]
      exact ⟨first.ordered, le_refl _⟩

/-- The claim a committed consumer presented is the live one. -/
theorem consumes_not_dead (consumed : Consumes e claim) : ¬OnLease (Dead claim.proof) e.before := by
  rintro ⟨lease, stored, dead⟩
  obtain ⟨lease', _, _, _, current, _⟩ := (consumes_completed answered consumed).1.lease
  cases stored.symm.trans current.stored
  obtain ⟨nowMs, _, accepts⟩ := current.accepts
  exact dead_not_accepts dead nowMs accepts

theorem consumes_dead (consumed : Consumes e claim) : OnLease (Dead claim.proof) e.after := by
  obtain ⟨lease, after, _, _, current, _, _, released, saved, _⟩ :=
    (consumes_completed answered consumed).1.lease
  obtain ⟨nowMs, _, accepts⟩ := current.accepts
  refine ⟨after, saved, released_dead ?_ released.2.1⟩
  rw [Issued, released.2.2.1, accepts.2.2.2.1]
  exact UInt64.le_refl _

theorem grants_admitted (grants : Grants e granted) :
    ∃ key, Admitted key granted.policy e.input.clock.now e.before e.after granted := by
  have after : e.after = (step e.before e.input).2 := by rw [answered]; rfl
  have result : (step e.before e.input).1 = .ok (.admission (.claimed granted)) := by
    rw [answered] at grants
    exact grants
  rcases step_cases e.before e.input with ⟨_, other⟩ | ⟨key, policy, claim, _, done, admitted⟩ |
    ⟨_, _, _, _, _, _, _, done, _⟩ | ⟨_, _, _, _, _, done, _⟩
  · obtain ⟨admission, same, refused⟩ := other _ result
    cases same
    exact absurd rfl (refused granted)
  · rw [result] at done
    cases done
    rw [after]
    exact ⟨key, admitted.boundPolicy ▸ admitted⟩
  · rw [result] at done
    cases done
  · rw [result] at done
    cases done

theorem grants_issued (grants : Grants e granted) :
    OnLease (Issued granted.proof) e.after := by
  obtain ⟨_, admitted⟩ := grants_admitted answered grants
  obtain ⟨lease, _, moved, saved, _⟩ := admitted.moved
  refine ⟨lease, saved, ?_⟩
  rw [Issued, (leased_tokens moved).2]
  exact UInt64.le_refl _

/-- A new admission overtakes every claim issued before it. -/
theorem grants_dead (grants : Grants e granted)
    (issued : OnLease (Issued claim.proof) e.before) : OnLease (Dead claim.proof) e.after := by
  obtain ⟨_, admitted⟩ := grants_admitted answered grants
  obtain ⟨lease, _, moved, saved, _⟩ := admitted.moved
  obtain ⟨before, stored, bound⟩ := issued
  rw [stored, Option.getD_some] at moved
  exact ⟨lease, saved, leased_dead bound moved⟩

end

/-! ### The deadline of a claim -/

/-- The claim was overtaken, or its lease still expires when admission said. -/
def Deadline (proof : LeaseProof) (deadline : Int64) (lease : FencedLeaseState) : Prop :=
  Dead proof lease ∨ (Issued proof lease ∧ lease.expiresAtMs = some deadline)

theorem deadline_stable (proof : LeaseProof) (deadline : Int64) :
    Stable step (OnLease (Deadline proof deadline)) := by
  rintro s tx ⟨lease, stored, dead | ⟨issued, expires⟩⟩
  · obtain ⟨after, saved, dead⟩ := onLease_stable (dead_stable proof) s tx ⟨lease, stored, dead⟩
    exact ⟨after, saved, .inl dead⟩
  -- A heartbeat would move the deadline, but no refresh transaction sends one.
  rcases step_cases s tx with ⟨kept, _⟩ | ⟨_, _, _, _, _, admitted⟩ |
    ⟨_, _, _, _, _, _, _, _, promoted⟩ | ⟨_, _, _, _, _, _, failed⟩
  · rw [kept]
    exact ⟨lease, stored, .inr ⟨issued, expires⟩⟩
  · obtain ⟨after, _, moved, saved, _⟩ := admitted.moved
    rw [stored, Option.getD_some] at moved
    exact ⟨after, saved, .inl (leased_dead issued moved)⟩
  all_goals
    obtain ⟨lease', after, _, _, current, _, _, released, saved, _⟩ :=
      (by first | exact (promote_ok promoted).1.lease | exact (fail_ok failed).1.lease)
    cases stored.symm.trans current.stored
    refine ⟨after, saved, .inl (released_dead ?_ released.2.1)⟩
    rw [Issued, released.2.2.1]
    exact issued

theorem seconds_of_millis {millis : Int64} {seconds : Int} (value : millis.toInt = seconds * 1000) :
    (millis / 1000).toInt = seconds := by
  have thousand : (1000 : Int64).toInt = 1000 := rfl
  have inside : millis ≠ Int64.minValue := by
    intro extreme
    rw [extreme, Int64.toInt_minValue] at value
    omega
  rw [Int64.toInt_div_of_ne_left _ _ inside, value, thousand]
  exact Int.mul_tdiv_cancel _ (by decide)

/-- A committed consumer read the clock before the claim's deadline every time. -/
theorem consumes_before_deadline {deadline : Int64} {seconds : Int}
    (answered : e = event step e.before e.input) (consumed : Consumes e claim)
    (bound : OnLease (Deadline claim.proof deadline) e.before)
    (value : deadline.toInt = seconds * 1000) :
    ∀ reading ∈ e.input.deadlineReadings, reading.toInt < seconds := by
  obtain ⟨lease, stored, dead | ⟨_, expires⟩⟩ := bound
  · exact absurd ⟨lease, stored, dead⟩ (consumes_not_dead answered consumed)
  obtain ⟨completed, readings⟩ := consumes_completed answered consumed
  obtain ⟨lease', _, expiresAt, _, current, expiry, before, _⟩ := completed.lease
  have limit : expiresAt = deadline / 1000 := by
    simp only [CacheState.refreshExpiresAt, stored, Option.bind_some, expires, Option.map_some,
      Option.some.injEq] at expiry
    exact expiry.symm
  intro reading mem
  have ordered := readings reading mem
  have seconds := seconds_of_millis value
  rw [← limit] at seconds
  omega

/-! ### The generation -/

/-- The committed generation grows by one with a promotion and by nothing else. -/
theorem generation_step (answered : e = event step e.before e.input) :
    (∃ claim, Promotes e claim ∧ e.before.generation = claim.baseGeneration ∧
      e.after.generation.toInt = e.before.generation.toInt + 1) ∨
    ((¬∃ claim, Promotes e claim) ∧ e.after.generation = e.before.generation) := by
  have after : e.after = (step e.before e.input).2 := by rw [answered]; rfl
  have result : e.result = (step e.before e.input).1 := by rw [answered]; rfl
  rcases step_cases e.before e.input with ⟨kept, other⟩ | ⟨_, _, _, reads, _, admitted⟩ |
    ⟨claim, rows, observed, clock, host, change, input, done, promoted⟩ |
    ⟨_, _, _, _, input, _, failed⟩
  · right
    refine ⟨?_, by rw [after, kept]⟩
    rintro ⟨claim, _, change, done⟩
    obtain ⟨_, same, _⟩ := other _ (result ▸ done)
    cases same
  · right
    refine ⟨?_, by rw [after, admitted.kept]⟩
    rintro ⟨claim, ⟨_, _, _, _, input⟩, _⟩
    rw [input] at reads
    cases reads
  · left
    obtain ⟨⟨⟨lease, _, _, _, current, _⟩, _⟩, _, _, advanced, _⟩ := promote_ok promoted
    exact ⟨claim, ⟨⟨rows, observed, clock, host, input⟩, change, result ▸ done⟩,
      current.generation, by rw [after]; exact advanced⟩
  · right
    refine ⟨?_, by rw [after]; exact (fail_ok failed).2.2.1⟩
    rintro ⟨claim, ⟨_, _, _, _, input'⟩, _⟩
    rw [input] at input'
    cases input'

theorem generation_mono (s : CacheState) (tx : Transaction) :
    s.generation.toInt ≤ (step s tx).2.generation.toInt := by
  rcases generation_step (e := event step s tx) rfl with ⟨_, _, _, advanced⟩ | ⟨_, kept⟩
  · simp only [event] at advanced
    omega
  · simp only [event] at kept
    rw [kept]

theorem promotes_generation (answered : e = event step e.before e.input)
    (promotes : Promotes e claim) : e.before.generation = claim.baseGeneration ∧
      e.after.generation.toInt = e.before.generation.toInt + 1 := by
  rcases generation_step answered with ⟨_, _, _, advanced⟩ | ⟨never, _⟩
  · obtain ⟨_, _, _, _, current, _⟩ := (consumes_completed answered (.inl promotes)).1.lease
    exact ⟨current.generation, advanced⟩
  · exact absurd ⟨claim, promotes⟩ never

/-- A transaction that presents a claim and does not consume it changes nothing. -/
theorem unconsumed_unchanged (answered : e = event step e.before e.input)
    (presents : e.input.consumes = some claim) (unconsumed : ¬Consumes e claim) :
    e.after = e.before := by
  have after : e.after = (step e.before e.input).2 := by rw [answered]; rfl
  have result : e.result = (step e.before e.input).1 := by rw [answered]; rfl
  rcases step_cases e.before e.input with ⟨kept, _⟩ | ⟨_, _, _, reads, _⟩ |
    ⟨_, rows, observed, clock, host, change, input, done, _⟩ |
    ⟨_, failure, clock, host, input, done, _⟩
  · rw [after, kept]
  · rw [presents] at reads
    cases reads
  · rw [input] at presents
    cases presents
    exact absurd (.inl ⟨⟨rows, observed, clock, host, input⟩, change, result ▸ done⟩) unconsumed
  · rw [input] at presents
    cases presents
    exact absurd (.inr ⟨⟨failure, clock, host, input⟩, result ▸ done⟩) unconsumed

/-! ### Whole runs -/

section Runs

variable {start : CacheState} {txs : List Transaction} {e₁ e₂ e₃ : CacheEvent}

/-- Once consumed, a claim is never consumed again. -/
theorem consumed_once (ordered : [e₁, e₂].Sublist (events step start txs))
    (first : Consumes e₁ claim) : ¬Consumes e₂ claim := by
  intro second
  have answered : ∀ e ∈ events step start txs, e = event step e.before e.input :=
    event_of_mem start txs
  have dead := (onLease_stable (dead_stable claim.proof)).later start txs e₁ e₂ ordered
    (consumes_dead (answered e₁ (ordered.subset (by simp))) first)
  exact consumes_not_dead (answered e₂ (ordered.subset (by simp))) second dead

/-- A claim that was overtaken by a later admission is never consumed. -/
theorem overtaken_unconsumed {other : RefreshClaim}
    (ordered : [e₁, e₂, e₃].Sublist (events step start txs)) (first : Grants e₁ granted)
    (second : Grants e₂ other) : ¬Consumes e₃ granted := by
  intro third
  obtain ⟨front, back, member₂, member₃⟩ := ordered_triple ordered
  have answered : ∀ e ∈ events step start txs, e = event step e.before e.input :=
    event_of_mem start txs
  have issued := (onLease_stable (issued_stable granted.proof)).later start txs e₁ e₂ front
    (grants_issued (answered e₁ (front.subset (by simp))) first)
  have dead := (onLease_stable (dead_stable granted.proof)).later start txs e₂ e₃ back
    (grants_dead (answered e₂ member₂) second issued)
  exact consumes_not_dead (answered e₃ member₃) third dead

/-- An expired claim is never consumed. -/
theorem expired_unconsumed (ordered : [e₁, e₂].Sublist (events step start txs))
    (grants : Grants e₁ granted)
    (expired : ∃ reading ∈ e₂.input.deadlineReadings,
      e₁.input.clock.now.toInt + granted.policy.leaseFor.toInt ≤ reading.toInt) :
    ¬Consumes e₂ granted := by
  intro consumed
  have answered : ∀ e ∈ events step start txs, e = event step e.before e.input :=
    event_of_mem start txs
  have answered₁ := answered e₁ (ordered.subset (by simp))
  obtain ⟨_, admitted⟩ := grants_admitted answered₁ grants
  obtain ⟨lease, _, moved, saved, _, deadline, expires, value⟩ := admitted.moved
  have bound := (deadline_stable granted.proof deadline).later start txs e₁ e₂ ordered
    ⟨lease, saved, .inr ⟨by rw [Issued, (leased_tokens moved).2]; exact UInt64.le_refl _, expires⟩⟩
  obtain ⟨reading, mem, late⟩ := expired
  have early := consumes_before_deadline (answered e₂ (ordered.subset (by simp))) consumed bound
    value reading mem
  omega

/-- Coordination of one partition over every interleaving: the generation counts
promotions, a claim is consumed at most once and only while it is the latest
admission, promotions have distinct bases, and an expired or replaced worker
changes nothing. -/
theorem refresh_coordination (start : CacheState) (txs : List Transaction) :
    let run := events step start txs
    (∀ e ∈ run, (∀ claim, Promotes e claim →
        e.after.generation.toInt = e.before.generation.toInt + 1) ∧
      ((¬∃ claim, Promotes e claim) → e.after.generation = e.before.generation)) ∧
    (∀ e₁ e₂ claim, [e₁, e₂].Sublist run → Consumes e₁ claim → ¬Consumes e₂ claim) ∧
    (∀ e₁ e₂ e₃ granted other, [e₁, e₂, e₃].Sublist run → Grants e₁ granted → Grants e₂ other →
      ¬Consumes e₃ granted) ∧
    (∀ e₁ e₂ c₁ c₂, [e₁, e₂].Sublist run → Promotes e₁ c₁ → Promotes e₂ c₂ →
      c₁.baseGeneration < c₂.baseGeneration) ∧
    (∀ e₁ e₂ granted, [e₁, e₂].Sublist run → Grants e₁ granted →
      e₂.input.consumes = some granted →
      ((∃ reading ∈ e₂.input.deadlineReadings,
          e₁.input.clock.now.toInt + granted.policy.leaseFor.toInt ≤ reading.toInt) ∨
        ∃ e other, [e₁, e, e₂].Sublist run ∧ Grants e other) →
      e₂.after = e₂.before) := by
  intro run
  have answered : ∀ e ∈ run, e = event step e.before e.input := event_of_mem start txs
  refine ⟨?_, fun _ _ _ => consumed_once, fun _ _ _ _ _ => overtaken_unconsumed, ?_, ?_⟩
  · intro e mem
    refine ⟨fun claim promotes => (promotes_generation (answered e mem) promotes).2, ?_⟩
    intro never
    rcases generation_step (answered e mem) with ⟨claim, promotes, _⟩ | ⟨_, kept⟩
    · exact absurd ⟨claim, promotes⟩ never
    · exact kept
  · intro e₁ e₂ c₁ c₂ ordered first second
    obtain ⟨base₁, advanced⟩ := promotes_generation (answered e₁ (ordered.subset (by simp))) first
    obtain ⟨base₂, _⟩ := promotes_generation (answered e₂ (ordered.subset (by simp))) second
    have passed : Stable step fun s => c₁.baseGeneration.toInt < s.generation.toInt :=
      fun s tx below => lt_of_lt_of_le below (generation_mono s tx)
    have later := passed.later start txs e₁ e₂ ordered (by rw [← base₁]; omega)
    rw [Int64.lt_iff_toInt_lt, ← base₂]
    exact later
  · intro e₁ e₂ granted ordered grants presents stale
    apply unconsumed_unchanged (answered e₂ (ordered.subset (by simp))) presents
    rcases stale with expired | ⟨e, other, between, replaced⟩
    · exact expired_unconsumed ordered grants expired
    · exact overtaken_unconsumed between grants replaced

end Runs

end GraphqlOrm.Cache
