import GraphqlOrm.Router.LifecycleRuns

/-!
# The graph that is served after any calls

From the first graph on, whatever the fetches give and the compositions refuse, the served graph is
the composition of the inputs that the status reports.
-/
namespace GraphqlOrm.Router

variable {δ γ : Type}

/-! ### The first graph -/

def configured (now : Nat) (input : FetchedSubgraph δ) : SourceRecord δ where
  fetched := input
  observed := none
  sourceKind := .static
  state := .active
  active := true
  observedFingerprint := none
  lastError := none
  lastSuccessfulRefresh := some now

variable {build : BuildSnapshot δ γ} {start : GraphLifecycle δ γ}

section

variable {now : Nat} {subgraphs : List String} {fetched : List (FetchedSubgraph δ)}
    (started : GraphLifecycle.new build now subgraphs fetched = .ok start)
include started

theorem new_ok :
    subgraphs = (fetched.map fun input => input.candidate.name) ∧
      start.active.version = 1 ∧ buildInputs build fetched 1 = .ok start.active.graph ∧
      ∀ name, start.state.sources.get? name =
        (fetched.reverse.find? fun input => input.candidate.name = name).map (configured now) := by
  unfold GraphLifecycle.new at started
  split at started
  · cases started
  next named =>
    refine ⟨Decidable.not_not.mp named, ?_⟩
    cases built : buildInputs build fetched 1 with
    | error error =>
      rw [built] at started
      cases started
    | ok graph =>
      rw [built] at started
      cases started
      refine ⟨rfl, rfl, fun name => ?_⟩
      exact (OrderedMap.get?_foldl_value (fun input : FetchedSubgraph δ => input.candidate.name)
        (configured now) fetched .empty name).trans Option.or_none

theorem new_composed (distinct : subgraphs.Nodup) : Composed build start := by
  obtain ⟨named, version, built, sources⟩ := new_ok started
  rw [named] at distinct
  refine ⟨fetched.map fun input => input.input input.candidate.name, ?_, ?_⟩
  · apply inputs_perm
    · rw [List.map_map]
      exact distinct
    · intro input
      rw [List.mem_map, LifecycleState.activeInput, sources]
      constructor
      · rintro ⟨listed, mem, rfl⟩
        cases found : fetched.reverse.find? fun other =>
            other.candidate.name = listed.candidate.name with
        | none =>
          have absent := List.find?_eq_none.mp found listed (List.mem_reverse.mpr mem)
          simp at absent
        | some other =>
          have among := List.mem_reverse.mp (List.mem_of_find?_eq_some found)
          have same : other.candidate.name = listed.candidate.name := by
            simpa using List.find?_some found
          rw [List.inj_on_of_nodup_map distinct among mem same] at found
          exact (congrArg (fun first => (Option.map (configured now) first).bind _) found).trans rfl
      · intro own
        obtain ⟨source, stored, same⟩ := Option.bind_eq_some_iff.mp own
        obtain ⟨listed, found, rfl⟩ := Option.map_eq_some_iff.mp stored
        have named : listed.candidate.name = input.name := by simpa using List.find?_some found
        refine ⟨listed, List.mem_reverse.mp (List.mem_of_find?_eq_some found), ?_⟩
        rw [named]
        exact Option.some.inj ((if_pos rfl).symm.trans same)
  · have composed := compose_inputs build
      (fetched.map fun input => (input.candidate.name, input)) 1
    rw [List.map_map, List.map_map] at composed
    rw [version]
    refine composed.trans ((congrArg (buildInputs build · 1) ?_).trans built)
    exact List.map_id fetched

end

/-! ### Calls -/

def Call.activates (build : BuildSnapshot δ γ) (lifecycle : GraphLifecycle δ γ) : Call δ → Bool
  | refresh now fetch => (lifecycle.refresh build now fetch).1 = .activated
  | removeSubgraph now name => (lifecycle.removeSubgraph build now name).1.isOk
  | registerDynamic now name fetched => (lifecycle.registerDynamic build now name fetched).1.isOk
  | recordRegistrationCandidate _ _ => false
  | recordRegistration _ _ => false
  | recordRegistrationRejected _ _ _ => false

theorem call_cases (build : BuildSnapshot δ γ) (lifecycle : GraphLifecycle δ γ) (call : Call δ) :
    (call.activates build lifecycle = false ∧ Unchanged lifecycle (call.run build lifecycle)) ∨
    (call.activates build lifecycle = true ∧ Activated build lifecycle (call.run build lifecycle)) := by
  cases call with
  | refresh now fetch =>
    by_cases moved : (lifecycle.refresh build now fetch).1 = .activated
    · exact .inr ⟨decide_eq_true moved, refresh_activated moved⟩
    · exact .inl ⟨decide_eq_false moved, refresh_unchanged moved⟩
  | removeSubgraph now name => exact removeSubgraph_cases build now name lifecycle
  | registerDynamic now name fetched => exact registerDynamic_cases build now name fetched lifecycle
  | recordRegistrationCandidate name id =>
    exact .inl ⟨rfl, recordRegistrationState_unchanged id .candidate⟩
  | recordRegistration name id => exact .inl ⟨rfl, recordRegistrationState_unchanged id .registered⟩
  | recordRegistrationRejected name id error =>
    exact .inl ⟨rfl, recordRegistrationRejected_unchanged id error⟩

theorem call_composed {lifecycle : GraphLifecycle δ γ} (composed : Composed build lifecycle)
    (call : Call δ) :
    Composed build (call.run build lifecycle) := by
  rcases call_cases build lifecycle call with ⟨_, same⟩ | ⟨_, moved⟩
  · exact composed.unchanged same
  · exact moved.composed

theorem runCalls_composed (composed : Composed build start) (calls : List (Call δ)) :
    Composed build (runCalls build start calls) := by
  unfold runCalls
  induction calls generalizing start with
  | nil => exact composed
  | cons call rest ih => exact ih (call_composed composed call)

theorem nextVersion_toNat (version : BitVec 64) :
    (nextVersion version).toNat = min (version.toNat + 1) (2 ^ 64 - 1) := by
  unfold nextVersion
  split
  next last =>
    rw [last]
    decide
  next other =>
    have below : version.toNat ≠ 2 ^ 64 - 1 := fun same =>
      other (BitVec.eq_of_toNat_eq (same.trans BitVec.toNat_allOnes.symm))
    have bound := version.isLt
    rw [BitVec.toNat_add, show (1 : BitVec 64).toNat = 1 from rfl]
    omega

/-! ### Status -/

/-- The fingerprints that the status reports as active are those of the active inputs. -/
theorem status_activeFingerprint (idOf : δ → String) (lifecycle : GraphLifecycle δ γ)
    (name fingerprint : String) :
    (∃ status ∈ (lifecycle.status idOf).subgraphs,
      status.name = name ∧ status.activeFingerprint = some fingerprint) ↔
    ∃ input ∈ lifecycle.state.inputs, input.name = name ∧ input.fingerprint = fingerprint := by
  unfold GraphLifecycle.status
  simp only [mem_sortBy, List.mem_append, List.mem_map]
  constructor
  · rintro ⟨status, ⟨entry, mem, rfl⟩ | ⟨attempt, _, rfl⟩, rfl, reported⟩
    · unfold sourceStatus at reported
      split at reported
      next active =>
        refine ⟨entry.2.fetched.input entry.1, List.mem_map.mpr ⟨entry, ?_, rfl⟩, rfl,
          Option.some.inj reported⟩
        exact List.mem_filter.mpr ⟨mem, active⟩
      · cases reported
    · cases reported
  · rintro ⟨input, mem, rfl, rfl⟩
    obtain ⟨entry, listed, rfl⟩ := List.mem_map.mp mem
    obtain ⟨stored, active⟩ := List.mem_filter.mp listed
    exact ⟨sourceStatus idOf entry.1 entry.2, .inl ⟨entry, stored, rfl⟩, rfl, if_pos active⟩

/-! ### Every state of every run -/

/-- The served graph is composed of exactly the inputs that the status reports, at its version. A
call that activates raises the version, up to the last one; any other call leaves the graph and all
active inputs alone, and so does a refresh with a source that it cannot fetch. -/
theorem graph_follows_inputs (build : BuildSnapshot δ γ) (now : Nat) (subgraphs : List String)
    (fetched : List (FetchedSubgraph δ)) (start : GraphLifecycle δ γ)
    (started : GraphLifecycle.new build now subgraphs fetched = .ok start)
    (distinct : subgraphs.Nodup) (calls : List (Call δ)) :
    (∃ inputs, inputs.Perm (runCalls build start calls).state.inputs ∧
      compose build inputs (runCalls build start calls).active.version =
        .ok (runCalls build start calls).active.graph ∧
      ∀ (idOf : δ → String) (name fingerprint : String),
        (∃ status ∈ ((runCalls build start calls).status idOf).subgraphs,
          status.name = name ∧ status.activeFingerprint = some fingerprint) ↔
        ∃ input ∈ inputs, input.name = name ∧ input.fingerprint = fingerprint) ∧
    ∀ call : Call δ,
      (call.activates build (runCalls build start calls) = true →
        (call.run build (runCalls build start calls)).active.version.toNat =
          min ((runCalls build start calls).active.version.toNat + 1) (2 ^ 64 - 1)) ∧
      (call.activates build (runCalls build start calls) = false →
        (call.run build (runCalls build start calls)).active =
            (runCalls build start calls).active ∧
        ∀ name, (call.run build (runCalls build start calls)).state.activeInput name =
          (runCalls build start calls).state.activeInput name) ∧
      ∀ now fetch, call = .refresh now fetch →
        (∀ name, ((call.run build (runCalls build start calls)).state.activeInput name).isSome =
          ((runCalls build start calls).state.activeInput name).isSome) ∧
        ∀ name source error, (runCalls build start calls).state.sources.get? name = some source →
          fetch name (source.observed.getD source.fetched) = .error error →
          (call.run build (runCalls build start calls)).state.activeInput name =
            (runCalls build start calls).state.activeInput name := by
  refine ⟨?_, fun call => ⟨?_, ?_, ?_⟩⟩
  · obtain ⟨inputs, perm, built⟩ := runCalls_composed (new_composed started distinct) calls
    refine ⟨inputs, perm, built, fun idOf name fingerprint => ?_⟩
    rw [status_activeFingerprint]
    simp only [perm.mem_iff]
  · intro moves
    rcases call_cases build (runCalls build start calls) call with ⟨stays, _⟩ | ⟨_, moved⟩
    · rw [stays] at moves
      cases moves
    · rw [moved.version, nextVersion_toNat]
  · intro stays
    rcases call_cases build (runCalls build start calls) call with ⟨_, same⟩ | ⟨moves, _⟩
    · exact ⟨same.active, same.inputs⟩
    · rw [stays] at moves
      cases moves
  · rintro now fetch rfl
    refine ⟨fun name => refresh_active name, fun name source error stored failed => ?_⟩
    apply refresh_keeps stored
    unfold SourceRecord.see
    split
    · rfl
    · rw [failed]
      rfl

/-! ### The last version -/

def switching (turn : Bool) : FetchedSubgraph Unit :=
  let sdl := if turn then "type Query { a: Int }" else "type Query { b: Int }"
  ⟨⟨"accounts", "http://accounts/graphql", sdl, none⟩, none, none, none, sdl⟩

def takeAll : BuildSnapshot Unit (List CandidateSubgraph) := fun candidates _ _ => .ok candidates

def switched (version : BitVec 64) (turn : Bool) : GraphLifecycle Unit (List CandidateSubgraph) where
  active := ⟨version, [(switching turn).candidate]⟩
  state :=
    { sources := OrderedMap.empty.insert "accounts" (configured 0 (switching turn))
      admissionAttempts := .empty
      lastSuccessfulComposition := 0
      lastCompositionError := none }

def switchTo (turn : Bool) : Call Unit := .refresh 0 fun _ _ => .ok (switching turn)

theorem switched_step (version : BitVec 64) (turn : Bool) :
    (switchTo !turn).run takeAll (switched version turn) =
      switched (nextVersion version) !turn := by
  cases turn <;> rfl

theorem switching_other (turn : Bool) :
    [(switching !turn).candidate] ≠ [(switching turn).candidate] := by
  cases turn <;> decide

/-- Refreshes that each find the other schema reach every version. -/
theorem switched_reaches (count : Nat) :
    ∃ (calls : List (Call Unit)) (version : BitVec 64) (turn : Bool),
      runCalls takeAll (switched 1 true) calls = switched version turn ∧
        version.toNat = min (count + 1) (2 ^ 64 - 1) := by
  induction count with
  | zero => exact ⟨[], 1, true, rfl, rfl⟩
  | succ count ih =>
    obtain ⟨calls, version, turn, reached, number⟩ := ih
    refine ⟨calls ++ [switchTo !turn], nextVersion version, !turn, ?_, ?_⟩
    · unfold runCalls at reached ⊢
      rw [List.foldl_append, reached]
      exact switched_step version turn
    · rw [nextVersion_toNat, number]
      omega

/-- At the last version a refresh puts another graph in place under the same version. -/
theorem version_saturates :
    ∃ (start : GraphLifecycle Unit (List CandidateSubgraph)) (calls : List (Call Unit))
        (call : Call Unit),
      GraphLifecycle.new takeAll 0 ["accounts"] [switching true] = .ok start ∧
      (call.run takeAll (runCalls takeAll start calls)).active.graph ≠
        (runCalls takeAll start calls).active.graph ∧
      (call.run takeAll (runCalls takeAll start calls)).active.version =
        (runCalls takeAll start calls).active.version := by
  obtain ⟨calls, version, turn, reached, number⟩ := switched_reaches (2 ^ 64)
  have last : version = BitVec.allOnes 64 := BitVec.eq_of_toNat_eq (by
    rw [number, BitVec.toNat_allOnes]
    omega)
  refine ⟨switched 1 true, calls, switchTo !turn, rfl, ?_, ?_⟩
  · rw [reached, switched_step]
    exact switching_other turn
  · rw [reached, switched_step, last]
    show nextVersion (BitVec.allOnes 64) = BitVec.allOnes 64
    exact if_pos rfl

theorem graph_follows_inputs_switched :
    ∃ inputs, inputs.Perm (runCalls takeAll (switched 1 true) [switchTo false]).state.inputs ∧
      compose takeAll inputs (runCalls takeAll (switched 1 true) [switchTo false]).active.version =
        .ok (runCalls takeAll (switched 1 true) [switchTo false]).active.graph :=
  have ⟨⟨inputs, perm, built, _⟩, _⟩ := graph_follows_inputs takeAll 0 ["accounts"]
    [switching true] (switched 1 true) rfl (List.nodup_singleton _) [switchTo false]
  ⟨inputs, perm, built⟩

end GraphqlOrm.Router
