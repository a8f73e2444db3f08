import GraphqlOrm.Router.Lifecycle

/-!
# The active graph and its inputs

The served graph is the composition of what was last admitted from each active source. A call either
leaves both as they are or puts a new graph in place together with the inputs that it was composed of.
-/
namespace GraphqlOrm.Router

variable {δ γ : Type}

/-! ### Inputs -/

/-- What a source contributes to a composition. -/
structure SourceInput (δ : Type) where
  name : String
  candidate : CandidateSubgraph
  descriptor : Option δ
  fingerprint : String

def FetchedSubgraph.input (name : String) (fetched : FetchedSubgraph δ) : SourceInput δ :=
  ⟨name, fetched.candidate, fetched.descriptor, fetched.fingerprint⟩

/-- The input of an active source. -/
def SourceRecord.input (name : String) (source : SourceRecord δ) : Option (SourceInput δ) :=
  if source.active then some (source.fetched.input name) else none

/-- The inputs of all active sources. -/
def LifecycleState.inputs (state : LifecycleState δ) : List (SourceInput δ) :=
  state.activeEntries.map fun entry => entry.2.fetched.input entry.1

def LifecycleState.activeInput (state : LifecycleState δ) (name : String) : Option (SourceInput δ) :=
  (state.sources.get? name).bind (SourceRecord.input name)

def compose (build : BuildSnapshot δ γ) (inputs : List (SourceInput δ)) (version : BitVec 64) :
    Except RouterError γ :=
  build (inputs.map SourceInput.candidate) (inputs.filterMap SourceInput.descriptor) version

/-- Graph, version and the inputs of the active sources are the same. -/
structure Unchanged (before after : GraphLifecycle δ γ) : Prop where
  active : after.active = before.active
  inputs : ∀ name, after.state.activeInput name = before.state.activeInput name

/-- A new graph of the inputs that are now the active ones. -/
structure Activated (build : BuildSnapshot δ γ) (before after : GraphLifecycle δ γ) : Prop where
  version : after.active.version = nextVersion before.active.version
  composed : ∃ inputs, inputs.Perm after.state.inputs ∧
    compose build inputs after.active.version = .ok after.active.graph

section Inputs

variable {state other : LifecycleState δ} {name : String} {input : SourceInput δ}

theorem mem_activeEntries {entry : String × SourceRecord δ} :
    entry ∈ state.activeEntries ↔
      state.sources.get? entry.1 = some entry.2 ∧ entry.2.active = true := by
  unfold LifecycleState.activeEntries
  rw [List.mem_filter, ← OrderedMap.mem_entries]

theorem input_eq_some {source : SourceRecord δ} :
    source.input name = some input ↔ source.active = true ∧ source.fetched.input name = input := by
  unfold SourceRecord.input
  split
  next active => exact ⟨fun own => ⟨active, Option.some.inj own⟩, fun own => congrArg some own.2⟩
  next inactive => exact ⟨fun own => (by cases own), fun own => absurd own.1 inactive⟩

theorem activeInput_eq_some :
    state.activeInput name = some input ↔
      ∃ source, state.sources.get? name = some source ∧ source.active = true ∧
        source.fetched.input name = input := by
  unfold LifecycleState.activeInput
  constructor
  · intro found
    obtain ⟨source, stored, own⟩ := Option.bind_eq_some_iff.mp found
    exact ⟨source, stored, input_eq_some.mp own⟩
  · rintro ⟨source, stored, active, rfl⟩
    rw [stored, Option.bind_some, SourceRecord.input, if_pos active]

theorem mem_inputs : input ∈ state.inputs ↔ state.activeInput input.name = some input := by
  unfold LifecycleState.inputs
  rw [List.mem_map, activeInput_eq_some]
  constructor
  · rintro ⟨⟨name, source⟩, mem, rfl⟩
    obtain ⟨stored, active⟩ := mem_activeEntries.mp mem
    exact ⟨source, stored, active, rfl⟩
  · rintro ⟨source, stored, active, same⟩
    exact ⟨(input.name, source), mem_activeEntries.mpr ⟨stored, active⟩, same⟩

theorem names_inputs (state : LifecycleState δ) : (state.inputs.map SourceInput.name).Nodup := by
  unfold LifecycleState.inputs
  rw [List.map_map]
  exact (List.filter_sublist.map _).nodup state.sources.keys_nodup

/-- The inputs by name determine the list, up to its order. -/
theorem inputs_perm {inputs : List (SourceInput δ)} (distinct : (inputs.map SourceInput.name).Nodup)
    (same : ∀ input, input ∈ inputs ↔ state.activeInput input.name = some input) :
    inputs.Perm state.inputs :=
  (List.perm_ext_iff_of_nodup distinct.of_map (names_inputs state).of_map).mpr fun input =>
    (same input).trans mem_inputs.symm

theorem perm_of_activeInput (same : ∀ name, other.activeInput name = state.activeInput name) :
    state.inputs.Perm other.inputs :=
  inputs_perm (names_inputs state) fun input => by rw [mem_inputs, same]

theorem compose_inputs (build : BuildSnapshot δ γ) (entries : List (String × FetchedSubgraph δ))
    (version : BitVec 64) :
    compose build (entries.map fun entry => entry.2.input entry.1) version =
      buildInputs build (entries.map Prod.snd) version := by
  unfold compose buildInputs
  rw [List.map_map, List.map_map, List.filterMap_map, List.filterMap_map]
  rfl

/-- Of an input only the schema and the descriptor are composed. -/
theorem buildInputs_congr (build : BuildSnapshot δ γ) {inputs others : List (FetchedSubgraph δ)}
    (texts : (inputs.map fun input => (input.candidate, input.descriptor)) =
      others.map fun input => (input.candidate, input.descriptor)) (version : BitVec 64) :
    buildInputs build inputs version = buildInputs build others version := by
  have candidates := congrArg (List.map Prod.fst) texts
  have descriptors := congrArg (List.filterMap Prod.snd) texts
  rw [List.map_map, List.map_map] at candidates
  rw [List.filterMap_map, List.filterMap_map] at descriptors
  exact congrArg₂ (build · · version) candidates descriptors

theorem activeInput_update (state : LifecycleState δ) (name other : String)
    (f : SourceRecord δ → SourceRecord δ) :
    (state.update name f).activeInput other =
      (state.sources.get? other).bind fun source =>
        (if other = name then f source else source).input other := by
  unfold LifecycleState.activeInput LifecycleState.update
  rw [OrderedMap.get?_mapValues]
  cases state.sources.get? other <;> rfl

/-- What leaves the input of the source leaves that of every source. -/
theorem activeInput_mark (state : LifecycleState δ) {name : String}
    {f : SourceRecord δ → SourceRecord δ}
    (same : ∀ source, (f source).input name = source.input name) (other : String) :
    (state.update name f).activeInput other = state.activeInput other := by
  rw [activeInput_update]
  unfold LifecycleState.activeInput
  refine congrArg (Option.bind _) (funext fun source => ?_)
  split
  next here =>
    rw [here, same]
  next => rfl

end Inputs

/-- The graph is composed of the inputs of the active sources. -/
def Composed (build : BuildSnapshot δ γ) (lifecycle : GraphLifecycle δ γ) : Prop :=
  ∃ inputs, inputs.Perm lifecycle.state.inputs ∧
    compose build inputs lifecycle.active.version = .ok lifecycle.active.graph

theorem Composed.unchanged {build : BuildSnapshot δ γ} {before after : GraphLifecycle δ γ}
    (composed : Composed build before) (same : Unchanged before after) : Composed build after := by
  obtain ⟨inputs, perm, built⟩ := composed
  refine ⟨inputs, perm.trans (perm_of_activeInput same.inputs), ?_⟩
  rw [same.active]
  exact built

/-! ### Refresh -/

section Refresh

variable {build : BuildSnapshot δ γ} {lifecycle : GraphLifecycle δ γ} {now : Nat} {fetch : Fetch δ}

theorem active_note (source : SourceRecord δ) (seen : Seen δ) :
    (source.note now seen).active = source.active := by
  cases seen <;> rfl

/-- What is noted about a source leaves its input alone: of a fetch with the same fingerprint only
the tags are taken. -/
theorem input_note (name : String) (source : SourceRecord δ) (seen : Seen δ) :
    (source.note now seen).input name = source.input name := by
  cases seen <;> rfl

theorem input_reject (details name : String) (source : SourceRecord δ) (seen : Seen δ) :
    (source.reject details seen).input name = source.input name := by
  cases seen <;> rfl

theorem active_accept (source : SourceRecord δ) (seen : Seen δ) :
    (source.accept now seen).active = source.active := by
  cases seen <;> rfl

theorem fetched_accept (source : SourceRecord δ) (seen : Seen δ) :
    (source.accept now seen).fetched = source.nextInput seen := by
  cases seen <;> rfl

/-- A pass over the sources that activates and disables none. -/
theorem activeEntries_mapValues (state : LifecycleState δ)
    (f : String → SourceRecord δ → SourceRecord δ)
    (kept : ∀ name source, (f name source).active = source.active) :
    LifecycleState.activeEntries { state with sources := state.sources.mapValues f } =
      state.activeEntries.map fun entry => (entry.1, f entry.1 entry.2) := by
  unfold LifecycleState.activeEntries OrderedMap.mapValues
  rw [List.filter_map]
  refine congrArg (List.map _) (List.filter_congr fun entry _ => ?_)
  exact kept entry.1 entry.2

theorem activeInput_mapValues (state : LifecycleState δ)
    (f : String → SourceRecord δ → SourceRecord δ) (name : String) :
    LifecycleState.activeInput { state with sources := state.sources.mapValues f } name =
      (state.sources.get? name).bind fun source => (f name source).input name := by
  unfold LifecycleState.activeInput
  rw [OrderedMap.get?_mapValues]
  cases state.sources.get? name <;> rfl

/-- The inputs that a refresh composes, with the names of their sources. -/
def LifecycleState.nextInputs (state : LifecycleState δ) (now : Nat) (fetch : Fetch δ) :
    List (String × FetchedSubgraph δ) :=
  state.activeEntries.map fun entry =>
    (entry.1, (entry.2.note now (entry.2.see fetch entry.1)).nextInput (entry.2.see fetch entry.1))

/-- Some active source was fetched with a schema that was not seen at its last refresh. -/
def LifecycleState.anyChanged (state : LifecycleState δ) (fetch : Fetch δ) : Bool :=
  state.sources.entries.any fun entry => (entry.2.see fetch entry.1).isChanged

/-- The sources after a refresh, by what it did with each of them. -/
def LifecycleState.refreshed (state : LifecycleState δ) (fetch : Fetch δ)
    (act : SourceRecord δ → Seen δ → SourceRecord δ) : OrderedMap String (SourceRecord δ) :=
  state.sources.mapValues fun name source => act source (source.see fetch name)

/-- The three ways in which a refresh ends. -/
theorem refresh_cases (build : BuildSnapshot δ γ) (now : Nat) (fetch : Fetch δ)
    (lifecycle : GraphLifecycle δ γ) :
    (lifecycle.state.anyChanged fetch = false ∧
      lifecycle.refresh build now fetch = (.unchanged,
        { lifecycle with state := { lifecycle.state with
            sources := lifecycle.state.refreshed fetch (SourceRecord.note now) } })) ∨
    (∃ error, lifecycle.state.anyChanged fetch = true ∧
      buildInputs build ((lifecycle.state.nextInputs now fetch).map Prod.snd)
        (nextVersion lifecycle.active.version) = .error error ∧
      lifecycle.refresh build now fetch = (.rejected,
        { lifecycle with state := { lifecycle.state with
            sources := lifecycle.state.refreshed fetch fun source seen =>
              (source.note now seen).reject error.message seen
            lastCompositionError := some error.message } })) ∨
    (∃ graph, lifecycle.state.anyChanged fetch = true ∧
      buildInputs build ((lifecycle.state.nextInputs now fetch).map Prod.snd)
        (nextVersion lifecycle.active.version) = .ok graph ∧
      lifecycle.refresh build now fetch = (.activated,
        { active := ⟨nextVersion lifecycle.active.version, graph⟩
          state := { lifecycle.state with
            sources := lifecycle.state.refreshed fetch fun source seen =>
              (source.note now seen).accept now seen
            lastSuccessfulComposition := now
            lastCompositionError := none } })) := by
  have composed : (lifecycle.state.nextInputs now fetch).map Prod.snd =
      lifecycle.state.activeEntries.map fun entry =>
        (entry.2.note now (entry.2.see fetch entry.1)).nextInput (entry.2.see fetch entry.1) := by
    unfold LifecycleState.nextInputs
    rw [List.map_map]
    rfl
  rw [composed]
  cases changed : lifecycle.state.anyChanged fetch with
  | false =>
    left
    refine ⟨rfl, ?_⟩
    unfold GraphLifecycle.refresh
    exact if_neg (ne_true_of_eq_false changed)
  | true =>
    right
    -- What is fetched is composed as a whole: it is either rejected or admitted.
    cases built : buildInputs build (lifecycle.state.activeEntries.map fun entry =>
        (entry.2.note now (entry.2.see fetch entry.1)).nextInput (entry.2.see fetch entry.1))
        (nextVersion lifecycle.active.version) with
    | error error =>
      left
      refine ⟨error, rfl, rfl, ?_⟩
      unfold GraphLifecycle.refresh
      refine (if_pos changed).trans ?_
      simp only [built]
      rfl
    | ok graph =>
      right
      refine ⟨graph, rfl, rfl, ?_⟩
      unfold GraphLifecycle.refresh
      refine (if_pos changed).trans ?_
      simp only [built]
      rfl

/-- The input of a source after a refresh that did `act` with the sources. -/
theorem activeInput_refreshed (state : LifecycleState δ) (act : SourceRecord δ → Seen δ → SourceRecord δ)
    (name : String) (composedAt : Nat) (error : Option String) :
    LifecycleState.activeInput
        { state with
          sources := state.refreshed fetch act
          lastSuccessfulComposition := composedAt
          lastCompositionError := error } name =
      (state.sources.get? name).bind fun source =>
        (act source (source.see fetch name)).input name := by
  exact activeInput_mapValues state (fun name source => act source (source.see fetch name)) name

theorem refresh_unchanged (kept : (lifecycle.refresh build now fetch).1 ≠ .activated) :
    Unchanged lifecycle (lifecycle.refresh build now fetch).2 := by
  obtain ⟨_, refreshed⟩ | ⟨error, _, _, refreshed⟩ | ⟨graph, _, _, refreshed⟩ :=
    refresh_cases build now fetch lifecycle
  · rw [refreshed]
    refine ⟨rfl, fun name => ?_⟩
    refine (activeInput_refreshed lifecycle.state _ name _ _).trans ?_
    simp only [input_note]
    rfl
  · rw [refreshed]
    refine ⟨rfl, fun name => ?_⟩
    refine (activeInput_refreshed lifecycle.state _ name _ _).trans ?_
    simp only [input_reject, input_note]
    rfl
  · rw [refreshed] at kept
    exact absurd rfl kept

theorem inputs_refreshed (state : LifecycleState δ) (composedAt : Nat) (error : Option String) :
    LifecycleState.inputs
        { state with
          sources := state.refreshed fetch fun source seen =>
            (source.note now seen).accept now seen
          lastSuccessfulComposition := composedAt
          lastCompositionError := error } =
      (state.nextInputs now fetch).map fun entry => entry.2.input entry.1 := by
  unfold LifecycleState.inputs
  have entries := activeEntries_mapValues state
    (fun name source => (source.note now (source.see fetch name)).accept now (source.see fetch name))
    fun name source => (active_accept _ _).trans (active_note _ _)
  refine (congrArg (List.map _) entries).trans ?_
  unfold LifecycleState.nextInputs
  rw [List.map_map, List.map_map]
  refine List.map_congr_left fun entry _ => ?_
  exact congrArg (FetchedSubgraph.input entry.1) (fetched_accept _ _)

theorem refresh_activated (moved : (lifecycle.refresh build now fetch).1 = .activated) :
    Activated build lifecycle (lifecycle.refresh build now fetch).2 := by
  obtain ⟨_, refreshed⟩ | ⟨error, _, _, refreshed⟩ | ⟨graph, _, built, refreshed⟩ :=
    refresh_cases build now fetch lifecycle
  · rw [refreshed] at moved
    cases moved
  · rw [refreshed] at moved
    cases moved
  · rw [refreshed]
    refine ⟨rfl, _, List.Perm.refl _, ?_⟩
    rw [inputs_refreshed, compose_inputs]
    exact built

/-- A refresh disables and enables no source. -/
theorem refresh_active (name : String) :
    ((lifecycle.refresh build now fetch).2.state.activeInput name).isSome =
      (lifecycle.state.activeInput name).isSome := by
  obtain ⟨_, refreshed⟩ | ⟨error, _, _, refreshed⟩ | ⟨graph, _, _, refreshed⟩ :=
    refresh_cases build now fetch lifecycle
  all_goals
    rw [refreshed]
    refine (congrArg Option.isSome (activeInput_refreshed lifecycle.state _ name _ _)).trans ?_
    unfold LifecycleState.activeInput
    cases lifecycle.state.sources.get? name with
    | none => rfl
    | some source => ?_
  · exact congrArg Option.isSome (input_note name source _)
  · exact congrArg Option.isSome ((input_reject _ name _ _).trans (input_note name source _))
  · simp only [Option.bind_some, SourceRecord.input, active_accept, active_note]
    split <;> rfl

/-- A source keeps its input at a refresh that sees no new schema of it. -/
theorem refresh_keeps {name : String} {source : SourceRecord δ}
    (stored : lifecycle.state.sources.get? name = some source)
    (same : (source.see fetch name).isChanged = false) :
    (lifecycle.refresh build now fetch).2.state.activeInput name =
      lifecycle.state.activeInput name := by
  obtain ⟨_, refreshed⟩ | ⟨error, _, _, refreshed⟩ | ⟨graph, _, _, refreshed⟩ :=
    refresh_cases build now fetch lifecycle
  all_goals
    rw [refreshed]
    refine (activeInput_refreshed lifecycle.state _ name _ _).trans ?_
    unfold LifecycleState.activeInput
    rw [stored]
  · exact input_note name source _
  · exact (input_reject _ name _ _).trans (input_note name source _)
  · have admitted : (source.note now (source.see fetch name)).accept now (source.see fetch name) =
        source.note now (source.see fetch name) := by
      cases seen : source.see fetch name with
      | changed fetched =>
        rw [seen] at same
        cases same
      | _ => rfl
    exact (congrArg (SourceRecord.input name) admitted).trans (input_note name source _)

end Refresh

/-! ### Removal -/

section Removal

variable {build : BuildSnapshot δ γ} {lifecycle : GraphLifecycle δ γ} {now : Nat} {name : String}

/-- The inputs of the active sources but one. -/
theorem inputs_without (state : LifecycleState δ) (name : String)
    (f : SourceRecord δ → SourceRecord δ) (off : ∀ source, (f source).active = false) :
    ((state.activeEntries.filter fun entry => entry.1 ≠ name).map
      fun entry => entry.2.fetched.input entry.1).Perm (state.update name f).inputs := by
  apply inputs_perm
  · rw [List.map_map]
    exact ((List.filter_sublist.trans List.filter_sublist).map _).nodup state.sources.keys_nodup
  · intro input
    rw [List.mem_map, activeInput_update, Option.bind_eq_some_iff]
    constructor
    · rintro ⟨⟨own, source⟩, mem, rfl⟩
      obtain ⟨entry, other⟩ := List.mem_filter.mp mem
      obtain ⟨stored, active⟩ := mem_activeEntries.mp entry
      have other : own ≠ name := of_decide_eq_true other
      refine ⟨source, stored, ?_⟩
      exact (congrArg (SourceRecord.input own) (if_neg other)).trans (if_pos active)
    · rintro ⟨source, stored, stays⟩
      by_cases removed : input.name = name
      · rw [if_pos removed, SourceRecord.input, if_neg (ne_true_of_eq_false (off source))] at stays
        cases stays
      · rw [if_neg removed] at stays
        obtain ⟨active, own⟩ := input_eq_some.mp stays
        exact ⟨(input.name, source), List.mem_filter.mpr
          ⟨mem_activeEntries.mpr ⟨stored, active⟩, decide_eq_true removed⟩, own⟩

theorem removeSubgraph_cases (build : BuildSnapshot δ γ) (now : Nat) (name : String)
    (lifecycle : GraphLifecycle δ γ) :
    ((lifecycle.removeSubgraph build now name).1.isOk = false ∧
      Unchanged lifecycle (lifecycle.removeSubgraph build now name).2) ∨
    ((lifecycle.removeSubgraph build now name).1.isOk = true ∧
      Activated build lifecycle (lifecycle.removeSubgraph build now name).2) := by
  unfold GraphLifecycle.removeSubgraph
  simp only
  split
  · exact .inl ⟨rfl, rfl, fun _ => rfl⟩
  · split
    · exact .inl ⟨rfl, rfl, fun _ => rfl⟩
    · split
      · left
        -- The source that stays is marked, with its input as it was.
        exact ⟨rfl, rfl, activeInput_mark lifecycle.state fun _ => rfl⟩
      next graph built =>
        right
        refine ⟨rfl, rfl, _, inputs_without lifecycle.state name _ fun _ => rfl, ?_⟩
        have composed := compose_inputs build ((lifecycle.state.activeEntries.filter
          fun entry => entry.1 ≠ name).map fun entry => (entry.1, entry.2.fetched))
          (nextVersion lifecycle.active.version)
        rw [List.map_map, List.map_map] at composed
        exact composed.trans built

end Removal

/-! ### Registration -/

section Registration

variable {build : BuildSnapshot δ γ} {lifecycle : GraphLifecycle δ γ} {now : Nat} {name : String}
  {fetched : FetchedSubgraph δ}

/-- What is stored for a source by an insertion, with its attempts forgotten. -/
theorem activeInput_insert (state : LifecycleState δ) (own other : String) (source : SourceRecord δ)
    (attempts : OrderedMap String AdmissionAttempt) (composedAt : Nat) (error : Option String) :
    LifecycleState.activeInput ⟨state.sources.insert own source, attempts, composedAt, error⟩ other =
      if other = own then source.input own else state.activeInput other := by
  unfold LifecycleState.activeInput
  rw [OrderedMap.get?_insert]
  split
  next same =>
    rw [same]
    rfl
  · rfl

theorem activeInput_inactive {state : LifecycleState δ}
    (inactive : ¬((state.sources.get? name).any fun source => source.active) = true) :
    state.activeInput name = none := by
  cases own : state.activeInput name with
  | none => rfl
  | some input =>
    obtain ⟨source, stored, active, _⟩ := activeInput_eq_some.mp own
    rw [stored] at inactive
    exact absurd active inactive

/-- The inputs of the active sources and the one of a source that was not active. -/
theorem inputs_with (state : LifecycleState δ) (source : SourceRecord δ) (active : source.active)
    (inactive : state.activeInput name = none) (attempts : OrderedMap String AdmissionAttempt)
    (composedAt : Nat) (error : Option String) :
    (state.inputs ++ [source.fetched.input name]).Perm
      (LifecycleState.inputs ⟨state.sources.insert name source, attempts, composedAt, error⟩) := by
  apply inputs_perm
  · rw [List.map_append]
    refine List.nodup_append.mpr ⟨names_inputs _, List.nodup_singleton _, ?_⟩
    intro taken mem other single same
    obtain ⟨input, listed, rfl⟩ := List.mem_map.mp mem
    rw [List.mem_singleton.mp single] at same
    have found := mem_inputs.mp listed
    rw [same, FetchedSubgraph.input, inactive] at found
    cases found
  · intro input
    rw [List.mem_append, mem_inputs, List.mem_singleton, activeInput_insert]
    have own : source.input name = some (source.fetched.input name) := if_pos active
    split
    next same =>
      rw [same, inactive, own]
      constructor
      · rintro (found | rfl)
        · cases found
        · rfl
      · intro stored
        exact .inr (Option.some.inj stored).symm
    next different =>
      constructor
      · rintro (found | rfl)
        · exact found
        · exact absurd rfl different
      · exact .inl

theorem registerDynamic_cases (build : BuildSnapshot δ γ) (now : Nat) (name : String)
    (fetched : FetchedSubgraph δ) (lifecycle : GraphLifecycle δ γ) :
    ((lifecycle.registerDynamic build now name fetched).1.isOk = false ∧
      Unchanged lifecycle (lifecycle.registerDynamic build now name fetched).2) ∨
    ((lifecycle.registerDynamic build now name fetched).1.isOk = true ∧
      Activated build lifecycle (lifecycle.registerDynamic build now name fetched).2) := by
  unfold GraphLifecycle.registerDynamic
  simp only
  split
  · exact .inl ⟨rfl, rfl, fun _ => rfl⟩
  next inactive =>
    have inactive := activeInput_inactive inactive
    split
    · exact .inl ⟨rfl, rfl, fun _ => rfl⟩
    next own =>
      rw [Decidable.not_not.mp own]
      split
      · left
        refine ⟨rfl, rfl, fun other => ?_⟩
        -- The rejected record takes the place of one that was not active either.
        refine (activeInput_insert lifecycle.state name other _ _ _ _).trans ?_
        split
        next same =>
          rw [same, inactive]
          rfl
        · rfl
      next graph built =>
        right
        refine ⟨rfl, rfl, _, inputs_with lifecycle.state _ rfl inactive _ _ _, ?_⟩
        have composed := compose_inputs build
          ((lifecycle.state.activeEntries.map fun entry => (entry.1, entry.2.fetched)) ++
            [(name, fetched)]) (nextVersion lifecycle.active.version)
        rw [List.map_append, List.map_append, List.map_map, List.map_map] at composed
        exact composed.trans built

theorem recordRegistrationState_unchanged (id : String) (registrationState : SubgraphRuntimeState) :
    Unchanged lifecycle (lifecycle.recordRegistrationState name id registrationState) := by
  unfold GraphLifecycle.recordRegistrationState
  simp only
  split
  · exact ⟨rfl, activeInput_mark lifecycle.state fun source => by unfold SourceRecord.input; grind⟩
  · exact ⟨rfl, fun _ => rfl⟩

theorem recordRegistrationRejected_unchanged (id : String) (error : RouterError) :
    Unchanged lifecycle (lifecycle.recordRegistrationRejected name id error) := by
  unfold GraphLifecycle.recordRegistrationRejected
  simp only
  split
  · exact ⟨rfl, activeInput_mark lifecycle.state fun source => by unfold SourceRecord.input; grind⟩
  · exact ⟨rfl, fun _ => rfl⟩

end Registration

end GraphqlOrm.Router
