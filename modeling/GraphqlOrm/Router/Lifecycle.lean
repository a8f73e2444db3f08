import GraphqlOrm.Foundation.StableSort
import Mathlib.Data.String.Basic

/-!
# The lifecycle of the router's graph

The sources that a router knows, what was last fetched from each, and the graph that is served.
Composition is a parameter: what it does with its inputs is not looked into. Every call runs under
the lock of the state, so that calls follow one another.
-/
namespace GraphqlOrm.Router

inductive RouterErrorKind where
  | invalidConfiguration | schemaFetch | composition | runtime | authorizationMetadata
  | networkPolicy | registration | server

structure RouterError where
  kind : RouterErrorKind
  message : String

inductive SubgraphSourceKind where
  | static | dynamic

inductive SubgraphRuntimeState where
  | registered | candidate | active | unhealthy | rejected | disabled

structure CandidateSubgraph where
  name : String
  endpoint : String
  sdl : String
  revision : Option String
deriving DecidableEq

/-- What one fetch of a source gives. The fingerprint is the one of the schema and the descriptor. -/
structure FetchedSubgraph (δ : Type) where
  candidate : CandidateSubgraph
  descriptor : Option δ
  sdlEtag : Option String
  descriptorEtag : Option String
  fingerprint : String

structure SourceRecord (δ : Type) where
  fetched : FetchedSubgraph δ
  observed : Option (FetchedSubgraph δ)
  sourceKind : SubgraphSourceKind
  state : SubgraphRuntimeState
  active : Bool
  observedFingerprint : Option String
  lastError : Option String
  lastSuccessfulRefresh : Option Nat

structure AdmissionAttempt where
  id : String
  state : SubgraphRuntimeState
  lastError : Option String

structure LifecycleState (δ : Type) where
  sources : OrderedMap String (SourceRecord δ)
  admissionAttempts : OrderedMap String AdmissionAttempt
  lastSuccessfulComposition : Nat
  lastCompositionError : Option String

/-- The graph that is served, with its version. -/
structure ActiveRouterGraph (γ : Type) where
  version : BitVec 64
  graph : γ

structure GraphLifecycle (δ γ : Type) where
  active : ActiveRouterGraph γ
  state : LifecycleState δ

/-- `build_snapshot` under the options of the router. -/
abbrev BuildSnapshot (δ γ : Type) : Type :=
  List CandidateSubgraph → List δ → BitVec 64 → Except RouterError γ

section Calls

variable {δ γ : Type}

/-- `saturating_add(1)`. -/
def nextVersion (version : BitVec 64) : BitVec 64 :=
  if version = BitVec.allOnes 64 then version else version + 1

def buildInputs (build : BuildSnapshot δ γ) (inputs : List (FetchedSubgraph δ))
    (version : BitVec 64) : Except RouterError γ :=
  build (inputs.map FetchedSubgraph.candidate) (inputs.filterMap FetchedSubgraph.descriptor) version

namespace LifecycleState

def activeEntries (state : LifecycleState δ) : List (String × SourceRecord δ) :=
  state.sources.entries.filter fun entry => entry.2.active

def update (state : LifecycleState δ) (name : String) (f : SourceRecord δ → SourceRecord δ) :
    LifecycleState δ :=
  { state with sources := state.sources.mapValues fun other source =>
      if other = name then f source else source }

end LifecycleState

/-! ### The first graph -/

def GraphLifecycle.new (build : BuildSnapshot δ γ) (now : Nat) (subgraphs : List String)
    (fetched : List (FetchedSubgraph δ)) : Except RouterError (GraphLifecycle δ γ) :=
  if subgraphs ≠ fetched.map fun input => input.candidate.name then
    .error ⟨.invalidConfiguration, "fetched subgraph inputs do not match configured sources"⟩
  else
    (buildInputs build fetched 1).map fun graph =>
      { active := ⟨1, graph⟩
        state :=
          { sources := fetched.foldl (fun sources input => sources.insert input.candidate.name
              { fetched := input
                observed := none
                sourceKind := .static
                state := .active
                active := true
                observedFingerprint := none
                lastError := none
                lastSuccessfulRefresh := some now }) .empty
            admissionAttempts := .empty
            lastSuccessfulComposition := now
            lastCompositionError := none } }

/-! ### Refresh -/

inductive SchemaRefreshOutcome where
  | unchanged | activated | rejected
deriving DecidableEq

/-- What a refresh sees of a source. -/
inductive Seen (δ : Type) where
  | disabled
  | failed (error : RouterError)
  | unchanged (fetched : FetchedSubgraph δ)
  | rejectedBefore (fetched : FetchedSubgraph δ)
  | changed (fetched : FetchedSubgraph δ)

/-- How a source is fetched, given the input that it may answer not to have changed. -/
abbrev Fetch (δ : Type) : Type :=
  String → FetchedSubgraph δ → Except RouterError (FetchedSubgraph δ)

def SourceRecord.see (fetch : Fetch δ) (name : String) (source : SourceRecord δ) : Seen δ :=
  if source.active = false then .disabled
  else
    match fetch name (source.observed.getD source.fetched) with
    | .error error => .failed error
    | .ok fetched =>
      if fetched.fingerprint = source.fetched.fingerprint then .unchanged fetched
      else if source.observed.any fun observed => observed.fingerprint = fetched.fingerprint then
        .rejectedBefore fetched
      else .changed fetched

def SourceRecord.note (now : Nat) (source : SourceRecord δ) : Seen δ → SourceRecord δ
  | .disabled => source
  | .failed error => { source with state := .unhealthy, lastError := some error.message }
  | .unchanged fetched =>
    { source with
      fetched := { source.fetched with
        sdlEtag := fetched.sdlEtag, descriptorEtag := fetched.descriptorEtag }
      observed := none
      state := .active
      observedFingerprint := none
      lastError := none
      lastSuccessfulRefresh := some now }
  | .rejectedBefore fetched =>
    { source with observed := some fetched, state := .rejected, lastSuccessfulRefresh := some now }
  | .changed _ => { source with state := .candidate }

/-- The input of a source in the next composition. -/
def SourceRecord.nextInput (source : SourceRecord δ) : Seen δ → FetchedSubgraph δ
  | .changed fetched => fetched
  | _ => source.fetched

def SourceRecord.accept (now : Nat) (source : SourceRecord δ) : Seen δ → SourceRecord δ
  | .changed fetched =>
    { source with
      fetched := fetched
      observed := none
      state := .active
      observedFingerprint := none
      lastError := none
      lastSuccessfulRefresh := some now }
  | _ => source

def SourceRecord.reject (details : String) (source : SourceRecord δ) : Seen δ → SourceRecord δ
  | .changed fetched =>
    { source with
      state := .rejected
      observedFingerprint := some fetched.fingerprint
      observed := some fetched
      lastError := some details }
  | _ => source

def Seen.isChanged : Seen δ → Bool
  | changed _ => true
  | _ => false

def GraphLifecycle.refresh (build : BuildSnapshot δ γ) (now : Nat) (fetch : Fetch δ)
    (lifecycle : GraphLifecycle δ γ) : SchemaRefreshOutcome × GraphLifecycle δ γ :=
  let state := lifecycle.state
  let see (name : String) (source : SourceRecord δ) : Seen δ := source.see fetch name
  -- All sources are fetched and classified before any of them is composed.
  let noted := state.sources.mapValues fun name source => source.note now (see name source)
  if state.sources.entries.any fun entry => (see entry.1 entry.2).isChanged then
    let candidateInputs := state.activeEntries.map fun entry =>
      (entry.2.note now (see entry.1 entry.2)).nextInput (see entry.1 entry.2)
    match buildInputs build candidateInputs (nextVersion lifecycle.active.version) with
    | .error error =>
      (.rejected,
        { lifecycle with state := { state with
            sources := state.sources.mapValues fun name source =>
              (source.note now (see name source)).reject error.message (see name source)
            lastCompositionError := some error.message } })
    | .ok graph =>
      (.activated,
        { active := ⟨nextVersion lifecycle.active.version, graph⟩
          state := { state with
            sources := state.sources.mapValues fun name source =>
              (source.note now (see name source)).accept now (see name source)
            lastSuccessfulComposition := now
            lastCompositionError := none } })
  else (.unchanged, { lifecycle with state := { state with sources := noted } })

/-! ### Removal -/

def GraphLifecycle.removeSubgraph (build : BuildSnapshot δ γ) (now : Nat) (name : String)
    (lifecycle : GraphLifecycle δ γ) :
    Except RouterError (ActiveRouterGraph γ) × GraphLifecycle δ γ :=
  let state := lifecycle.state
  match state.sources.get? name with
  | none => (.error ⟨.invalidConfiguration, s!"unknown subgraph `{name}`"⟩, lifecycle)
  | some source =>
    if source.active = false then
      (.error ⟨.invalidConfiguration, s!"subgraph `{name}` is already disabled"⟩, lifecycle)
    else
      let inputs := (state.activeEntries.filter fun entry => entry.1 ≠ name).map
        fun entry => entry.2.fetched
      match buildInputs build inputs (nextVersion lifecycle.active.version) with
      | .error error =>
        (.error error,
          { lifecycle with state := { state.update name fun source =>
              { source with state := .rejected, lastError := some error.message } with
              lastCompositionError := some error.message } })
      | .ok graph =>
        let active := ⟨nextVersion lifecycle.active.version, graph⟩
        (.ok active,
          { active := active
            state := { state.update name fun source =>
                { source with
                  active := false
                  observed := none
                  state := .disabled
                  observedFingerprint := none
                  lastError := none } with
              lastSuccessfulComposition := now
              lastCompositionError := none } })

/-! ### Registration -/

def GraphLifecycle.registerDynamic (build : BuildSnapshot δ γ) (now : Nat) (name : String)
    (fetched : FetchedSubgraph δ) (lifecycle : GraphLifecycle δ γ) :
    Except RouterError (ActiveRouterGraph γ) × GraphLifecycle δ γ :=
  let state := lifecycle.state
  if (state.sources.get? name).any fun source => source.active then
    (.error ⟨.registration, s!"subgraph `{name}` is already active"⟩, lifecycle)
  else if fetched.candidate.name ≠ name then
    (.error ⟨.registration, "dynamic candidate identity does not match its registration"⟩, lifecycle)
  else
    let attempts := state.admissionAttempts.erase name
    let inputs := state.activeEntries.map (fun entry => entry.2.fetched) ++ [fetched]
    let record (runtimeState : SubgraphRuntimeState) (active : Bool)
        (observedFingerprint lastError : Option String) : SourceRecord δ :=
      { fetched := fetched
        observed := none
        sourceKind := .dynamic
        state := runtimeState
        active := active
        observedFingerprint := observedFingerprint
        lastError := lastError
        lastSuccessfulRefresh := if active then some now else none }
    match buildInputs build inputs (nextVersion lifecycle.active.version) with
    | .error error =>
      (.error error,
        { lifecycle with state := { state with
            admissionAttempts := attempts
            sources := state.sources.insert fetched.candidate.name
              (record .rejected false (some fetched.fingerprint) (some error.message))
            lastCompositionError := some error.message } })
    | .ok graph =>
      let active := ⟨nextVersion lifecycle.active.version, graph⟩
      (.ok active,
        { active := active
          state :=
            { sources := state.sources.insert fetched.candidate.name (record .active true none none)
              admissionAttempts := attempts
              lastSuccessfulComposition := now
              lastCompositionError := none } })

/-- A registration that is under way is noted at its source, unless that is active, or apart. -/
def GraphLifecycle.recordRegistrationState (name id : String)
    (registrationState : SubgraphRuntimeState) (lifecycle : GraphLifecycle δ γ) :
    GraphLifecycle δ γ :=
  let state := lifecycle.state
  if state.sources.contains name then
    { lifecycle with state := { state.update name fun source =>
        if source.active then source
        else
          { source with
            state := registrationState, observedFingerprint := none, lastError := none } with
        admissionAttempts := state.admissionAttempts.erase name } }
  else
    { lifecycle with state := { state with
        admissionAttempts := state.admissionAttempts.insert name ⟨id, registrationState, none⟩ } }

def GraphLifecycle.recordRegistrationCandidate (name id : String) :
    GraphLifecycle δ γ → GraphLifecycle δ γ := recordRegistrationState name id .candidate

def GraphLifecycle.recordRegistration (name id : String) :
    GraphLifecycle δ γ → GraphLifecycle δ γ := recordRegistrationState name id .registered

def GraphLifecycle.recordRegistrationRejected (name id : String) (error : RouterError)
    (lifecycle : GraphLifecycle δ γ) : GraphLifecycle δ γ :=
  let state := lifecycle.state
  if state.sources.contains name then
    { lifecycle with state := { state.update name fun source =>
        if source.active then source
        else { source with state := .rejected, lastError := some error.message } with
        admissionAttempts := state.admissionAttempts.erase name } }
  else
    { lifecycle with state := { state with
        admissionAttempts :=
          state.admissionAttempts.insert name ⟨id, .rejected, some error.message⟩ } }

/-! ### Status -/

structure SubgraphStatus where
  name : String
  id : Option String
  sourceKind : SubgraphSourceKind
  state : SubgraphRuntimeState
  active : Bool
  activeFingerprint : Option String
  observedFingerprint : Option String
  lastError : Option String
  lastSuccessfulRefresh : Option Nat

structure RouterStatus (γ : Type) where
  activeGraph : ActiveRouterGraph γ
  subgraphs : List SubgraphStatus
  lastSuccessfulComposition : Nat
  lastCompositionError : Option String

def sourceStatus (idOf : δ → String) (name : String) (source : SourceRecord δ) : SubgraphStatus where
  name := name
  id := source.fetched.descriptor.map idOf
  sourceKind := source.sourceKind
  state := source.state
  active := source.active
  activeFingerprint := if source.active then some source.fetched.fingerprint else none
  observedFingerprint := source.observedFingerprint
  lastError := source.lastError
  lastSuccessfulRefresh := source.lastSuccessfulRefresh

def attemptStatus (name : String) (attempt : AdmissionAttempt) : SubgraphStatus where
  name := name
  id := some attempt.id
  sourceKind := .dynamic
  state := attempt.state
  active := false
  activeFingerprint := none
  observedFingerprint := none
  lastError := attempt.lastError
  lastSuccessfulRefresh := none

def GraphLifecycle.status (idOf : δ → String) (lifecycle : GraphLifecycle δ γ) : RouterStatus γ where
  activeGraph := lifecycle.active
  subgraphs := sortBy SubgraphStatus.name <|
    lifecycle.state.sources.entries.map (fun entry => sourceStatus idOf entry.1 entry.2) ++
    (lifecycle.state.admissionAttempts.entries.filter
      fun entry => !lifecycle.state.sources.contains entry.1).map
        fun entry => attemptStatus entry.1 entry.2
  lastSuccessfulComposition := lifecycle.state.lastSuccessfulComposition
  lastCompositionError := lifecycle.state.lastCompositionError

/-! ### Sequences of calls -/

/-- A call, with what it gets from outside. -/
inductive Call (δ : Type) where
  | refresh (now : Nat) (fetch : Fetch δ)
  | removeSubgraph (now : Nat) (name : String)
  | registerDynamic (now : Nat) (name : String) (fetched : FetchedSubgraph δ)
  | recordRegistrationCandidate (name id : String)
  | recordRegistration (name id : String)
  | recordRegistrationRejected (name id : String) (error : RouterError)

def Call.run (build : BuildSnapshot δ γ) (lifecycle : GraphLifecycle δ γ) :
    Call δ → GraphLifecycle δ γ
  | refresh now fetch => (lifecycle.refresh build now fetch).2
  | removeSubgraph now name => (lifecycle.removeSubgraph build now name).2
  | registerDynamic now name fetched => (lifecycle.registerDynamic build now name fetched).2
  | recordRegistrationCandidate name id => lifecycle.recordRegistrationCandidate name id
  | recordRegistration name id => lifecycle.recordRegistration name id
  | recordRegistrationRejected name id error => lifecycle.recordRegistrationRejected name id error

def runCalls (build : BuildSnapshot δ γ) (lifecycle : GraphLifecycle δ γ) (calls : List (Call δ)) :
    GraphLifecycle δ γ := calls.foldl (Call.run build) lifecycle

end Calls

end GraphqlOrm.Router
