import GraphqlOrm.Router.ServedGraph

/-!
# What a refresh admits

A rejected input is remembered by its fingerprint and left out of later compositions, so that a
refresh reaches the schemas that the subgraphs serve unless one of them is served as it was rejected.
-/
namespace GraphqlOrm.Router

variable {δ γ : Type}

/-- Every active source is fetched. -/
def Refetched (fetch : Fetch δ) (state : LifecycleState δ)
    (fresh : String → FetchedSubgraph δ) : Prop :=
  ∀ name source, state.sources.get? name = some source → source.active = true →
    fetch name (source.observed.getD source.fetched) = .ok (fresh name)

/-- The freshly fetched inputs of all active sources. -/
def LifecycleState.freshInputs (state : LifecycleState δ) (fresh : String → FetchedSubgraph δ) :
    List (FetchedSubgraph δ) :=
  state.activeEntries.map fun entry => fresh entry.1

/-- The same inputs, with the text that is active in place of one with the same fingerprint. -/
def LifecycleState.heldInputs (state : LifecycleState δ) (fresh : String → FetchedSubgraph δ) :
    List (FetchedSubgraph δ) :=
  state.activeEntries.map fun entry =>
    if entry.2.fetched.fingerprint = (fresh entry.1).fingerprint then entry.2.fetched
    else fresh entry.1

/-- Composition succeeds on the fetched inputs. Of two texts with one fingerprint it is the same which
of them is composed: the fingerprint is taken of the canonical form of a schema. -/
structure Composable (build : BuildSnapshot δ γ) (fresh : String → FetchedSubgraph δ)
    (lifecycle : GraphLifecycle δ γ) : Prop where
  succeeds : (buildInputs build (lifecycle.state.freshInputs fresh)
    (nextVersion lifecycle.active.version)).isOk = true
  canonical : (buildInputs build (lifecycle.state.heldInputs fresh)
      (nextVersion lifecycle.active.version)).isOk =
    (buildInputs build (lifecycle.state.freshInputs fresh)
      (nextVersion lifecycle.active.version)).isOk

/-- The graph is composed of the inputs of the active sources, which are the fetched ones. -/
structure Converged (build : BuildSnapshot δ γ) (fresh : String → FetchedSubgraph δ)
    (after : GraphLifecycle δ γ) : Prop where
  composed : Composed build after
  fetched : ∀ name input, after.state.activeInput name = some input →
    input.fingerprint = (fresh name).fingerprint

/-- A source that is served again as it was rejected, while something else of it is active. -/
def ServedAsRejected (fresh : String → FetchedSubgraph δ) (state : LifecycleState δ) : Prop :=
  ∃ name source, state.sources.get? name = some source ∧ source.active = true ∧
    source.fetched.fingerprint ≠ (fresh name).fingerprint ∧
    ∃ observed, source.observed = some observed ∧
      observed.fingerprint = (fresh name).fingerprint

section Refresh

variable {build : BuildSnapshot δ γ} {now : Nat} {fetch : Fetch δ} {lifecycle : GraphLifecycle δ γ}
  {fresh : String → FetchedSubgraph δ} {name : String} {source : SourceRecord δ}

/-- How a source is seen that was fetched and is not served as it was rejected. -/
theorem see_refetched (refetched : Refetched fetch lifecycle.state fresh)
    (other : ¬ServedAsRejected fresh lifecycle.state)
    (stored : lifecycle.state.sources.get? name = some source) (active : source.active = true) :
    (source.fetched.fingerprint = (fresh name).fingerprint ∧
      source.see fetch name = .unchanged (fresh name)) ∨
    (source.fetched.fingerprint ≠ (fresh name).fingerprint ∧
      source.see fetch name = .changed (fresh name)) := by
  unfold SourceRecord.see
  rw [if_neg (ne_false_of_eq_true active), refetched name source stored active]
  by_cases same : (fresh name).fingerprint = source.fetched.fingerprint
  · exact .inl ⟨same.symm, if_pos same⟩
  · right
    refine ⟨Ne.symm same, (if_neg same).trans (if_neg fun remembered => other ?_)⟩
    obtain ⟨observed, kept, equal⟩ := (Option.any_eq_true _ _).mp remembered
    exact ⟨name, source, stored, active, Ne.symm same, observed, kept, of_decide_eq_true equal⟩

/-- A refresh composes the fetched inputs. -/
theorem buildInputs_nextInputs (now : Nat) (refetched : Refetched fetch lifecycle.state fresh)
    (other : ¬ServedAsRejected fresh lifecycle.state) (version : BitVec 64) :
    buildInputs build ((lifecycle.state.nextInputs now fetch).map Prod.snd) version =
      buildInputs build (lifecycle.state.heldInputs fresh) version := by
  have texts : ((lifecycle.state.nextInputs now fetch).map Prod.snd).map
        (fun input => (input.candidate, input.descriptor)) =
      (lifecycle.state.heldInputs fresh).map fun input => (input.candidate, input.descriptor) := by
    unfold LifecycleState.nextInputs LifecycleState.heldInputs
    rw [List.map_map, List.map_map, List.map_map]
    refine List.map_congr_left fun entry mem => ?_
    obtain ⟨stored, active⟩ := mem_activeEntries.mp mem
    simp only [Function.comp_apply]
    rcases see_refetched refetched other stored active with ⟨same, seen⟩ | ⟨different, seen⟩
    · -- Of an unchanged schema only the tags are taken.
      rw [seen, if_pos same]
      rfl
    · rw [seen, if_neg different]
      rfl
  exact buildInputs_congr build texts version

theorem refresh_fetched (refetched : Refetched fetch lifecycle.state fresh)
    (other : ¬ServedAsRejected fresh lifecycle.state)
    (composable : Composable build fresh lifecycle) {input : SourceInput δ}
    (own : (lifecycle.refresh build now fetch).2.state.activeInput name = some input) :
    input.fingerprint = (fresh name).fingerprint := by
  obtain ⟨calm, refreshed⟩ | ⟨error, _, built, _⟩ | ⟨graph, _, _, refreshed⟩ :=
    refresh_cases build now fetch lifecycle
  · rw [refreshed, activeInput_refreshed] at own
    obtain ⟨source, stored, own⟩ := Option.bind_eq_some_iff.mp own
    rw [input_note] at own
    obtain ⟨active, own⟩ := input_eq_some.mp own
    rcases see_refetched refetched other stored active with ⟨same, _⟩ | ⟨_, seen⟩
    · rw [← own]
      exact same
    · -- No source was seen to have changed.
      have changed := List.any_eq_false.mp calm (name, source) (OrderedMap.mem_entries.mpr stored)
      rw [seen] at changed
      exact absurd rfl changed
  · have taken := composable.canonical.trans composable.succeeds
    rw [← buildInputs_nextInputs now refetched other, built] at taken
    cases taken
  · rw [refreshed, activeInput_refreshed] at own
    obtain ⟨source, stored, own⟩ := Option.bind_eq_some_iff.mp own
    obtain ⟨active, own⟩ := input_eq_some.mp own
    rw [active_accept, active_note] at active
    rw [← own, fetched_accept]
    rcases see_refetched refetched other stored active with ⟨same, seen⟩ | ⟨_, seen⟩
    · rw [seen]
      exact same
    · rw [seen]
      rfl

/-- A source that is served as it was rejected keeps its old input. -/
theorem refresh_remembers (refetched : Refetched fetch lifecycle.state fresh)
    (stored : lifecycle.state.sources.get? name = some source) (active : source.active = true)
    {observed : FetchedSubgraph δ} (kept : source.observed = some observed)
    (different : source.fetched.fingerprint ≠ (fresh name).fingerprint)
    (rejected : observed.fingerprint = (fresh name).fingerprint) :
    (lifecycle.refresh build now fetch).2.state.activeInput name =
      some (source.fetched.input name) := by
  have seen : source.see fetch name = .rejectedBefore (fresh name) := by
    unfold SourceRecord.see
    rw [if_neg (ne_false_of_eq_true active), refetched name source stored active]
    refine (if_neg (Ne.symm different)).trans (if_pos ?_)
    rw [kept]
    exact decide_eq_true rejected
  rw [refresh_keeps stored (by rw [seen]; rfl)]
  exact activeInput_eq_some.mpr ⟨source, stored, active, rfl⟩

end Refresh

/-- After a refresh that fetched every active source, with inputs that compose, the active inputs are
the fetched ones exactly where none of them is served as it was rejected. -/
theorem refresh_converges_iff (build : BuildSnapshot δ γ) (now : Nat) (subgraphs : List String)
    (fetched : List (FetchedSubgraph δ)) (start : GraphLifecycle δ γ)
    (started : GraphLifecycle.new build now subgraphs fetched = .ok start)
    (distinct : subgraphs.Nodup) (calls : List (Call δ)) (later : Nat) (fetch : Fetch δ)
    (fresh : String → FetchedSubgraph δ)
    (refetched : Refetched fetch (runCalls build start calls).state fresh)
    (composable : Composable build fresh (runCalls build start calls)) :
    Converged build fresh ((runCalls build start calls).refresh build later fetch).2 ↔
      ¬ServedAsRejected fresh (runCalls build start calls).state := by
  constructor
  · rintro ⟨_, reached⟩ ⟨name, source, stored, active, different, observed, kept, rejected⟩
    exact different (reached name _ (refresh_remembers refetched stored active kept different rejected))
  · intro other
    refine ⟨?_, fun name input own => refresh_fetched refetched other composable own⟩
    exact call_composed (runCalls_composed (new_composed started distinct) calls)
      (.refresh later fetch)

/-! ### A schema that stays rejected -/

/-- Two subgraphs that share a field, with the type that each of them gives it. -/
def sharing (name type : String) : FetchedSubgraph Unit :=
  let sdl := "type Query \x7b price: " ++ type ++ " @shareable \x7d"
  ⟨⟨name, "http://" ++ name ++ "/graphql", sdl, none⟩, none, none, none, sdl⟩

/-- A composition that refuses the shared field with two types. -/
def sameField : BuildSnapshot Unit (List CandidateSubgraph) := fun candidates _ _ =>
  if candidates.all fun candidate => candidates.all fun other => candidate.sdl = other.sdl then
    .ok candidates
  else .error ⟨.composition, "Type of field \"Query.price\" is incompatible across subgraphs"⟩

def serving (accounts reviews : String) (name : String) : FetchedSubgraph Unit :=
  if name = "accounts" then sharing name accounts else sharing name reviews

def agreed : GraphLifecycle Unit (List CandidateSubgraph) where
  active := ⟨1, [(sharing "accounts" "Int").candidate, (sharing "reviews" "Int").candidate]⟩
  state :=
    { sources := (OrderedMap.empty.insert "accounts" (configured 0 (sharing "accounts" "Int"))).insert
        "reviews" (configured 0 (sharing "reviews" "Int"))
      admissionAttempts := .empty
      lastSuccessfulComposition := 0
      lastCompositionError := none }

/-- First one of the subgraphs changes the type, then the other one follows. -/
def changeFirst : Call Unit := .refresh 1 fun name _ => .ok (serving "Float" "Int" name)

theorem refresh_stays_rejected :
    GraphLifecycle.new sameField 0 ["accounts", "reviews"]
        [sharing "accounts" "Int", sharing "reviews" "Int"] = .ok agreed ∧
      Refetched (fun name _ => .ok (serving "Float" "Float" name))
        (runCalls sameField agreed [changeFirst]).state (serving "Float" "Float") ∧
      Composable sameField (serving "Float" "Float") (runCalls sameField agreed [changeFirst]) ∧
      ¬Converged sameField (serving "Float" "Float")
        ((runCalls sameField agreed [changeFirst]).refresh sameField 2
          fun name _ => .ok (serving "Float" "Float" name)).2 := by
  refine ⟨rfl, fun _ _ _ _ => rfl, ⟨by decide, by decide⟩, fun converged => ?_⟩
  have reached := converged.fetched "accounts" ((sharing "accounts" "Int").input "accounts") rfl
  exact absurd reached (by decide)

/-- Where both change at once, they are admitted together. -/
theorem refresh_converges_iff_both :
    Converged sameField (serving "Float" "Float")
        ((runCalls sameField agreed []).refresh sameField 2
          fun name _ => .ok (serving "Float" "Float" name)).2 ↔
      ¬ServedAsRejected (serving "Float" "Float") (runCalls sameField agreed []).state :=
  refresh_converges_iff sameField 0 ["accounts", "reviews"]
    [sharing "accounts" "Int", sharing "reviews" "Int"] agreed rfl (by decide) [] 2 _ _
    (fun _ _ _ _ => rfl) ⟨by decide, by decide⟩

end GraphqlOrm.Router
