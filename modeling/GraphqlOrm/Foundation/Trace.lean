import Mathlib.Data.List.Basic

/-!
# Runs of a deterministic machine

A machine answers every input with a result and a successor state. A run is the
list of its events, oldest first, so "later in the run" is a sublist statement
and needs no indices. The rules below carry a property of one step to whole
runs: an invariant holds before and after every event, and a stable property
that holds after one event still holds before every later one.
-/
namespace Trace

variable {State Input Result : Type}

/-- One answered input together with the states around it. -/
structure Event (State Input Result : Type) where
  before : State
  input : Input
  result : Result
  after : State

def event (step : State → Input → Result × State) (s : State) (input : Input) :
    Event State Input Result :=
  ⟨s, input, (step s input).1, (step s input).2⟩

def events (step : State → Input → Result × State) :
    State → List Input → List (Event State Input Result)
  | _, [] => []
  | s, input :: rest => event step s input :: events step (step s input).2 rest

def final (step : State → Input → Result × State) : State → List Input → State
  | s, [] => s
  | s, input :: rest => final step (step s input).2 rest

def Stable (step : State → Input → Result × State) (P : State → Prop) : Prop :=
  ∀ s input, P s → P (step s input).2

variable {step : State → Input → Result × State}

/-- Every event of a run really is the machine's answer, from a state in which
the invariant holds. -/
theorem mem_events {P : State → Prop} (stable : Stable step P) (s : State)
    (inputs : List Input) (initial : P s) (e : Event State Input Result)
    (mem : e ∈ events step s inputs) : P e.before ∧ e = event step e.before e.input := by
  induction inputs generalizing s with
  | nil => simp [events] at mem
  | cons input rest ih =>
    simp only [events, List.mem_cons] at mem
    rcases mem with rfl | later
    · exact ⟨initial, rfl⟩
    · exact ih _ (stable s input initial) later

theorem event_of_mem (s : State) (inputs : List Input) (e : Event State Input Result)
    (mem : e ∈ events step s inputs) : e = event step e.before e.input := by
  have always : Stable step (fun _ => True) := fun _ _ _ => trivial
  exact (mem_events always s inputs trivial e mem).2

theorem ordered_triple {α : Type} {a b c : α} {xs : List α} (ordered : [a, b, c].Sublist xs) :
    [a, b].Sublist xs ∧ [b, c].Sublist xs ∧ b ∈ xs ∧ c ∈ xs := by
  refine ⟨.trans (by simp) ordered, .trans (by simp) ordered, ?_, ?_⟩ <;>
    exact ordered.subset (by simp)

/-- What holds after an event and is stable holds before every later event. -/
theorem Stable.later {P : State → Prop} (stable : Stable step P) (s : State)
    (inputs : List Input) (first second : Event State Input Result)
    (ordered : [first, second].Sublist (events step s inputs)) (established : P first.after) :
    P second.before := by
  induction inputs generalizing s with
  | nil => simp [events] at ordered
  | cons input rest ih =>
    simp only [events] at ordered
    cases ordered with
    | cons _ below => exact ih _ below
    | cons_cons _ below =>
      have mem : second ∈ events step (step s input).2 rest := by simpa using below
      exact (mem_events stable _ rest established second mem).1

end Trace
