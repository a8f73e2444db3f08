import Mathlib.Data.List.Basic

/-!
# Runs of one kind

A sequence of parts, each of some kind. How the parts of a run of one kind are cut does not
matter: what matters is the sequence of their elements, each with its kind.
-/
namespace KindRuns

variable {κ α : Type}

/-! ### Elements -/

def tagged (kind : κ) (part : List α) : List (κ × α) := part.map fun a => (kind, a)

def elements (parts : List (κ × List α)) : List (κ × α) :=
  parts.flatMap fun part => tagged part.1 part.2

theorem elements_cons (part : κ × List α) (parts : List (κ × List α)) :
    elements (part :: parts) = tagged part.1 part.2 ++ elements parts := rfl

theorem elements_append (parts parts' : List (κ × List α)) :
    elements (parts ++ parts') = elements parts ++ elements parts' := List.flatMap_append

theorem tagged_append (kind : κ) (first second : List α) :
    tagged kind (first ++ second) = tagged kind first ++ tagged kind second := List.map_append

/-! ### Joined parts -/

variable [DecidableEq κ]

/-- A part in front of joined ones, as a part of its own or in the first of them. -/
def attach (kind : κ) (part : List α) : List (κ × List α) → List (κ × List α)
  | [] => [(kind, part)]
  | next :: rest =>
    if kind = next.1 then (kind, part ++ next.2) :: rest else (kind, part) :: next :: rest

def joinAdjacent : List (κ × List α) → List (κ × List α)
  | [] => []
  | part :: rest => attach part.1 part.2 (joinAdjacent rest)

def runs : List (κ × α) → List (κ × List α)
  | [] => []
  | element :: rest => attach element.1 [element.2] (runs rest)

theorem attach_attach (kind : κ) (first second : List α) (rest : List (κ × List α)) :
    attach kind first (attach kind second rest) = attach kind (first ++ second) rest := by
  cases rest with
  | nil => simp [attach]
  | cons next rest =>
    by_cases same : kind = next.1
    · simp [attach, same]
    · simp [attach, same]

theorem runs_tagged (kind : κ) {part : List α} (content : part ≠ []) (rest : List (κ × α)) :
    runs (tagged kind part ++ rest) = attach kind part (runs rest) := by
  induction part with
  | nil => exact absurd rfl content
  | cons a part ih =>
    rw [tagged, List.map_cons, List.cons_append, runs]
    cases part with
    | nil => rfl
    | cons b part =>
      have later := ih (by simp)
      rw [tagged] at later
      rw [later, attach_attach]
      rfl

/-- Joining reads off the runs of the elements. -/
theorem joinAdjacent_eq_runs {parts : List (κ × List α)} (content : ∀ part ∈ parts, part.2 ≠ []) :
    joinAdjacent parts = runs (elements parts) := by
  induction parts with
  | nil => rfl
  | cons part parts ih =>
    obtain ⟨first, rest⟩ := List.forall_mem_cons.mp content
    rw [joinAdjacent, ih rest, elements_cons, runs_tagged _ first]

theorem joinAdjacent_congr {parts parts' : List (κ × List α)}
    (content : ∀ part ∈ parts, part.2 ≠ []) (content' : ∀ part ∈ parts', part.2 ≠ [])
    (same : elements parts = elements parts') : joinAdjacent parts = joinAdjacent parts' := by
  rw [joinAdjacent_eq_runs content, joinAdjacent_eq_runs content', same]

end KindRuns
