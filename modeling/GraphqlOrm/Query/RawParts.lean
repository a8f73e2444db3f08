import GraphqlOrm.Query.FilterMeaning
import Mathlib.Algebra.GroupWithZero.Nat

/-!
# Splitting collected values

Flat conditions come with all their values in one list. Each clause takes as many as it
counts placeholders, and binds as many as the rewriting of its text emits.
-/
namespace GraphqlOrm.Query

open Schema

variable {ν : Type} {backend : DatabaseBackend}

/-- What the rewriting makes of a clause. -/
def clausePieces (backend : DatabaseBackend) (clause : String) (startIndex : Nat) : List SqlPiece :=
  if numbers backend then numberFrom startIndex (rewritten backend clause)
  else readClause backend clause

theorem placeholderCount_clausePieces (numbered : numbers backend = true) (clause : String)
    (start : Nat) : placeholderCount (clausePieces backend clause start) = emitted backend clause := by
  rw [placeholderCount, clausePieces, if_pos numbered, shape_numberFrom, emitted]

/-- The clauses of the filter that is made of flat conditions, with the values of each. -/
def rawLeaves (conditions : List String) (values : List ν) : List (String × List ν) :=
  (filterExpressionFromRawParts conditions values).elim [] FilterExpression.leaves

theorem rawLeaves_eq (conditions : List String) (values : List ν) :
    rawLeaves conditions values = leavesOf (rawParts conditions values) := by
  unfold rawLeaves filterExpressionFromRawParts
  split
  next none => rw [none]; rfl
  next filter one => rw [one, leavesOf, leavesOf, List.append_nil]; rfl
  next => rw [Option.elim_some, FilterExpression.leaves]

theorem rawLeaves_nil (values : List ν) : rawLeaves [] values = [] := rfl

theorem rawLeaves_cons (clause : String) (rest : List String) (values : List ν) :
    rawLeaves (clause :: rest) values = (clause, values.take (countPlaceholders clause)) ::
      rawLeaves rest (values.drop (countPlaceholders clause)) := by
  rw [rawLeaves_eq, rawLeaves_eq, rawParts, leavesOf, FilterExpression.leaves]
  rfl

/-- Every clause has the values that its text binds, and none is lost or moved. -/
structure SplitsValues (backend : DatabaseBackend) (conditions : List String) (values : List ν) :
    Prop where
  clauses : (rawLeaves conditions values).map (·.1) = conditions
  whole : (rawLeaves conditions values).flatMap (·.2) = values
  aligned : ∀ leaf ∈ rawLeaves conditions values, ∀ start,
    leaf.2.length = placeholderCount (clausePieces backend leaf.1 start)

theorem splitsValues_of_counted (numbered : numbers backend = true) {conditions : List String}
    {values : List ν}
    (counted : ∀ clause ∈ conditions, countPlaceholders clause = emitted backend clause)
    (enough : values.length = (conditions.map (emitted backend)).sum) :
    SplitsValues backend conditions values := by
  induction conditions generalizing values with
  | nil =>
    rw [List.map_nil, List.sum_nil, List.length_eq_zero_iff] at enough
    exact ⟨rfl, enough.symm, nofun⟩
  | cons clause rest ih =>
    have own := counted clause (.head _)
    rw [List.map_cons, List.sum_cons] at enough
    obtain ⟨clauses, split, aligned⟩ :
        SplitsValues backend rest (values.drop (countPlaceholders clause)) := ih
      (fun other mem => counted other (.tail _ mem))
      (by rw [List.length_drop]; omega)
    refine ⟨?_, ?_, fun leaf mem start => ?_⟩
    · rw [rawLeaves_cons, List.map_cons, clauses]
    · rw [rawLeaves_cons, List.flatMap_cons, split, List.take_append_drop]
    · rw [rawLeaves_cons] at mem
      rcases List.mem_cons.mp mem with rfl | later
      · rw [placeholderCount_clausePieces numbered, ← own, List.length_take]
        omega
      · exact aligned leaf later start

/-- The two scanners agree on a clause exactly if no sign is bare, provided that brackets
hold nothing that only one of them reads; then flat conditions are split exactly. -/
theorem countPlaceholders_agrees (numbered : numbers backend = true) :
    (∀ clause, BracketsInert backend clause →
      ((∀ start, countPlaceholders clause = placeholderCount (clausePieces backend clause start)) ↔
        bareSigns clause = 0)) ∧
    ∀ (conditions : List String) (values : List ν),
      (∀ clause ∈ conditions, BracketsInert backend clause ∧ bareSigns clause = 0) →
        values.length = (conditions.map (emitted backend)).sum →
          SplitsValues backend conditions values := by
  constructor
  · intro clause inert
    simp only [placeholderCount_clausePieces numbered, forall_const]
    exact countPlaceholders_eq_iff numbered inert
  · intro conditions values good enough
    refine splitsValues_of_counted numbered (fun clause mem => ?_) enough
    obtain ⟨inert, none⟩ := good clause mem
    exact (countPlaceholders_eq_iff numbered inert).mpr none

theorem countPlaceholders_agrees_names :
    SplitsValues .postgres ["tags[1] = $1 AND name = '$'", "age > ?"] [3, 4] :=
  (countPlaceholders_agrees rfl).2 _ _ (by
    simp only [List.mem_cons, List.not_mem_nil, or_false, forall_eq_or_imp, forall_eq, BracketsInert]
    decide) (by decide)

/-- An array in brackets hides its placeholders from the count only. -/
theorem countPlaceholders_misses_array :
    ¬(∀ start, countPlaceholders "tags && ARRAY[?, ?]" =
        placeholderCount (clausePieces .postgres "tags && ARRAY[?, ?]" start)) ∧
      ¬SplitsValues .postgres ["tags && ARRAY[?, ?]"] [3, 4] := by
  constructor
  · intro agrees
    exact absurd (agrees 1) (by decide)
  · intro splits
    exact absurd splits.whole (by
      have none : countPlaceholders "tags && ARRAY[?, ?]" = 0 := by decide
      simp [rawLeaves_cons, rawLeaves_nil, none])

end GraphqlOrm.Query
