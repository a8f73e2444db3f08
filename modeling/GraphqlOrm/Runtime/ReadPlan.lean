import GraphqlOrm.Runtime.CursorCondition

/-!
# Plans of runtime reads

The statements of a read before they are written out: their conditions as syntax trees,
with the values that they bind. The statements are the texts of the plan.
-/
namespace GraphqlOrm.Runtime

open Outcome
open Schema (DatabaseBackend)
open Sql
open Text (join)

variable {φ : Type}

/-! ### Plans -/

/-- A condition of a read; the scores of a search stand in the column that its documents
bring along. -/
inductive ReadCondition where
  | factor (f : Factor Elementary Empty Subquery)
  | minScore (n : Nat)
  | ranked (backward : Bool) (n : Nat) (after : Factor Elementary Empty Subquery)

def ReadCondition.text (backend : DatabaseBackend) : ReadCondition → String
  | .factor f => f.text (spelling backend)
  | .minScore n => SEARCH_ALIAS ++ "." ++ SEARCH_SCORE ++ " >= " ++ placeholder backend (n + 1) .float
  | .ranked backward n after =>
    "(" ++ (SEARCH_ALIAS ++ "." ++ SEARCH_SCORE) ++ " " ++ (if backward then ">" else "<") ++ " " ++
      placeholder backend (n + 1) .float ++ " OR (" ++ (SEARCH_ALIAS ++ "." ++ SEARCH_SCORE) ++
      " = " ++ placeholder backend (n + 2) .float ++ " AND " ++ after.text (spelling backend) ++ "))"

/-- The conditions of a statement with all its values. -/
structure PlannedRead (φ : Type) where
  conditions : List ReadCondition
  values : List (SqlValue φ)

structure RequestPlan (φ : Type) where
  rows : PlannedRead φ
  count : Option (PlannedRead φ)

section Plan

variable (backend : DatabaseBackend) (request : RuntimeReadRequest φ)

/-- The conditions of the filter and the search; the value of the search's join comes first. -/
def planBase : PlannedRead φ :=
  let joined := (request.search.map fun search => SqlValue.string (search.text backend)).toList
  let filtered := request.predicate.elim [] fun predicate => emitted backend predicate.expr
  let minScore := request.search.bind (·.minScore)
  { conditions :=
      (request.predicate.map fun predicate =>
          ReadCondition.factor (factor backend none 0 joined.length predicate.expr)).toList ++
        (minScore.map fun _ => ReadCondition.minScore (joined.length + filtered.length)).toList
    values := joined ++ filtered ++ (minScore.map SqlValue.float).toList }

def planBeyond (cursor : List (RuntimeValue φ)) (score : Option φ) : PlannedRead φ :=
  let base := planBase backend request
  let position := (effectiveTerms request.order request.page.backward).zip cursor
  match (if request.ranks then score else none) with
  | none =>
    { conditions := base.conditions ++ [.factor (afterFactor backend base.values.length position)]
      values := base.values ++ branchBinds [] position }
  | some score =>
    { conditions := base.conditions ++ [.ranked request.page.backward base.values.length
        (afterFactor backend (base.values.length + 2) position)]
      values := base.values ++ [.float score, .float score] ++ branchBinds [] position }

def planRows (decode : String → Except RuntimeQueryError (List (RuntimeValue φ) × Option φ)) :
    Except ReadFailure (PlannedRead φ) := do
  match request.page.cursor with
  | none => return planBase backend request
  | some text =>
    let (cursor, score) ← (decode text).mapError .error
    let filterBinds := (request.predicate.map (·.binds)).getD 0
    require (filterBinds + cursor.length < 2 ^ 64 &&
      filterBinds + cursor.length ≤ request.limits.maxBindParameters) request.limitFailure
    return planBeyond backend request cursor score

def planCount : Except ReadFailure (Option (PlannedRead φ)) :=
  if request.includeTotalCount then do
    require ((planBase backend request).values.length ≤ request.limits.maxBindParameters)
      request.limitFailure
    return some (planBase backend request)
  else return none

/-- The plan of a request; `decode` reads its cursor. -/
def requestPlan (decode : String → Except RuntimeQueryError (List (RuntimeValue φ) × Option φ)) :
    Except ReadFailure (RequestPlan φ) := do
  require (backend = .sqlite || backend = .postgres)
    (.error (.ofCollection .unsupportedBackend request.collection.id))
  let rows ← planRows backend request decode
  require (rows.values.length ≤ request.limits.maxBindParameters) request.limitFailure
  let count ← planCount backend request
  return ⟨rows, count⟩

/-! ### Their texts -/

def RequestPlan.render (plan : RequestPlan φ) : RenderedRequest φ :=
  let table := request.collection.physicalTable
  let joined := (searchJoin backend table request.search).1
  let clause (read : PlannedRead φ) := whereClause (read.conditions.map (ReadCondition.text backend))
  let columns := join ", "
    (request.decodeProjection.fields.map fun field => backend.quoteIdentifier field.physicalColumn)
  let score := if request.search.isSome then
    ", " ++ SEARCH_ALIAS ++ "." ++ SEARCH_SCORE ++ " AS " ++ SEARCH_SCORE else ""
  { rows := ⟨"SELECT " ++ columns ++ score ++ " FROM " ++ backend.quoteIdentifier table ++ joined ++
      clause plan.rows ++ orderClause backend request ++ " LIMIT " ++
      toString (request.page.size + 1), plan.rows.values⟩
    count := plan.count.map fun count =>
      ⟨"SELECT COUNT(*) AS " ++ backend.quoteIdentifier "__graphql_orm_runtime_count" ++ " FROM " ++
        backend.quoteIdentifier table ++ joined ++ clause count, count.values⟩
    backward := request.page.backward }

end Plan

section Text

variable {backend : DatabaseBackend} {request : RuntimeReadRequest φ}

def ProperPredicate (schema : RuntimeSchema) (predicate : Option (RuntimePredicate φ)) : Prop :=
  ∀ p ∈ predicate, ∃ collection, Proper schema collection p.expr

variable {schema : RuntimeSchema}

variable (backend) in
/-- The conditions of the filter and the search are written as planned. -/
theorem renderBase_eq (proper : ProperPredicate schema request.predicate) :
    ∃ filter values, renderFilter backend request.predicate
        (searchJoin backend request.collection.physicalTable request.search).2 =
          some (filter, values) ∧
      filter ++ (renderMinScore backend request.search values).1 =
        (planBase backend request).conditions.map (ReadCondition.text backend) ∧
      (renderMinScore backend request.search values).2 = (planBase backend request).values := by
  have joined : (searchJoin backend request.collection.physicalTable request.search).2 =
      (request.search.map fun search => SqlValue.string (search.text backend)).toList := by
    cases request.search <;> rfl
  have minScore (values : List (SqlValue φ)) : renderMinScore backend request.search values =
      (((request.search.bind (·.minScore)).map fun _ => ReadCondition.minScore values.length).toList.map
          (ReadCondition.text backend),
        values ++ ((request.search.bind (·.minScore)).map SqlValue.float).toList) := by
    rw [renderMinScore]
    cases request.search.bind (·.minScore) with
    | none =>
      simp only [Option.map_none, Option.toList_none, List.map_nil, List.append_nil]
    | some score => rfl
  have filtered : renderFilter backend request.predicate
      (searchJoin backend request.collection.physicalTable request.search).2 =
        some ((request.predicate.map fun predicate => ReadCondition.factor (factor backend none 0
            (searchJoin backend request.collection.physicalTable request.search).2.length
            predicate.expr)).toList.map (ReadCondition.text backend),
          (searchJoin backend request.collection.physicalTable request.search).2 ++
            request.predicate.elim [] fun predicate => emitted backend predicate.expr) := by
    cases given : request.predicate with
    | none => simp [renderFilter]
    | some predicate =>
      obtain ⟨collection, built⟩ := proper predicate given
      have rendered : renderScoped backend _ 0 predicate.expr _ = _ := renderScoped_eq built none 0
        (searchJoin backend request.collection.physicalTable request.search).2
      simp only [Option.map_none] at rendered
      have factorText (f : Factor Elementary Empty Subquery) :
          ReadCondition.text backend (.factor f) = f.text (spelling backend) := rfl
      simp [renderFilter, RuntimePredicate.render, renderExpr, rendered, factorText]
  refine ⟨_, _, filtered, ?_, ?_⟩
  · rw [minScore, planBase, ← List.map_append, joined, List.length_append]
  · rw [minScore, planBase, joined]

variable (backend) in
/-- What lies beyond a cursor is written as planned. -/
theorem renderBeyond_eq {cursor : List (RuntimeValue φ)} (score : Option φ)
    (filled : effectiveTerms request.order request.page.backward ≠ [])
    (enough : (effectiveTerms request.order request.page.backward).length ≤ cursor.length) :
    ∃ beyond values, renderBeyond backend request.page.backward
        (effectiveTerms request.order request.page.backward) cursor
        (if request.ranks then score else none) (planBase backend request).values =
          some (beyond, values) ∧
      (planBase backend request).conditions.map (ReadCondition.text backend) ++ [beyond] =
        (planBeyond backend request cursor score).conditions.map (ReadCondition.text backend) ∧
      values = (planBeyond backend request cursor score).values := by
  unfold renderBeyond planBeyond
  generalize planBase backend request = base
  cases if request.ranks then score else none with
  | none =>
    dsimp only
    rw [cursorAfterSql_eq filled enough]
    exact ⟨_, _, rfl, by rw [List.map_append]; rfl, rfl⟩
  | some score =>
    dsimp only
    rw [cursorAfterSql_eq filled enough]
    refine ⟨_, _, rfl, ?_, ?_⟩
    · rw [List.map_append, List.append_assoc base.values, List.length_append, List.length_append]
      rfl
    · rw [List.append_assoc base.values]
      rfl

variable {decode : String → Except RuntimeQueryError (List (RuntimeValue φ) × Option φ)}

/-- The cursor of a request, if it has one that can be read, holds a value for each term of
its order. -/
def CursorFilled (request : RuntimeReadRequest φ)
    (decode : String → Except RuntimeQueryError (List (RuntimeValue φ) × Option φ)) : Prop :=
  ∀ text ∈ request.page.cursor, ∀ cursor score, decode text = .ok (cursor, score) →
    request.order.terms ≠ [] ∧ cursor.length = request.order.terms.length

theorem length_effectiveTerms (order : RuntimeOrder) (backward : Bool) :
    (effectiveTerms order backward).length = order.terms.length := by
  cases backward <;> simp [effectiveTerms]

theorem renderConditions_eq (proper : ProperPredicate schema request.predicate)
    (filled : CursorFilled request decode) :
    renderConditions backend request decode =
      (planRows backend request decode).map fun plan =>
        (plan.conditions.map (ReadCondition.text backend), plan.values) := by
  obtain ⟨filter, values, rendered, conditions, bound⟩ := renderBase_eq backend proper
  simp only [renderConditions, rendered, planRows]
  cases page : request.page.cursor with
  | none =>
    have texts : filter ++ (renderMinScore backend request.search values).1 = _ := conditions
    simp [okOr, bind, Except.bind, pure, Except.pure, Except.map, texts, bound]
  | some text =>
    dsimp only
    cases read : decode text with
    | error e => rfl
    | ok found =>
      obtain ⟨cursor, score⟩ := found
      obtain ⟨terms, length⟩ := filled text page cursor score read
      have some_terms : effectiveTerms request.order request.page.backward ≠ [] := by
        rwa [← List.length_pos_iff, length_effectiveTerms, List.length_pos_iff]
      have enough : (effectiveTerms request.order request.page.backward).length ≤ cursor.length := by
        rw [length_effectiveTerms, length]
      obtain ⟨beyond, bounds, written, texts, later⟩ := renderBeyond_eq backend score some_terms enough
      rw [← conditions] at texts
      simp only [okOr, bind, Except.bind, Except.mapError, pure, Except.pure, bound, written, texts,
        later]
      cases @require ReadFailure _ request.limitFailure <;> rfl

theorem renderCount_eq (proper : ProperPredicate schema request.predicate) :
    renderCount backend request =
      (planCount backend request).map fun plan => plan.map fun count =>
        ⟨"SELECT COUNT(*) AS " ++ backend.quoteIdentifier "__graphql_orm_runtime_count" ++ " FROM " ++
          backend.quoteIdentifier request.collection.physicalTable ++
          (searchJoin backend request.collection.physicalTable request.search).1 ++
          whereClause (count.conditions.map (ReadCondition.text backend)), count.values⟩ := by
  obtain ⟨filter, values, rendered, conditions, bound⟩ := renderBase_eq backend proper
  simp only [renderCount, rendered, planCount]
  split
  · simp only [okOr, bind, Except.bind, pure, Except.pure, bound, conditions]
    cases @require ReadFailure _ request.limitFailure <;> rfl
  · rfl

/-- The statements of a request are the texts of its plan. -/
theorem renderRequest_eq {schema : RuntimeSchema}
    (proper : ProperPredicate schema request.predicate) (filled : CursorFilled request decode) :
    renderRequest backend request decode =
      (requestPlan backend request decode).map (RequestPlan.render backend request) := by
  simp only [renderRequest, requestPlan, renderConditions_eq proper filled, renderCount_eq proper]
  cases @require ReadFailure (backend = .sqlite || backend = .postgres) _ with
  | error e => rfl
  | ok u =>
    cases planRows backend request decode with
    | error e => rfl
    | ok rows =>
      simp only [bind, Except.bind, Except.map]
      cases @require ReadFailure _ request.limitFailure with
      | error e => rfl
      | ok u =>
        dsimp only
        cases planCount backend request with
        | error e | ok count => rfl

end Text

end GraphqlOrm.Runtime
