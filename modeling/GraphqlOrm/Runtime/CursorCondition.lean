import GraphqlOrm.Query.KeysetBound
import GraphqlOrm.Runtime.Read
import GraphqlOrm.Runtime.RelationFilter

/-!
# The condition of a cursor

What lies beyond a cursor, as a condition: one branch for each term of the order, in which
the row agrees with the cursor before the term and lies beyond it there. The condition
holds of a row exactly if the row comes after the cursor in the order.
-/
namespace GraphqlOrm.Runtime

open Schema (DatabaseBackend)
open Sql
open Query (KeysetOrderColumn compareColumn compareTuple)

variable {φ : Type}

/-! ### The tree -/

abbrev Position (φ : Type) := List (RuntimeEffectiveOrderTerm × RuntimeValue φ)

/-- The values that are bound, one for each that is not null. -/
def positionBinds (pairs : Position φ) : List (SqlValue φ) := pairs.filterMap fun p => valueBind p.2

section Tree

variable (backend : DatabaseBackend)

def equalFactor (n : Nat) (p : RuntimeEffectiveOrderTerm × RuntimeValue φ) :
    Factor Elementary Empty Subquery :=
  .atom (if (valueBind p.2).isNone then .isNull (columnScalar backend p.1.field) false
    else .compare .eq (columnScalar backend p.1.field) (bindScalar backend p.1.field n))

def equalFactors (n : Nat) : Position φ → List (Factor Elementary Empty Subquery)
  | [] => []
  | p :: rest => equalFactor backend n p :: equalFactors (n + (positionBinds [p]).length) rest

def compareFactor (n : Nat) (p : RuntimeEffectiveOrderTerm × RuntimeValue φ) :
    Factor Elementary Empty Subquery :=
  let column := columnScalar backend p.1.field
  let scalar := .atom (.compare (if p.1.direction = .asc then .gt else .lt) column
    (bindScalar backend p.1.field n))
  if (valueBind p.2).isNone then
    match p.1.nulls with
    | .first => .atom (.isNull column true)
    | .last => .atom (.constant false)
  else
    match p.1.nulls with
    | .first => .group (.one (.and (.atom (.isNull column true)) (.one scalar)))
    | .last => .group (.or (.one (.atom (.isNull column false))) (.one (.one scalar)))

/-- The row agrees with the cursor before `p` and lies beyond it there. -/
def branchFactor (n : Nat) (prior : Position φ) (p : RuntimeEffectiveOrderTerm × RuntimeValue φ) :
    Factor Elementary Empty Subquery :=
  .group (.one (.chain (equalFactors backend n prior)
    (compareFactor backend (n + (positionBinds prior).length) p)))

def branchFactors (n : Nat) (prior : Position φ) :
    Position φ → List (Factor Elementary Empty Subquery)
  | [] => []
  | p :: rest =>
    branchFactor backend n prior p ::
      branchFactors (n + (positionBinds (prior ++ [p])).length) (prior ++ [p]) rest

end Tree

def branchBinds (prior : Position φ) : Position φ → List (SqlValue φ)
  | [] => []
  | p :: rest => positionBinds (prior ++ [p]) ++ branchBinds (prior ++ [p]) rest

/-- The condition of a cursor whose values are bound after `n` others. -/
def afterFactor (backend : DatabaseBackend) (n : Nat) (position : Position φ) :
    Factor Elementary Empty Subquery :=
  .group (.disjunction (branchFactors backend n [] position))

/-! ### Its text -/

section Text

variable {backend : DatabaseBackend}

theorem positionBinds_cons (p : RuntimeEffectiveOrderTerm × RuntimeValue φ) (rest : Position φ) :
    positionBinds (p :: rest) = positionBinds [p] ++ positionBinds rest := by
  rw [positionBinds, positionBinds, positionBinds, ← List.filterMap_append]
  rfl

theorem cursorEqual_eq (term : RuntimeEffectiveOrderTerm) (value : RuntimeValue φ)
    (values : List (SqlValue φ)) :
    cursorEqual backend term value values =
      ((equalFactor backend values.length (term, value)).text (spelling backend),
        values ++ positionBinds [(term, value)]) := by
  cases bound : valueBind value with
  | none =>
    simp [cursorEqual, bound, equalFactor, positionBinds, querySpelling, Elementary.text,
      columnScalar_text, ← String.toList_inj]
  | some sql =>
    simp [cursorEqual, bound, equalFactor, positionBinds, querySpelling, Elementary.text,
      columnScalar_text, bindScalar_text, nextBind, Relational.text, ← String.toList_inj]

theorem cursorEquals_eq (pairs : Position φ) (values : List (SqlValue φ)) :
    cursorEquals backend pairs values =
      ((equalFactors backend values.length pairs).map (Factor.text (spelling backend)),
        values ++ positionBinds pairs) := by
  induction pairs generalizing values with
  | nil => simp [cursorEquals, equalFactors, positionBinds]
  | cons p rest ih =>
    obtain ⟨term, value⟩ := p
    have split := positionBinds_cons (term, value) rest
    rw [cursorEquals, cursorEqual_eq, split]
    simp only [ih, List.length_append, equalFactors, List.map_cons, List.append_assoc]

theorem cursorCompare_eq (term : RuntimeEffectiveOrderTerm) (value : RuntimeValue φ)
    (values : List (SqlValue φ)) :
    cursorCompare backend term value values =
      ((compareFactor backend values.length (term, value)).text (spelling backend),
        values ++ positionBinds [(term, value)]) := by
  obtain ⟨field, direction, nulls⟩ := term
  cases bound : valueBind value with
  | none =>
    cases nulls <;>
      simp [cursorCompare, bound, compareFactor, positionBinds, querySpelling, Elementary.text,
        columnScalar_text, ← String.toList_inj]
  | some sql =>
    cases nulls <;> cases direction <;>
      simp [cursorCompare, bound, compareFactor, positionBinds, querySpelling, Elementary.text,
        columnScalar_text, bindScalar_text, nextBind, Relational.text, ← String.toList_inj]

theorem cursorBranches_eq (prior rest : Position φ) (values : List (SqlValue φ)) :
    cursorBranches backend prior rest values =
      ((branchFactors backend values.length prior rest).map (Factor.text (spelling backend)),
        values ++ branchBinds prior rest) := by
  induction rest generalizing prior values with
  | nil => simp [cursorBranches, branchFactors, branchBinds]
  | cons p rest ih =>
    obtain ⟨term, value⟩ := p
    have bound : positionBinds (prior ++ [(term, value)]) =
        positionBinds prior ++ positionBinds [(term, value)] := List.filterMap_append
    rw [cursorBranches, cursorEquals_eq]
    simp only [cursorCompare_eq, ih, branchFactors, branchBinds, branchFactor, bound,
      List.length_append, List.map_cons, text_group, text_one, Term.text_chain, List.append_assoc]

section

variable {order : List RuntimeEffectiveOrderTerm} {cursor : List (RuntimeValue φ)}
    (filled : order ≠ []) (enough : order.length ≤ cursor.length)
include filled enough

theorem zip_filled : order.zip cursor ≠ [] := by
  have terms := List.length_pos_of_ne_nil filled
  rw [Ne, ← List.length_eq_zero_iff, List.length_zip]
  omega

/-- The text of a cursor is that of its condition. -/
theorem cursorAfterSql_eq (values : List (SqlValue φ)) :
    cursorAfterSql backend order cursor values =
      some ((afterFactor backend values.length (order.zip cursor)).text (spelling backend),
        values ++ branchBinds [] (order.zip cursor)) := by
  have branches : branchFactors backend values.length [] (order.zip cursor) ≠ [] := by
    cases pairs : order.zip cursor with
    | nil => exact absurd pairs (zip_filled filled enough)
    | cons p rest => simp [branchFactors]
  rw [cursorAfterSql, if_pos enough, cursorBranches_eq, afterFactor, text_group,
    Condition.text_disjunction _ branches]

end

/-! ### Its parameters -/

theorem bindScalar_parameters (field : RuntimeFieldHandle) (n : Nat) :
    (bindScalar backend field n).parameters = [n + 1] := rfl

/-- Parameters behind `n` others, in two runs. -/
theorem parameters_split (n first second : Nat) :
    List.range' (n + 1) (first + second) =
      List.range' (n + 1) first ++ List.range' (n + first + 1) second := by
  rw [← List.range'_append_1, Nat.add_right_comm]

/-- A value that is bound is the next parameter, in either test of its term. -/
theorem equalFactor_parameters (n : Nat) (p : RuntimeEffectiveOrderTerm × RuntimeValue φ) :
    tokenParameters (equalFactor backend n p).tokens =
      List.range' (n + 1) (positionBinds [p]).length := by
  cases bound : valueBind p.2 <;>
    simp [equalFactor, positionBinds, bound, Elementary.parameters, columnScalar_parameters,
      bindScalar_parameters]

theorem compareFactor_parameters (n : Nat) (p : RuntimeEffectiveOrderTerm × RuntimeValue φ) :
    tokenParameters (compareFactor backend n p).tokens =
      List.range' (n + 1) (positionBinds [p]).length := by
  cases bound : valueBind p.2 <;> cases nulls : p.1.nulls <;>
    simp [compareFactor, positionBinds, bound, nulls, Condition.tokens, Term.tokens, Factor.tokens,
      tokenParameters, Elementary.parameters, columnScalar_parameters, bindScalar_parameters]

theorem equalFactors_parameters (n : Nat) (pairs : Position φ) :
    ((equalFactors backend n pairs).flatMap fun f => tokenParameters f.tokens) =
      List.range' (n + 1) (positionBinds pairs).length := by
  induction pairs generalizing n with
  | nil => rfl
  | cons p rest ih =>
    rw [equalFactors, List.flatMap_cons, equalFactor_parameters, ih, positionBinds_cons p rest,
      List.length_append, parameters_split]

theorem branchFactors_parameters (n : Nat) (prior rest : Position φ) :
    ((branchFactors backend n prior rest).flatMap fun f => tokenParameters f.tokens) =
      List.range' (n + 1) (branchBinds prior rest).length := by
  induction rest generalizing n prior with
  | nil => rfl
  | cons p rest ih =>
    have binds : positionBinds (prior ++ [p]) = positionBinds prior ++ positionBinds [p] :=
      List.filterMap_append
    have own : tokenParameters (branchFactor backend n prior p).tokens =
        List.range' (n + 1) (positionBinds (prior ++ [p])).length := by
      rw [branchFactor, tokenParameters_group, Condition.tokens, tokenParameters_chain,
        equalFactors_parameters, compareFactor_parameters, binds, List.length_append,
        parameters_split]
    rw [branchFactors, List.flatMap_cons, own, ih, branchBinds, List.length_append,
      parameters_split]

/-- The values of a cursor are bound in the order in which its condition names them. -/
theorem afterFactor_parameters (n : Nat) (position : Position φ) :
    tokenParameters (afterFactor backend n position).tokens =
      List.range' (n + 1) (branchBinds [] position).length := by
  rw [afterFactor, tokenParameters_group, tokenParameters_disjunction, branchFactors_parameters]

end Text

/-! ### Its meaning -/

def RuntimeEffectiveOrderTerm.keyset (term : RuntimeEffectiveOrderTerm) : KeysetOrderColumn where
  column := term.field.physicalColumn
  direction := if term.direction = .asc then .asc else .desc
  nulls := match term.nulls with
    | .first => .first
    | .last => .last

section Meaning

variable {δ : Type} [LinearOrder δ] {backend : DatabaseBackend} {engine : Engine (SqlValue φ) δ}
  {values : List (SqlValue φ)} {outward : Bool} {tables : Tables δ} {scopes : Scopes (Row δ)}

/-- The database compares the columns of an order as its values are ordered. -/
def Sorts (engine : Engine (SqlValue φ) δ) (backend : DatabaseBackend)
    (terms : List RuntimeEffectiveOrderTerm) : Prop :=
  ∀ term ∈ terms, ∀ x y, engine.compare (byteCollation backend term.field.valueKind) x y = cmp x y

def storedCell (backend : DatabaseBackend) (engine : Engine (SqlValue φ) δ)
    (field : RuntimeFieldHandle) (value : RuntimeValue φ) : Option δ :=
  (valueBind value).map (engine.parameter (parameterCast backend field.valueKind))

def readCell (outward : Bool) (scopes : Scopes (Row δ)) (term : RuntimeEffectiveOrderTerm) :
    Option δ :=
  readIn outward scopes { column := term.field.physicalColumn }

def AgreesWith (backend : DatabaseBackend) (engine : Engine (SqlValue φ) δ) (outward : Bool)
    (scopes : Scopes (Row δ)) (pairs : Position φ) : Prop :=
  ∀ p ∈ pairs, readCell outward scopes p.1 = storedCell backend engine p.1.field p.2

/-- Where values are compared as they are ordered, a test of two values reads their order. -/
theorem compares_sorted {collation : Option String}
    (sorts : ∀ x y, engine.compare collation x y = cmp x y) (x y : δ) :
    (engine.compares .eq collation (some x) (some y) = .holds ↔ x = y) ∧
      (engine.compares .lt collation (some x) (some y) = .holds ↔ x < y) ∧
      (engine.compares .gt collation (some x) (some y) = .holds ↔ y < x) := by
  simp only [Engine.compares, Truth.lift, Truth.ofBool_eq_holds, Relational.holds, beq_iff_eq]
  rw [sorts]
  exact ⟨cmp_eq_eq_iff x y, cmp_eq_lt_iff x y, cmp_eq_gt_iff x y⟩

theorem equalFactor_eval {n : Nat} {p : RuntimeEffectiveOrderTerm × RuntimeValue φ}
    (sorts : ∀ x y, engine.compare (byteCollation backend p.1.field.valueKind) x y = cmp x y)
    (bound : positionBinds [p] <+: values.drop n) :
    (equalFactor backend n p).eval (queryMeaning engine values outward tables) scopes = .holds ↔
      readCell outward scopes p.1 = storedCell backend engine p.1.field p.2 := by
  obtain ⟨term, value⟩ := p
  cases found : valueBind value with
  | none =>
    simp [equalFactor, found, Factor.eval, queryMeaning, Elementary.eval, columnScalar_eval,
      readCell, storedCell]
  | some sql =>
    rw [positionBinds, List.filterMap_cons, found, List.filterMap_nil] at bound
    have here : values[n]? = some sql := getElem?_of_isPrefix bound
    simp only [equalFactor, found, Option.isNone_some, Bool.false_eq_true, if_false, Factor.eval,
      queryMeaning, Elementary.eval, compare_column here, readCell, storedCell, Option.map_some]
    cases readIn outward scopes { column := term.field.physicalColumn } with
    | none => simp [Engine.compares, Truth.lift]
    | some x => rw [(compares_sorted sorts _ _).1, Option.some.injEq]

theorem equalFactors_eval {n : Nat} {pairs : Position φ}
    (sorts : Sorts engine backend (pairs.map Prod.fst))
    (bound : positionBinds pairs <+: values.drop n) :
    Truth.all ((equalFactors backend n pairs).map
        (Factor.eval (queryMeaning engine values outward tables) scopes)) = .holds ↔
      AgreesWith backend engine outward scopes pairs := by
  induction pairs generalizing n with
  | nil => simp [equalFactors, AgreesWith]
  | cons p rest ih =>
    rw [positionBinds_cons] at bound
    obtain ⟨here, later⟩ := prefix_parts bound
    have others := ih (fun term mem => sorts term (.tail _ mem)) later
    rw [equalFactors, List.map_cons, Truth.all_cons, Truth.and_eq_holds,
      equalFactor_eval (sorts p.1 (.head _)) here, others, AgreesWith, AgreesWith,
      List.forall_mem_cons]

theorem compareFactor_eval {n : Nat} {p : RuntimeEffectiveOrderTerm × RuntimeValue φ}
    (sorts : ∀ x y, engine.compare (byteCollation backend p.1.field.valueKind) x y = cmp x y)
    (bound : positionBinds [p] <+: values.drop n) (nullsLow : Bool) :
    (compareFactor backend n p).eval (queryMeaning engine values outward tables) scopes = .holds ↔
      compareColumn nullsLow p.1.keyset (readCell outward scopes p.1)
        (storedCell backend engine p.1.field p.2) = .gt := by
  obtain ⟨⟨field, direction, nulls⟩, value⟩ := p
  rw [show Ordering.gt = Query.Side.after.ordering from rfl, Query.compareColumn_beyond]
  cases found : valueBind value with
  | none =>
    cases nulls <;>
      simp [compareFactor, found, Factor.eval, queryMeaning, Elementary.eval, columnScalar_eval,
        readCell, storedCell, Query.Side.Beyond, Query.Side.nullsBeyond,
        RuntimeEffectiveOrderTerm.keyset, Option.isSome_iff_ne_none]
  | some sql =>
    rw [positionBinds, List.filterMap_cons, found, List.filterMap_nil] at bound
    have here : values[n]? = some sql := getElem?_of_isPrefix bound
    cases stored : readIn outward scopes { column := field.physicalColumn } <;> cases nulls <;>
      cases direction <;>
        simp [compareFactor, found, Factor.eval, Condition.eval, Term.eval, queryMeaning,
          Elementary.eval, columnScalar_eval, compare_column here, readCell, stored, storedCell,
          (compares_sorted sorts _ _).2.1, (compares_sorted sorts _ _).2.2, Query.Side.Beyond,
          Query.Side.nullsBeyond, Query.Side.operator, Query.Comparison.holds,
          RuntimeEffectiveOrderTerm.keyset]

def placeOf (nullsLow : Bool) (backend : DatabaseBackend) (engine : Engine (SqlValue φ) δ)
    (outward : Bool) (scopes : Scopes (Row δ)) (pairs : Position φ) : Ordering :=
  compareTuple nullsLow (pairs.map fun p => p.1.keyset)
    (pairs.map fun p => readCell outward scopes p.1)
    (pairs.map fun p => storedCell backend engine p.1.field p.2)

/-- A row lies beyond a cursor at the first of its terms, or agrees there and lies beyond the
rest. -/
theorem placeOf_cons (nullsLow : Bool) (p : RuntimeEffectiveOrderTerm × RuntimeValue φ)
    (rest : Position φ) :
    placeOf nullsLow backend engine outward scopes (p :: rest) = .gt ↔
      compareColumn nullsLow p.1.keyset (readCell outward scopes p.1)
          (storedCell backend engine p.1.field p.2) = .gt ∨
        readCell outward scopes p.1 = storedCell backend engine p.1.field p.2 ∧
          placeOf nullsLow backend engine outward scopes rest = .gt := by
  rw [placeOf, List.map_cons, List.map_cons, List.map_cons, compareTuple, Ordering.then_eq_gt,
    Query.compareColumn_eq_iff, placeOf]

theorem branchFactors_eval {n : Nat} {prior rest : Position φ}
    (sorts : Sorts engine backend ((prior ++ rest).map Prod.fst))
    (bound : branchBinds prior rest <+: values.drop n) (nullsLow : Bool) :
    Truth.any ((branchFactors backend n prior rest).map
        (Factor.eval (queryMeaning engine values outward tables) scopes)) = .holds ↔
      AgreesWith backend engine outward scopes prior ∧
        placeOf nullsLow backend engine outward scopes rest = .gt := by
  induction rest generalizing n prior with
  | nil => simp [branchFactors, placeOf, compareTuple]
  | cons p rest ih =>
    obtain ⟨here, later⟩ := prefix_parts bound
    have parts : positionBinds (prior ++ [p]) = positionBinds prior ++ positionBinds [p] :=
      List.filterMap_append
    rw [parts] at here
    obtain ⟨before, at_term⟩ := prefix_parts here
    have sorted (term : RuntimeEffectiveOrderTerm) (mem : term ∈ prior.map Prod.fst ∨ term = p.1) :
        ∀ x y, engine.compare (byteCollation backend term.field.valueKind) x y = cmp x y :=
      sorts term (by
        rw [List.map_append, List.mem_append]
        exact mem.imp_right fun same => List.mem_cons.mpr (.inl same))
    have others := ih (by rwa [List.append_assoc]) later
    -- The terms after `p` are reached exactly by the rows that agree with it.
    have extended : AgreesWith backend engine outward scopes (prior ++ [p]) ↔
        AgreesWith backend engine outward scopes prior ∧
          readCell outward scopes p.1 = storedCell backend engine p.1.field p.2 := by
      simp [AgreesWith, or_imp, forall_and]
    rw [branchFactors, List.map_cons, Truth.any_cons, Truth.or_eq_holds, others, branchFactor,
      Factor.eval, Condition.eval, Term.eval_chain, Truth.and_eq_holds,
      equalFactors_eval (fun term mem => sorted term (.inl mem)) before,
      compareFactor_eval (sorted p.1 (.inr rfl)) at_term nullsLow, extended, placeOf_cons]
    constructor
    · rintro (⟨agrees, beyond⟩ | ⟨⟨agrees, same⟩, later⟩)
      · exact ⟨agrees, .inl beyond⟩
      · exact ⟨agrees, .inr ⟨same, later⟩⟩
    · rintro ⟨agrees, beyond | ⟨same, later⟩⟩
      · exact .inl ⟨agrees, beyond⟩
      · exact .inr ⟨⟨agrees, same⟩, later⟩

/-- The condition of a cursor holds exactly of the rows beyond it. -/
theorem afterFactor_eval {n : Nat} {position : Position φ} (filled : position ≠ [])
    (sorts : Sorts engine backend (position.map Prod.fst))
    (bound : branchBinds [] position <+: values.drop n) (nullsLow : Bool) :
    (afterFactor backend n position).eval (queryMeaning engine values outward tables) scopes =
        .holds ↔
      placeOf nullsLow backend engine outward scopes position = .gt := by
  have branches : branchFactors backend n [] position ≠ [] := by
    cases position with
    | nil => exact absurd rfl filled
    | cons p rest => simp [branchFactors]
  rw [afterFactor, Factor.eval, Condition.eval_disjunction _ _ branches,
    branchFactors_eval sorts bound nullsLow]
  simp [AgreesWith]

/-- The clause of a cursor is its condition, with its values bound in the order of the
placeholders behind those of the statement so far, and it selects the rows beyond the cursor. -/
theorem cursorAfterSql_selects (backend : DatabaseBackend) {order : List RuntimeEffectiveOrderTerm}
    {cursor : List (RuntimeValue φ)} (filled : order ≠ []) (enough : order.length ≤ cursor.length)
    (earlier : List (SqlValue φ)) :
    let condition := afterFactor backend earlier.length (order.zip cursor)
    let bound := branchBinds [] (order.zip cursor)
    cursorAfterSql backend order cursor earlier =
        some (condition.text (spelling backend), earlier ++ bound) ∧
      tokenParameters condition.tokens = List.range' (earlier.length + 1) bound.length ∧
      ∀ (engine : Engine (SqlValue φ) δ) (later : List (SqlValue φ)) (outward : Bool)
        (tables : Tables δ) (scopes : Scopes (Row δ)) (nullsLow : Bool),
        Sorts engine backend order →
          (condition.eval (queryMeaning engine (earlier ++ bound ++ later) outward tables) scopes =
              .holds ↔
            placeOf nullsLow backend engine outward scopes (order.zip cursor) = .gt) := by
  refine ⟨cursorAfterSql_eq filled enough earlier, afterFactor_parameters _ _,
    fun engine later outward tables scopes nullsLow sorts =>
      afterFactor_eval (zip_filled filled enough) (fun own mem => sorts own ?_) ?_ nullsLow⟩
  · obtain ⟨p, paired, rfl⟩ := List.mem_map.mp mem
    exact (List.of_mem_zip paired).1
  · rw [List.append_assoc, List.drop_left]
    exact List.prefix_append _ _

end Meaning

/-! ### Tasks by their priority -/

def taskField (column : String) (nullable : Bool) : RuntimeFieldHandle where
  schemaFingerprint := ""
  collection := "task"
  id := column
  physicalColumn := column
  valueKind := .integer
  nullable
  filterable := true
  sortable := true
  format := none
  autoTimestamp := none
  autoActor := none

def taskOrder : List RuntimeEffectiveOrderTerm :=
  [⟨taskField "priority" true, .desc, .last⟩, ⟨taskField "id" false, .asc, .last⟩]

def taskRow (priority : Option Int) (id : Int) : Scopes (Row Int) :=
  [[⟨"tasks", ["priority", "id"], fun column => if column = "priority" then priority else some id⟩]]

def taskCursor : List (RuntimeValue Int) := [.integer 3, .integer 7]

theorem taskRow_beyond (priority : Option Int) (id : Int) :
    placeOf true .sqlite integerEngine true (taskRow priority id) (taskOrder.zip taskCursor) = .gt ↔
      priority = none ∨ (∃ p < 3, priority = some p) ∨ priority = some 3 ∧ 7 < id := by
  have pairs : taskOrder.zip taskCursor = [(⟨taskField "priority" true, .desc, .last⟩, .integer 3),
    (⟨taskField "id" false, .asc, .last⟩, .integer 7)] := rfl
  have row : readCell true (taskRow priority id) ⟨taskField "priority" true, .desc, .last⟩ =
        priority ∧
      readCell true (taskRow priority id) ⟨taskField "id" false, .asc, .last⟩ = some id := ⟨rfl, rfl⟩
  have cursor : storedCell .sqlite integerEngine (taskField "priority" true) (.integer 3) = some 3 ∧
      storedCell .sqlite integerEngine (taskField "id" false) (.integer 7) = some 7 := ⟨rfl, rfl⟩
  rw [pairs, placeOf_cons, placeOf_cons, show Ordering.gt = Query.Side.after.ordering from rfl,
    Query.compareColumn_beyond, Query.compareColumn_beyond, row.1, row.2, cursor.1, cursor.2]
  cases priority with
  | none => simp [Query.Side.Beyond, Query.Side.nullsBeyond, RuntimeEffectiveOrderTerm.keyset]
  | some p =>
    simp [Query.Side.Beyond, Query.Side.operator, Query.Comparison.holds, placeOf, compareTuple,
      RuntimeEffectiveOrderTerm.keyset, Query.Side.ordering]

/-- Behind the task with priority 3 and ID 7 come the others of its priority with higher IDs,
lower priorities and then those without any. -/
theorem cursorAfterSql_selects_tasks :
    ∃ condition : Factor Elementary Empty Subquery,
      cursorAfterSql .sqlite taskOrder taskCursor [.bool true] =
        some (condition.text (spelling .sqlite), [.bool true, .int 3, .int 3, .int 7]) ∧
      tokenParameters condition.tokens = [2, 3, 4] ∧
      ∀ priority id,
        condition.eval (queryMeaning integerEngine [.bool true, .int 3, .int 3, .int 7] true
            fun _ => ⟨[], []⟩) (taskRow priority id) = .holds ↔
          priority = none ∨ (∃ p < 3, priority = some p) ∨ priority = some 3 ∧ 7 < id := by
  have filled : taskOrder ≠ [] := List.cons_ne_nil _ _
  have enough : taskOrder.length ≤ taskCursor.length := Nat.le_refl 2
  obtain ⟨rendered, numbered, selects⟩ :=
    cursorAfterSql_selects (δ := Int) .sqlite filled enough [.bool true]
  have sorts : Sorts integerEngine .sqlite taskOrder := fun _ _ x y => (cmp_eq_compare x y).symm
  refine ⟨_, rendered, numbered, fun priority id => ?_⟩
  exact (selects integerEngine [] true (fun _ => ⟨[], []⟩) (taskRow priority id) true sorts).trans
    (taskRow_beyond priority id)

end GraphqlOrm.Runtime
