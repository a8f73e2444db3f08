import GraphqlOrm.Foundation.Paging
import GraphqlOrm.Query.KeysetOrder

/-!
# Keyset bounds

The clause that restricts a query to the rows on one side of a position, with or without
the rows at the position itself, and the order of the keys that it compares.
-/
namespace GraphqlOrm.Query

open Schema Sql Paging

/-! ### Keyset bounds -/

section Bounds

variable {φ υ : Type}

def renderKeysetSide (backend : DatabaseBackend) (parseUuid : String → Option υ) (startIndex : Nat)
    (order : List KeysetOrderColumn) (values : List (KeysetValue φ)) :
    Side → Except OrmErrorCode (String × List (SqlValue φ υ))
  | .before => renderKeysetBefore backend parseUuid startIndex order values
  | .after => renderKeysetAfter backend parseUuid startIndex order values

/-- The text of `keyset_bound_with_order`. An inclusive bound also accepts the position
itself. -/
def keysetBoundText (backend : DatabaseBackend) (parseUuid : String → Option υ) (startIndex : Nat)
    (order : List KeysetOrderColumn) (values : List (KeysetValue φ)) (side : Side)
    (inclusive : Bool) : Except OrmErrorCode (String × List (SqlValue φ υ)) := do
  let (clause, binds) ← renderKeysetSide backend parseUuid startIndex order values side
  if inclusive then
    let (equal, binds) ← (priorTerms backend parseUuid startIndex (order.zip values)
      binds).mapError fun _ => .invalidInput
    return ("(" ++ clause ++ ") OR (" ++ Text.join " AND " equal ++ ")", binds)
  else return (clause, binds)

/-- A clause as the database reads it. -/
structure KeysetClause (φ υ : Type) where
  condition : Condition Atom Empty Empty
  startIndex : Nat
  values : List (SqlValue φ υ)

/-- A value with a bind value, or null. -/
def isBindable (parseUuid : String → Option υ) : KeysetValue φ → Bool
  | .null => true
  | value => (keysetSqlValue parseUuid value).isSome

theorem isBindable_iff {parseUuid : String → Option υ} {value : KeysetValue φ} :
    isBindable parseUuid value = true ↔ Bindable parseUuid value := by
  cases value <;> simp [isBindable, Bindable]

section Clause

variable (parseUuid : String → Option υ) (startIndex : Nat) (order : List KeysetOrderColumn)
  (values : List (KeysetValue φ))

def strictCondition (side : Side) : Condition Atom Empty Empty :=
  match side with
  | .after => (keysetCondition parseUuid startIndex .after order values).1
  | .before => .one (.one (.group (keysetCondition parseUuid startIndex .before order values).1))

def equalCondition (binds : List (SqlValue φ υ)) : Condition Atom Empty Empty :=
  match (priorFactors parseUuid startIndex (order.zip values) binds).1 with
  | [] => .one (.one (.atom .never))
  | f :: fs => .one (.conj f fs)

def keysetClause (side : Side) (inclusive : Bool) : Except OrmErrorCode (KeysetClause φ υ) :=
  if order.length ≠ values.length ∨ order = [] ∨ !values.all (isBindable parseUuid) then
    .error .cursorInvalid
  else
    let strict := strictCondition parseUuid startIndex order values side
    let binds := (keysetCondition parseUuid startIndex side order values).2
    if inclusive then
      .ok ⟨.or (.one (.group strict))
          (.one (.one (.group (equalCondition parseUuid startIndex order values binds)))),
        startIndex, (priorFactors parseUuid startIndex (order.zip values) binds).2⟩
    else .ok ⟨strict, startIndex, binds⟩

end Clause

/-! ### What a clause says -/

theorem placeholders_conj (f : Factor Atom Empty Empty) (fs : List (Factor Atom Empty Empty)) :
    placeholders (Term.conj f fs).tokens =
      placeholders ((f :: fs).flatMap fun f => f.tokens ++ [.and]) := by
  induction fs generalizing f with
  | nil => simp [Term.conj, Term.tokens, placeholders]
  | cons g fs ih =>
    have mark (tokens : List (Token Atom Empty Empty)) :
        placeholders (.and :: tokens) = placeholders tokens := by simp [placeholders]
    rw [Term.conj, Term.tokens, placeholders_append, mark, ih,
      List.flatMap_cons (x := f), List.append_assoc, placeholders_append, List.singleton_append, mark]

/-- Placeholders that number all values are in the order of these. -/
theorem Appends.numbers {startIndex : Nat} {values : List (SqlValue φ υ)}
    {tokens : List (Token Atom Empty Empty)} (appends : Appends startIndex [] values tokens) :
    placeholders tokens = List.range' startIndex values.length := by
  obtain ⟨added, rfl, numbers⟩ := appends
  exact numbers

section Clause

variable {parseUuid : String → Option υ} {startIndex : Nat} {order : List KeysetOrderColumn}
  {values : List (KeysetValue φ)}

theorem comparisonTerm_unbindable (backend : DatabaseBackend) (side : Side)
    (column : KeysetOrderColumn) {value : KeysetValue φ} (unbindable : ¬Bindable parseUuid value)
    (binds : List (SqlValue φ υ)) :
    comparisonTerm backend parseUuid startIndex side column value binds =
      .error .cursorInvalid := by
  obtain ⟨other, unbound⟩ := not_or.mp unbindable
  rw [comparisonTerm]
  · rw [Option.not_isSome_iff_eq_none.mp unbound]
  · exact other

theorem branches_unbindable (backend : DatabaseBackend) (side : Side)
    {prior rest : List (KeysetOrderColumn × KeysetValue φ)}
    (earlier : ∀ p ∈ prior, Bindable parseUuid p.2) (bad : ∃ p ∈ rest, ¬Bindable parseUuid p.2)
    (binds : List (SqlValue φ υ)) :
    branches backend parseUuid startIndex side prior rest binds = .error .cursorInvalid := by
  induction rest generalizing prior binds with
  | nil => simp at bad
  | cons p rest ih =>
    obtain ⟨column, value⟩ := p
    have terms := priorTerms_eq backend startIndex earlier binds
    by_cases here : Bindable parseUuid value
    · have compared := comparisonTerm_eq backend startIndex side column here
        (priorFactors parseUuid startIndex prior binds).2
      have later : ∃ p ∈ rest, ¬Bindable parseUuid p.2 := by
        simpa [here] using bad
      have extended : ∀ p ∈ prior ++ [(column, value)], Bindable parseUuid p.2 := by
        simpa [or_imp, forall_and, here] using earlier
      simp [branches, terms, compared, ih extended later, bind, Except.bind]
    · simp [branches, terms, comparisonTerm_unbindable backend side column here, bind, Except.bind]

theorem renderKeyset_error (backend : DatabaseBackend) (side : Side)
    (bad : order.length ≠ values.length ∨ order = [] ∨ ∃ value ∈ values, ¬Bindable parseUuid value) :
    renderKeyset backend parseUuid startIndex side order values = .error .cursorInvalid := by
  rw [renderKeyset]
  split
  · rfl
  next shape =>
    obtain ⟨same, filled⟩ := not_or.mp shape
    obtain ⟨value, mem, unbindable⟩ := bad.resolve_left same |>.resolve_left filled
    have pair : ∃ p ∈ order.zip values, ¬Bindable parseUuid p.2 := by
      have second : (order.zip values).map (·.2) = values :=
        List.map_snd_zip (Nat.le_of_eq (not_not.mp same).symm)
      rw [← second] at mem
      obtain ⟨p, own, rfl⟩ := List.mem_map.mp mem
      exact ⟨p, own, unbindable⟩
    rw [branches_unbindable backend side (by simp) pair]
    rfl

/-- The position with a value for each column, all of which can be bound. -/
structure Positions (parseUuid : String → Option υ) (order : List KeysetOrderColumn)
    (values : List (KeysetValue φ)) : Prop where
  same : order.length = values.length
  filled : order ≠ []
  bindable : ∀ value ∈ values, Bindable parseUuid value

theorem positions_iff : Positions parseUuid order values ↔
    ¬(order.length ≠ values.length ∨ order = [] ∨ !values.all (isBindable parseUuid)) := by
  simp only [not_or, not_not, Bool.not_eq_true', Bool.not_eq_false, List.all_eq_true, isBindable_iff]
  exact ⟨fun ⟨same, filled, bindable⟩ => ⟨same, filled, bindable⟩,
    fun ⟨same, filled, bindable⟩ => ⟨same, filled, bindable⟩⟩

theorem keysetClause_error (bad : ¬Positions parseUuid order values) (side : Side)
    (inclusive : Bool) :
    keysetClause parseUuid startIndex order values side inclusive = .error .cursorInvalid :=
  if_pos (not_not.mp (mt positions_iff.mpr bad))

theorem renderKeysetSide_eq (backend : DatabaseBackend) (positions : Positions parseUuid order values)
    (side : Side) :
    renderKeysetSide backend parseUuid startIndex order values side =
      .ok ((strictCondition parseUuid startIndex order values side).text (keysetSpelling backend),
        (keysetCondition parseUuid startIndex side order values).2) := by
  have rendered := renderKeyset_eq backend startIndex side positions.filled positions.same
    positions.bindable
  cases side with
  | after => exact rendered
  | before =>
    simp [renderKeysetSide, renderKeysetBefore, rendered, strictCondition, bind, Except.bind, pure,
      Except.pure]

theorem priorFactors_ne_nil (positions : Positions parseUuid order values)
    {binds : List (SqlValue φ υ)} :
    (priorFactors parseUuid startIndex (order.zip values) binds).1 ≠ [] := by
  intro none
  obtain ⟨column, order, rfl⟩ := List.exists_cons_of_ne_nil positions.filled
  obtain ⟨value, values, rfl⟩ := List.exists_cons_of_length_pos (l := values)
    (by rw [← positions.same]; simp)
  rw [List.zip_cons_cons, priorFactors] at none
  split at none <;> cases none

theorem text_equalCondition (backend : DatabaseBackend) (positions : Positions parseUuid order values)
    (binds : List (SqlValue φ υ)) :
    (equalCondition parseUuid startIndex order values binds).text (keysetSpelling backend) =
      Text.join " AND " ((priorFactors parseUuid startIndex (order.zip values) binds).1.map
        (Factor.text (keysetSpelling backend))) := by
  rw [equalCondition]
  split
  next none => exact absurd none (priorFactors_ne_nil positions)
  next f fs shape => rw [shape, text_one, Term.text_conj]

theorem appends_strictCondition (positions : Positions parseUuid order values) (side : Side) :
    Appends startIndex [] (keysetCondition parseUuid startIndex side order values).2
      (strictCondition parseUuid startIndex order values side).tokens := by
  have numbers : placeholders (keysetCondition parseUuid startIndex side order values).1.tokens =
      List.range' startIndex (keysetCondition parseUuid startIndex side order values).2.length :=
    placeholders_keysetCondition side positions.filled positions.same
  refine ⟨_, (List.nil_append _).symm, ?_⟩
  cases side with
  | after => exact numbers
  | before =>
    -- The parentheses of this side hold no placeholder.
    rw [List.length_nil, Nat.add_zero, ← numbers]
    simp [strictCondition, Condition.tokens, Term.tokens, Factor.tokens, placeholders]

theorem appends_equalCondition (positions : Positions parseUuid order values)
    (binds : List (SqlValue φ υ)) :
    Appends startIndex binds (priorFactors parseUuid startIndex (order.zip values) binds).2
      (equalCondition parseUuid startIndex order values binds).tokens := by
  refine (appends_priorFactors parseUuid startIndex (order.zip values) binds).congr ?_
  rw [equalCondition]
  split
  next none => exact absurd none (priorFactors_ne_nil positions)
  next f fs shape => rw [shape, Condition.tokens, placeholders_conj]

/-- The placeholders of a clause number its values from the first index on. -/
theorem keysetClause_numbers (positions : Positions parseUuid order values) {side : Side}
    {inclusive : Bool} {clause : KeysetClause φ υ}
    (made : keysetClause parseUuid startIndex order values side inclusive = .ok clause) :
    clause.startIndex = startIndex ∧
      placeholders clause.condition.tokens = List.range' startIndex clause.values.length := by
  have strict : Appends startIndex [] _ (strictCondition parseUuid startIndex order values side).tokens :=
    appends_strictCondition positions side
  rw [keysetClause, if_neg (positions_iff.mp positions)] at made
  cases inclusive with
  | false =>
    obtain rfl := Except.ok.inj made
    exact ⟨rfl, strict.numbers⟩
  | true =>
    obtain rfl := Except.ok.inj made
    have whole := strict.trans (appends_equalCondition positions
      (keysetCondition parseUuid startIndex side order values).2)
    refine ⟨rfl, (whole.congr ?_).numbers⟩
    simp [Condition.tokens, Term.tokens, Factor.tokens, placeholders]

private theorem text_inclusive (strict equal : String) :
    "(" ++ strict ++ ") OR (" ++ equal ++ ")" =
      "(" ++ strict ++ ")" ++ " OR " ++ ("(" ++ equal ++ ")") := by
  rw [← String.toList_inj]
  simp

/-- The clause is spelled as the source renders it, and refused where it refuses. -/
theorem keysetBoundText_eq (backend : DatabaseBackend) (side : Side) (inclusive : Bool) :
    keysetBoundText backend parseUuid startIndex order values side inclusive =
      (keysetClause parseUuid startIndex order values side inclusive).map fun clause =>
        (clause.condition.text (keysetSpelling backend), clause.values) := by
  by_cases positions : Positions parseUuid order values
  · have pairs : ∀ p ∈ order.zip values, Bindable parseUuid p.2 := fun p mem =>
      positions.bindable p.2 (List.of_mem_zip mem).2
    have equal := priorTerms_eq backend startIndex pairs
      (keysetCondition parseUuid startIndex side order values).2
    rw [keysetClause, if_neg (positions_iff.mp positions)]
    cases inclusive with
    | false =>
      simp [keysetBoundText, renderKeysetSide_eq backend positions, bind, Except.bind, pure,
        Except.pure, Except.map]
    | true =>
      simp [keysetBoundText, renderKeysetSide_eq backend positions, equal,
        text_equalCondition backend positions, bind, Except.bind, pure, Except.pure, Except.map,
        Except.mapError]
      exact text_inclusive _ _
  · have bad : order.length ≠ values.length ∨ order = [] ∨
        ∃ value ∈ values, ¬Bindable parseUuid value := by
      simpa [isBindable_iff] using not_not.mp (mt positions_iff.mpr positions)
    rw [keysetClause_error positions]
    cases side
    · simp [keysetBoundText, renderKeysetSide, renderKeysetAfter,
        renderKeyset_error backend .after bad, bind, Except.bind, Except.map]
    · simp [keysetBoundText, renderKeysetSide, renderKeysetBefore,
        renderKeyset_error backend .before bad, bind, Except.bind, Except.map]

end Clause

end Bounds

/-! ### Keys -/

section Keys

variable {δ : Type} [LinearOrder δ] {nullsLow : Bool}

/-- The tuple of a row or of a position, one value for each column of the order. -/
def Key (order : List KeysetOrderColumn) (δ : Type) : Type :=
  { tuple : List (Option δ) // tuple.length = order.length }

instance (order : List KeysetOrderColumn) : DecidableEq (Key order δ) :=
  inferInstanceAs (DecidableEq { tuple : List (Option δ) // tuple.length = order.length })

def compareKey (nullsLow : Bool) (order : List KeysetOrderColumn) (x y : Key order δ) : Ordering :=
  compareTuple nullsLow order x.1 y.1

theorem compareColumn_swap (order : KeysetOrderColumn) (x y : Option δ) :
    compareColumn nullsLow order y x = (compareColumn nullsLow order x y).swap := by
  have beyond (u v : Option δ) :
      compareColumn nullsLow order u v = .gt ↔ Side.Beyond .after order u v :=
    compareColumn_beyond .after
  have below (u v : Option δ) :
      compareColumn nullsLow order u v = .lt ↔ Side.Beyond .before order u v :=
    compareColumn_beyond .before
  have opposite (u v : Option δ) :
      Side.Beyond .after order u v ↔ Side.Beyond .before order v u := by
    obtain ⟨column, direction, nulls⟩ := order
    cases u <;> cases v <;> cases direction <;> cases nulls <;>
      simp [Side.Beyond, Side.nullsBeyond, Side.operator, Comparison.holds]
  cases compared : compareColumn nullsLow order x y with
  | lt => exact (beyond y x).mpr ((opposite y x).mpr ((below x y).mp compared))
  | eq => exact compareColumn_eq_iff.mpr (compareColumn_eq_iff.mp compared).symm
  | gt => exact (below y x).mpr ((opposite x y).mp ((beyond x y).mp compared))

theorem compareColumn_lt_trans (order : KeysetOrderColumn) {x y z : Option δ}
    (first : compareColumn nullsLow order x y = .lt)
    (second : compareColumn nullsLow order y z = .lt) : compareColumn nullsLow order x z = .lt := by
  have below (u v : Option δ) :
      compareColumn nullsLow order u v = .lt ↔ Side.Beyond .before order u v :=
    compareColumn_beyond .before
  rw [below] at first second ⊢
  obtain ⟨column, direction, nulls⟩ := order
  cases x <;> cases y <;> cases z <;> cases direction <;> cases nulls <;>
    simp [Side.Beyond, Side.nullsBeyond, Side.operator, Comparison.holds] at first second ⊢
  · exact first.trans second
  · exact first.trans second
  · exact second.trans first
  · exact second.trans first

theorem compareTuple_swap (order : List KeysetOrderColumn) (xs ys : List (Option δ)) :
    compareTuple nullsLow order ys xs = (compareTuple nullsLow order xs ys).swap := by
  induction order generalizing xs ys with
  | nil => rfl
  | cons column order ih =>
    cases xs with
    | nil => cases ys <;> rfl
    | cons x xs =>
      cases ys with
      | nil => rfl
      | cons y ys =>
        rw [compareTuple, compareTuple, compareColumn_swap column x y, ih xs ys, Ordering.swap_then]

theorem compareTuple_eq_iff {order : List KeysetOrderColumn} {xs ys : List (Option δ)}
    (left : xs.length = order.length) (right : ys.length = order.length) :
    compareTuple nullsLow order xs ys = .eq ↔ xs = ys := by
  induction order generalizing xs ys with
  | nil =>
    rw [List.length_eq_zero_iff.mp left, List.length_eq_zero_iff.mp right]
    simp [compareTuple]
  | cons column order ih =>
    obtain ⟨x, xs, rfl⟩ := List.exists_cons_of_length_eq_add_one left
    obtain ⟨y, ys, rfl⟩ := List.exists_cons_of_length_eq_add_one right
    rw [compareTuple, Ordering.then_eq_eq, compareColumn_eq_iff,
      ih (by simpa using left) (by simpa using right), List.cons.injEq]

theorem compareTuple_lt_trans {order : List KeysetOrderColumn} {xs ys zs : List (Option δ)}
    (first : compareTuple nullsLow order xs ys = .lt)
    (second : compareTuple nullsLow order ys zs = .lt) :
    compareTuple nullsLow order xs zs = .lt := by
  induction order generalizing xs ys zs with
  | nil => cases first
  | cons column order ih =>
    cases xs with
    | nil => cases first
    | cons x xs =>
      cases ys with
      | nil => cases first
      | cons y ys =>
        cases zs with
        | nil => cases second
        | cons z zs =>
          rw [compareTuple, Ordering.then_eq_lt] at first second ⊢
          simp only [compareColumn_eq_iff] at first second ⊢
          rcases first with here | ⟨rfl, later⟩
          · rcases second with there | ⟨rfl, _⟩
            · exact .inl (compareColumn_lt_trans column here there)
            · exact .inl here
          · rcases second with there | ⟨rfl, further⟩
            · exact .inl there
            · exact .inr ⟨rfl, ih later further⟩

theorem compareTuple_reversed (order : List KeysetOrderColumn) (xs ys : List (Option δ)) :
    compareTuple nullsLow (order.map KeysetOrderColumn.reversed) xs ys =
      compareTuple nullsLow order ys xs := by
  have column (part : KeysetOrderColumn) (x y : Option δ) :
      compareColumn nullsLow part.reversed x y = compareColumn nullsLow part y x := by
    have after : compareColumn nullsLow part.reversed x y = .gt ↔
        compareColumn nullsLow part y x = .gt := by
      rw [show Ordering.gt = Side.after.ordering from rfl, compareColumn_beyond,
        compareColumn_beyond]
      obtain ⟨name, direction, nulls⟩ := part
      cases x <;> cases y <;> cases direction <;> cases nulls <;>
        simp [Side.Beyond, Side.nullsBeyond, Side.operator, Comparison.holds,
          KeysetOrderColumn.reversed]
    have same : compareColumn nullsLow part.reversed x y = .eq ↔
        compareColumn nullsLow part y x = .eq := by
      rw [compareColumn_eq_iff, compareColumn_eq_iff, eq_comm]
    cases left : compareColumn nullsLow part.reversed x y <;>
      cases right : compareColumn nullsLow part y x <;> simp_all
  induction order generalizing xs ys with
  | nil => rfl
  | cons part order ih =>
    cases xs with
    | nil => cases ys <;> rfl
    | cons x xs =>
      cases ys with
      | nil => rfl
      | cons y ys => rw [List.map_cons, compareTuple, compareTuple, column, ih]

instance (order : List KeysetOrderColumn) : Std.OrientedCmp (compareKey (δ := δ) nullsLow order) :=
  ⟨fun {x y} => compareTuple_swap order y.1 x.1⟩

instance (order : List KeysetOrderColumn) : Std.LawfulEqCmp (compareKey (δ := δ) nullsLow order) where
  compare_self {x} := (compareTuple_eq_iff x.2 x.2).mpr rfl
  eq_of_compare {x y} same := Subtype.ext ((compareTuple_eq_iff x.2 y.2).mp same)

instance (order : List KeysetOrderColumn) : Std.TransCmp (compareKey (δ := δ) nullsLow order) :=
  transCmp_of_lt (fun _ _ => Std.LawfulEqCmp.eq_of_compare) fun _ _ _ => compareTuple_lt_trans

end Keys

/-! ### The rows of a bound -/

section Meaning

variable {δ : Type} [LinearOrder δ] {φ υ : Type} {parseUuid : String → Option υ} {startIndex : Nat}
  {order : List KeysetOrderColumn} {values : List (KeysetValue φ)}

def KeysetClause.eval (interpret : String → SqlValue φ υ → δ) (row : String → Option δ)
    (clause : KeysetClause φ υ) : Truth :=
  clause.condition.eval (keysetMeaning interpret clause.startIndex clause.values) row

theorem eval_strictCondition (positions : Positions parseUuid order values) (side : Side)
    (nullsLow : Bool) (interpret : String → SqlValue φ υ → δ) (row : String → Option δ)
    {binds : List (SqlValue φ υ)}
    (later : (keysetCondition parseUuid startIndex side order values).2 <+: binds) :
    (strictCondition parseUuid startIndex order values side).eval
        (keysetMeaning interpret startIndex binds) row = .holds ↔
      compareTuple nullsLow order (rowTuple order row)
        (cursorTuple parseUuid interpret order values) = side.ordering := by
  have meaning := eval_keysetCondition side positions.filled positions.same nullsLow interpret row
    later
  cases side with
  | after => exact meaning
  | before =>
    rw [strictCondition, Condition.eval, Term.eval, Factor.eval]
    exact meaning

omit [LinearOrder δ] in
theorem agrees_zip (positions : Positions parseUuid order values)
    (interpret : String → SqlValue φ υ → δ) (row : String → Option δ) :
    Agrees parseUuid interpret row (order.zip values) ↔
      rowTuple order row = cursorTuple parseUuid interpret order values := by
  have same := positions.same
  clear positions
  induction order generalizing values with
  | nil => simp [Agrees, rowTuple, cursorTuple]
  | cons column order ih =>
    obtain ⟨value, values, rfl⟩ := List.exists_cons_of_length_eq_add_one same.symm
    have rest := @ih values (by simpa using same)
    simp only [Agrees, rowTuple, cursorTuple] at rest
    simp only [Agrees, List.zip_cons_cons, List.mem_cons, forall_eq_or_imp, rowTuple, cursorTuple,
      List.map_cons, List.zipWith_cons_cons, List.cons.injEq, rest]

variable (startIndex) in
theorem eval_equalCondition (positions : Positions parseUuid order values)
    (interpret : String → SqlValue φ υ → δ) (row : String → Option δ)
    (binds : List (SqlValue φ υ)) :
    (equalCondition parseUuid startIndex order values binds).eval (keysetMeaning interpret startIndex
        (priorFactors parseUuid startIndex (order.zip values) binds).2) row = .holds ↔
      rowTuple order row = cursorTuple parseUuid interpret order values := by
  have meaning := eval_priorFactors (order.zip values) binds interpret row (List.prefix_refl
    (priorFactors parseUuid startIndex (order.zip values) binds).2)
  rw [agrees_zip positions] at meaning
  rw [← meaning, equalCondition]
  split
  next none => exact absurd none (priorFactors_ne_nil positions)
  next f fs shape => rw [shape, Condition.eval, Term.eval_conj]

variable (startIndex) in
/-- A bound selects the rows on its side and, if inclusive, those at its position. -/
theorem keysetClause_spec (positions : Positions parseUuid order values) (side : Side)
    (inclusive : Bool) :
    ∃ clause, keysetClause parseUuid startIndex order values side inclusive = .ok clause ∧
      ∀ (nullsLow : Bool) (interpret : String → SqlValue φ υ → δ) (row : String → Option δ),
        clause.eval interpret row = .holds ↔
          compareTuple nullsLow order (rowTuple order row)
              (cursorTuple parseUuid interpret order values) = side.ordering ∨
            inclusive = true ∧ rowTuple order row = cursorTuple parseUuid interpret order values := by
  rw [keysetClause, if_neg (positions_iff.mp positions)]
  cases inclusive with
  | false =>
    refine ⟨_, rfl, fun nullsLow interpret row => ?_⟩
    simpa [KeysetClause.eval] using
      eval_strictCondition positions side nullsLow interpret row (List.prefix_refl _)
  | true =>
    refine ⟨_, rfl, fun nullsLow interpret row => ?_⟩
    have later := (appends_priorFactors parseUuid startIndex (order.zip values)
      (keysetCondition parseUuid startIndex side order values).2).isPrefix
    have strict := eval_strictCondition positions side nullsLow interpret row later
    have equal := eval_equalCondition startIndex positions interpret row
      (keysetCondition parseUuid startIndex side order values).2
    simp only [KeysetClause.eval, Condition.eval, Term.eval, Factor.eval, Truth.or_eq_holds, strict,
      equal, true_and]

variable (startIndex) in
/-- The text of a bound is read as a condition of the rows on its side and, if inclusive, of those
at its position, with its placeholders numbered from the first index on in the order of the values. It
is refused for a position that does not fit the order. -/
theorem keysetBoundText_selects (backend : DatabaseBackend) (parseUuid : String → Option υ)
    (order : List KeysetOrderColumn) (values : List (KeysetValue φ)) (side : Side)
    (inclusive : Bool) :
    Positions parseUuid order values ∧
        (∃ clause : KeysetClause φ υ,
          keysetBoundText backend parseUuid startIndex order values side inclusive =
            .ok (clause.condition.text (keysetSpelling backend), clause.values) ∧
          clause.startIndex = startIndex ∧
          placeholders clause.condition.tokens = List.range' startIndex clause.values.length ∧
          ∀ (nullsLow : Bool) (interpret : String → SqlValue φ υ → δ) (row : String → Option δ),
            clause.eval interpret row = .holds ↔
              compareTuple nullsLow order (rowTuple order row)
                  (cursorTuple parseUuid interpret order values) = side.ordering ∨
                inclusive = true ∧
                  rowTuple order row = cursorTuple parseUuid interpret order values) ∨
      ¬ Positions parseUuid order values ∧
        keysetBoundText backend parseUuid startIndex order values side inclusive =
          .error .cursorInvalid := by
  rw [keysetBoundText_eq]
  by_cases positions : Positions parseUuid order values
  · obtain ⟨clause, made, meaning⟩ :=
      @keysetClause_spec δ _ φ υ parseUuid startIndex order values positions side inclusive
    obtain ⟨first, numbers⟩ := keysetClause_numbers positions made
    rw [made]
    exact .inl ⟨positions, clause, rfl, first, numbers, meaning⟩
  · rw [keysetClause_error positions]
    exact .inr ⟨positions, rfl⟩

end Meaning

end GraphqlOrm.Query
