import GraphqlOrm.Query.Keyset

/-!
# The keyset predicate is the order

The order that the generated `ORDER BY` sorts by, on tuples of nullable values of any
linearly ordered domain, and the meaning of the rendered predicates on a row.
-/
namespace GraphqlOrm.Query

open Schema Sql

/-! ### The order of the sort keys -/

/-- An expression of an `ORDER BY` clause. -/
inductive SortKey where
  /-- A number for null and a number for everything else, ascending. -/
  | rank (whenNull otherwise : Nat)
  | value (direction : KeysetDirection)

def SortKey.sql (column : String) : SortKey → String
  | .rank whenNull otherwise =>
    "CASE WHEN " ++ column ++ " IS NULL THEN " ++ whenNull.repr ++ " ELSE " ++ otherwise.repr ++
      " END ASC"
  | .value direction => column ++ " " ++ direction.asStr

def KeysetOrderColumn.sortKeys (order : KeysetOrderColumn) : List SortKey :=
  [.rank order.nullRank (1 - order.nullRank), .value order.direction]

theorem KeysetOrderColumn.orderSql_eq (order : KeysetOrderColumn) :
    order.orderSql = Text.join ", " (order.sortKeys.map (SortKey.sql order.column)) := by
  have separated (rest : String) : " END ASC, " ++ rest = " END ASC" ++ (", " ++ rest) := by
    rw [← String.append_assoc]
    rfl
  change "CASE WHEN " ++ order.column ++ " IS NULL THEN " ++ order.nullRank.repr ++ " ELSE " ++
    (1 - order.nullRank).repr ++ " END ASC, " ++ order.column ++ " " ++ order.direction.asStr =
      ("CASE WHEN " ++ order.column ++ " IS NULL THEN " ++ order.nullRank.repr ++ " ELSE " ++
        (1 - order.nullRank).repr ++ " END ASC") ++ ", " ++
          (order.column ++ " " ++ order.direction.asStr)
  simp only [separated, String.append_assoc]

variable {δ : Type} [LinearOrder δ]

/-- How a database compares two values of a column by one sort key. Where it puts nulls
by itself is not fixed. -/
def SortKey.compare (nullsLow : Bool) : SortKey → Option δ → Option δ → Ordering
  | .rank whenNull otherwise, x, y =>
    cmp (if x.isNone then whenNull else otherwise) (if y.isNone then whenNull else otherwise)
  | .value .asc, some x, some y => cmp x y
  | .value .desc, some x, some y => cmp y x
  | .value _, none, none => .eq
  | .value _, none, some _ => if nullsLow then .lt else .gt
  | .value _, some _, none => if nullsLow then .gt else .lt

def compareColumn (nullsLow : Bool) (order : KeysetOrderColumn) (x y : Option δ) : Ordering :=
  (order.sortKeys.map fun key => key.compare nullsLow x y).foldr Ordering.then .eq

def compareTuple (nullsLow : Bool) :
    List KeysetOrderColumn → List (Option δ) → List (Option δ) → Ordering
  | order :: rest, x :: xs, y :: ys =>
    (compareColumn nullsLow order x y).then (compareTuple nullsLow rest xs ys)
  | _, _, _ => .eq

def Side.ordering : Side → Ordering
  | .after => .gt
  | .before => .lt

def Comparison.holds : Comparison → δ → δ → Bool
  | .eq, x, y => x = y
  | .lt, x, y => x < y
  | .gt, x, y => y < x

def Side.Beyond (side : Side) (order : KeysetOrderColumn) (x y : Option δ) : Prop :=
  match y, x with
  | none, x => side.nullsBeyond order.nulls = false ∧ x.isSome
  | some _, none => side.nullsBeyond order.nulls = true
  | some v, some u => (side.operator order.direction).holds u v

section Order

variable {nullsLow : Bool} {order : KeysetOrderColumn} {x y : Option δ}

/-- Nulls and values have a rank each. -/
private theorem rank_compare (whenNull otherwise : Nat) (same : x.isNone = y.isNone) :
    (SortKey.rank whenNull otherwise).compare nullsLow x y = .eq := by
  rw [SortKey.compare, same]
  exact cmp_self_eq_eq _

private theorem compareColumn_null_null : compareColumn (δ := δ) nullsLow order none none = .eq := by
  simp only [compareColumn, KeysetOrderColumn.sortKeys, List.map_cons, List.map_nil,
    List.foldr_cons, List.foldr_nil, rank_compare _ _ rfl]
  cases order.direction <;> rfl

private theorem compareColumn_null_value (v : δ) :
    compareColumn nullsLow order none (some v) = if order.nulls = .first then .lt else .gt := by
  obtain ⟨column, direction, nulls⟩ := order
  cases nulls <;> rfl

private theorem compareColumn_value_null (u : δ) :
    compareColumn nullsLow order (some u) none = if order.nulls = .first then .gt else .lt := by
  obtain ⟨column, direction, nulls⟩ := order
  cases nulls <;> rfl

private theorem compareColumn_value_value (u v : δ) :
    compareColumn nullsLow order (some u) (some v) =
      if order.direction = .asc then cmp u v else cmp v u := by
  have ranks (whenNull otherwise : Nat) :
      (SortKey.rank whenNull otherwise).compare nullsLow (some u) (some v) = .eq :=
    rank_compare _ _ rfl
  -- both have the rank of a value, so the second sort key decides
  have ranked (o : Ordering) :
      ((SortKey.rank order.nullRank (1 - order.nullRank)).compare nullsLow
        (some u) (some v)).then (o.then .eq) = o := by
    rw [ranks, Ordering.then_eq]
    exact Ordering.eq_then
  obtain ⟨column, direction, nulls⟩ := order
  cases direction
  · exact ranked (cmp u v)
  · exact ranked (cmp v u)

theorem compareColumn_eq_iff : compareColumn nullsLow order x y = .eq ↔ x = y := by
  obtain ⟨column, direction, nulls⟩ := order
  cases x with
  | none =>
    cases y with
    | none => simp [compareColumn_null_null]
    | some v => cases nulls <;> simp [compareColumn_null_value]
  | some u =>
    cases y with
    | none => cases nulls <;> simp [compareColumn_value_null]
    | some v =>
      rw [compareColumn_value_value, Option.some.injEq]
      cases direction with
      | asc => exact cmp_eq_eq_iff u v
      | desc => exact (cmp_eq_eq_iff v u).trans eq_comm

/-- The comparison by null rank and value is the one the predicates make. -/
theorem compareColumn_beyond (side : Side) :
    compareColumn nullsLow order x y = side.ordering ↔ side.Beyond order x y := by
  obtain ⟨column, direction, nulls⟩ := order
  cases x with
  | none =>
    cases y with
    | none => cases side <;> simp [compareColumn_null_null, Side.ordering, Side.Beyond]
    | some v =>
      cases side <;> cases nulls <;>
        simp [compareColumn_null_value, Side.ordering, Side.Beyond, Side.nullsBeyond]
  | some u =>
    cases y with
    | none =>
      cases side <;> cases nulls <;>
        simp [compareColumn_value_null, Side.ordering, Side.Beyond, Side.nullsBeyond]
    | some v =>
      rw [compareColumn_value_value]
      cases side with
      | after =>
        cases direction with
        | asc => exact (cmp_eq_gt_iff u v).trans decide_eq_true_iff.symm
        | desc => exact (cmp_eq_gt_iff v u).trans decide_eq_true_iff.symm
      | before =>
        cases direction with
        | asc => exact (cmp_eq_lt_iff u v).trans decide_eq_true_iff.symm
        | desc => exact (cmp_eq_lt_iff v u).trans decide_eq_true_iff.symm

theorem then_eq_ordering {o p : Ordering} (side : Side) :
    o.then p = side.ordering ↔ o = side.ordering ∨ o = .eq ∧ p = side.ordering := by
  cases side
  · exact Ordering.then_eq_gt
  · exact Ordering.then_eq_lt

end Order

/-! ### The meaning of a predicate -/

/-- The elementary conditions of a keyset predicate; a comparison names its parameter. -/
inductive Atom where
  | isNull (column : String)
  | isNotNull (column : String)
  | compare (column : String) (operator : Comparison) (index : Nat)
  | never

def Atom.text (backend : DatabaseBackend) : Atom → String
  | .isNull column => column ++ " IS NULL"
  | .isNotNull column => column ++ " IS NOT NULL"
  | .compare column operator index =>
    column ++ " " ++ operator.asStr ++ " " ++ backend.placeholder index
  | .never => "1 = 0"

def keysetSpelling (backend : DatabaseBackend) : Spelling Atom Empty Empty where
  atom := Atom.text backend
  clause := Empty.elim
  source := Empty.elim

def Atom.eval {φ υ : Type} (interpret : String → SqlValue φ υ → δ) (startIndex : Nat)
    (binds : List (SqlValue φ υ)) (row : String → Option δ) : Atom → Truth
  | .isNull column => Truth.ofBool (row column).isNone
  | .isNotNull column => Truth.ofBool (row column).isSome
  | .compare column operator index =>
    Truth.lift operator.holds (row column)
      ((binds[index - startIndex]?).map (interpret column))
  | .never => .fails

def keysetMeaning {φ υ : Type} (interpret : String → SqlValue φ υ → δ) (startIndex : Nat)
    (binds : List (SqlValue φ υ)) : Meaning Atom Empty Empty (String → Option δ) where
  atom := Atom.eval interpret startIndex binds
  clause _ := Empty.elim
  rows _ := Empty.elim

@[simp] theorem eval_atom {φ υ : Type} (interpret : String → SqlValue φ υ → δ) (startIndex : Nat)
    (binds : List (SqlValue φ υ)) (row : String → Option δ) (atom : Atom) :
    (Factor.atom atom).eval (keysetMeaning interpret startIndex binds) row =
      atom.eval interpret startIndex binds row := by
  rw [Factor.eval, keysetMeaning]

def placeholders (tokens : List (Token Atom Empty Empty)) : List Nat :=
  tokens.filterMap fun
    | .atom (.compare _ _ index) => some index
    | _ => none

theorem placeholders_append (left right : List (Token Atom Empty Empty)) :
    placeholders (left ++ right) = placeholders left ++ placeholders right :=
  List.filterMap_append

/-! ### What is rendered -/

section Rendered

variable {φ υ : Type} {backend : DatabaseBackend} {parseUuid : String → Option υ} {startIndex : Nat}

def Bindable (parseUuid : String → Option υ) (value : KeysetValue φ) : Prop :=
  value = .null ∨ (keysetSqlValue parseUuid value).isSome

def cursorValue (parseUuid : String → Option υ) (interpret : String → SqlValue φ υ → δ)
    (column : String) (value : KeysetValue φ) : Option δ :=
  (keysetSqlValue parseUuid value).map (interpret column)

/-- The values appended by a rendering step are those of its placeholders. -/
def Appends (startIndex : Nat) (values values' : List (SqlValue φ υ))
    (tokens : List (Token Atom Empty Empty)) : Prop :=
  ∃ added, values' = values ++ added ∧
    placeholders tokens = List.range' (startIndex + values.length) added.length

variable {values : List (SqlValue φ υ)}

theorem Appends.nil {tokens : List (Token Atom Empty Empty)} (none : placeholders tokens = []) :
    Appends startIndex values values tokens :=
  ⟨[], by simp, by simp [none]⟩

variable {values' : List (SqlValue φ υ)}

theorem Appends.trans {values'' : List (SqlValue φ υ)} {left right : List (Token Atom Empty Empty)}
    (first : Appends startIndex values values' left)
    (second : Appends startIndex values' values'' right) :
    Appends startIndex values values'' (left ++ right) := by
  obtain ⟨added, rfl, here⟩ := first
  obtain ⟨more, rfl, there⟩ := second
  refine ⟨added ++ more, by rw [List.append_assoc], ?_⟩
  rw [placeholders_append, here, there, List.length_append, List.length_append, ← Nat.add_assoc,
    List.range'_append_1]

theorem Appends.isPrefix {tokens : List (Token Atom Empty Empty)}
    (appends : Appends startIndex values values' tokens) :
    values <+: values' := by
  obtain ⟨added, rfl, _⟩ := appends
  exact List.prefix_append values added

variable {binds : List (SqlValue φ υ)}

/-- A comparison with the value just appended. -/
theorem compare_eval {interpret : String → SqlValue φ υ → δ} {bind : SqlValue φ υ}
    (later : values ++ [bind] <+: binds) (row : String → Option δ) (column : String)
    (operator : Comparison) :
    (Atom.compare column operator (startIndex + values.length)).eval interpret startIndex binds row =
      Truth.lift operator.holds (row column) (some (interpret column bind)) := by
  obtain ⟨rest, rfl⟩ := later
  simp [Atom.eval]

theorem appends_compare (bind : SqlValue φ υ) (column : String) (operator : Comparison) :
    Appends startIndex values (values ++ [bind])
      [.atom (.compare column operator (startIndex + values.length))] :=
  ⟨[bind], rfl, by simp [placeholders]⟩

private theorem text_compare_eq (column placeholder : String) :
    column ++ " " ++ "=" ++ " " ++ placeholder = column ++ " = " ++ placeholder := by
  rw [← String.toList_inj]
  simp

/-! ### The predicate as a syntax tree -/

section Tree

variable (parseUuid startIndex)

def priorFactors : List (KeysetOrderColumn × KeysetValue φ) → List (SqlValue φ υ) →
    List (Factor Atom Empty Empty) × List (SqlValue φ υ)
  | [], values => ([], values)
  | (column, value) :: rest, values =>
    match keysetSqlValue parseUuid value with
    | none =>
      let (fs, values') := priorFactors rest values
      (.atom (.isNull column.column) :: fs, values')
    | some sql =>
      let (fs, values') := priorFactors rest (values ++ [sql])
      (.atom (.compare column.column .eq (startIndex + values.length)) :: fs, values')

def comparisonFactor (side : Side) (column : KeysetOrderColumn) (value : KeysetValue φ)
    (values : List (SqlValue φ υ)) : Factor Atom Empty Empty × List (SqlValue φ υ) :=
  match keysetSqlValue parseUuid value with
  | none =>
    (if side.nullsBeyond column.nulls then .atom .never else .atom (.isNotNull column.column), values)
  | some sql =>
    let scalar := .atom (.compare column.column (side.operator column.direction)
      (startIndex + values.length))
    (if side.nullsBeyond column.nulls then
      .group (.or (.one (.atom (.isNull column.column))) (.one (.one scalar)))
    else .group (.one (.and (.atom (.isNotNull column.column)) (.one scalar))), values ++ [sql])

/-- A branch: the row agrees with the cursor before a column and lies beyond it there. -/
def branch (fs : List (Factor Atom Empty Empty)) (last : Factor Atom Empty Empty) :
    Term Atom Empty Empty :=
  .one (.group (.one (.chain fs last)))

def branchTerms (side : Side) (prior : List (KeysetOrderColumn × KeysetValue φ)) :
    List (KeysetOrderColumn × KeysetValue φ) → List (SqlValue φ υ) →
      List (Term Atom Empty Empty) × List (SqlValue φ υ)
  | [], values => ([], values)
  | (column, value) :: rest, values =>
    let (fs, values) := priorFactors parseUuid startIndex prior values
    let (last, values) := comparisonFactor parseUuid startIndex side column value values
    let (ts, values) := branchTerms side (prior ++ [(column, value)]) rest values
    (branch fs last :: ts, values)

def keysetCondition (side : Side) (columns : List KeysetOrderColumn)
    (cursor : List (KeysetValue φ)) : Condition Atom Empty Empty × List (SqlValue φ υ) :=
  match branchTerms parseUuid startIndex side [] (columns.zip cursor) [] with
  | (t :: ts, values) => (.chain t ts, values)
  | ([], values) => (.one (.one (.atom .never)), values)

end Tree

def Agrees (parseUuid : String → Option υ) (interpret : String → SqlValue φ υ → δ)
    (row : String → Option δ) (pairs : List (KeysetOrderColumn × KeysetValue φ)) : Prop :=
  ∀ p ∈ pairs, row p.1.column = cursorValue parseUuid interpret p.1.column p.2

theorem Bindable.cases {value : KeysetValue φ} (bindable : Bindable parseUuid value) :
    value = .null ∨ value ≠ .null ∧ ∃ sql, keysetSqlValue parseUuid value = some sql := by
  by_cases null : value = .null
  · exact .inl null
  · exact .inr ⟨null, Option.isSome_iff_exists.mp (bindable.resolve_left null)⟩

/-! ### The text is the text of the tree -/

attribute [local simp] priorTerms

variable (backend startIndex) in
theorem priorTerms_eq {pairs : List (KeysetOrderColumn × KeysetValue φ)}
    (bindable : ∀ p ∈ pairs, Bindable parseUuid p.2) (values : List (SqlValue φ υ)) :
    priorTerms backend parseUuid startIndex pairs values =
      .ok ((priorFactors parseUuid startIndex pairs values).1.map
        (Factor.text (keysetSpelling backend)), (priorFactors parseUuid startIndex pairs values).2) := by
  induction pairs generalizing values with
  | nil => rfl
  | cons p rest ih =>
    obtain ⟨column, value⟩ := p
    have more := ih fun q mem => bindable q (.tail _ mem)
    rcases (bindable (column, value) (.head _)).cases with null | ⟨other, sql, bound⟩
    · simp only at null
      subst null
      simp [priorTerms, priorFactors, keysetSqlValue, more, bind, Except.bind, pure, Except.pure,
        keysetSpelling, Atom.text]
    · simp only at other bound
      rw [priorTerms, bound]
      · simp [priorFactors, bound, more, bind, Except.bind, pure, Except.pure, keysetSpelling,
          Atom.text, Comparison.asStr, text_compare_eq, nextPlaceholder]
      · exact other

variable (backend startIndex) in
theorem comparisonTerm_eq (side : Side) (column : KeysetOrderColumn) {value : KeysetValue φ}
    (bindable : Bindable parseUuid value) (values : List (SqlValue φ υ)) :
    comparisonTerm backend parseUuid startIndex side column value values =
      .ok ((comparisonFactor parseUuid startIndex side column value values).1.text
          (keysetSpelling backend),
        (comparisonFactor parseUuid startIndex side column value values).2) := by
  rcases bindable.cases with rfl | ⟨other, sql, bound⟩
  · by_cases beyond : side.nullsBeyond column.nulls = true <;>
      simp [comparisonTerm, comparisonFactor, keysetSqlValue, Side.nullComparison, beyond,
        keysetSpelling, Atom.text]
  · rw [comparisonTerm, bound]
    · by_cases beyond : side.nullsBeyond column.nulls = true <;>
        simp [comparisonFactor, bound, Side.valueComparison, beyond, keysetSpelling, Atom.text,
          nextPlaceholder, String.append_assoc]
    · exact other

variable (backend startIndex) in
theorem branches_eq (side : Side) {prior rest : List (KeysetOrderColumn × KeysetValue φ)}
    (bindable : ∀ p ∈ prior ++ rest, Bindable parseUuid p.2) (values : List (SqlValue φ υ)) :
    branches backend parseUuid startIndex side prior rest values =
      .ok ((branchTerms parseUuid startIndex side prior rest values).1.map
          (Term.text (keysetSpelling backend)),
        (branchTerms parseUuid startIndex side prior rest values).2) := by
  induction rest generalizing prior values with
  | nil => rfl
  | cons p rest ih =>
    obtain ⟨column, value⟩ := p
    have shifted : ∀ p ∈ (prior ++ [(column, value)]) ++ rest, Bindable parseUuid p.2 := by
      simpa using bindable
    have terms := priorTerms_eq backend startIndex
      (fun p mem => bindable p (List.mem_append_left _ mem)) values
    have compared := comparisonTerm_eq backend startIndex side column
      (bindable (column, value) (by simp)) (priorFactors parseUuid startIndex prior values).2
    simp [branches, branchTerms, terms, compared, ih shifted, bind, Except.bind, pure, Except.pure,
      branch, Term.text_chain]

/-! ### Its parameters -/

variable (parseUuid startIndex) in
theorem appends_priorFactors (pairs : List (KeysetOrderColumn × KeysetValue φ))
    (values : List (SqlValue φ υ)) :
    Appends startIndex values (priorFactors parseUuid startIndex pairs values).2
      ((priorFactors parseUuid startIndex pairs values).1.flatMap fun f => f.tokens ++ [.and]) := by
  induction pairs generalizing values with
  | nil => exact .nil rfl
  | cons p rest ih =>
    obtain ⟨column, value⟩ := p
    cases bound : keysetSqlValue parseUuid value with
    | none =>
      simp only [priorFactors, bound]
      exact ih values
    | some sql =>
      simp only [priorFactors, bound]
      exact (appends_compare sql column.column .eq).trans (ih (values ++ [sql]))

variable (parseUuid startIndex) in
theorem appends_comparisonFactor (side : Side) (column : KeysetOrderColumn) (value : KeysetValue φ)
    (values : List (SqlValue φ υ)) :
    Appends startIndex values (comparisonFactor parseUuid startIndex side column value values).2
      (comparisonFactor parseUuid startIndex side column value values).1.tokens := by
  cases bound : keysetSqlValue parseUuid value with
  | none =>
    simp only [comparisonFactor, bound]
    split
    · exact .nil rfl
    · exact .nil rfl
  | some sql =>
    simp only [comparisonFactor, bound]
    split
    · exact appends_compare sql column.column (side.operator column.direction)
    · exact appends_compare sql column.column (side.operator column.direction)

theorem placeholders_branch (fs : List (Factor Atom Empty Empty)) (last : Factor Atom Empty Empty) :
    placeholders (branch fs last).tokens =
      placeholders (fs.flatMap (fun f => f.tokens ++ [.and]) ++ last.tokens) := by
  simp [branch, Term.tokens, Factor.tokens, Condition.tokens, Term.tokens_chain, placeholders]

theorem Appends.congr {left right : List (Token Atom Empty Empty)}
    (appends : Appends startIndex values values' left)
    (same : placeholders right = placeholders left) : Appends startIndex values values' right := by
  obtain ⟨added, shape, numbers⟩ := appends
  exact ⟨added, shape, by rw [same, numbers]⟩

variable (parseUuid startIndex) in
theorem appends_branchTerms (side : Side) (prior rest : List (KeysetOrderColumn × KeysetValue φ))
    (values : List (SqlValue φ υ)) :
    Appends startIndex values (branchTerms parseUuid startIndex side prior rest values).2
      ((branchTerms parseUuid startIndex side prior rest values).1.flatMap
        fun t => t.tokens ++ [.or]) := by
  induction rest generalizing prior values with
  | nil => exact .nil rfl
  | cons p rest ih =>
    obtain ⟨column, value⟩ := p
    have whole := ((appends_priorFactors parseUuid startIndex prior values).trans
      (appends_comparisonFactor parseUuid startIndex side column value _)).trans
        (ih (prior ++ [(column, value)]) _)
    refine whole.congr ?_
    simp only [branchTerms, List.flatMap_cons, placeholders_append, placeholders_branch]
    simp [placeholders]

/-! ### Its meaning -/

theorem eval_priorFactors (pairs : List (KeysetOrderColumn × KeysetValue φ))
    (values : List (SqlValue φ υ)) (interpret : String → SqlValue φ υ → δ) (row : String → Option δ)
    (later : (priorFactors parseUuid startIndex pairs values).2 <+: binds) :
    Truth.all ((priorFactors parseUuid startIndex pairs values).1.map
        (Factor.eval (keysetMeaning interpret startIndex binds) row)) = .holds ↔
      Agrees parseUuid interpret row pairs := by
  induction pairs generalizing values with
  | nil => simp [priorFactors, Agrees]
  | cons p rest ih =>
    obtain ⟨column, value⟩ := p
    have split : Agrees parseUuid interpret row ((column, value) :: rest) ↔
        row column.column = cursorValue parseUuid interpret column.column value ∧
          Agrees parseUuid interpret row rest := by
      simp [Agrees]
    cases bound : keysetSqlValue parseUuid value with
    | none =>
      simp only [priorFactors, bound] at later ⊢
      rw [List.map_cons, Truth.all_cons, Truth.and_eq_holds, ih values later, split, eval_atom]
      simp [Atom.eval, cursorValue, bound]
    | some sql =>
      simp only [priorFactors, bound] at later ⊢
      have here : values ++ [sql] <+: binds :=
        (appends_priorFactors parseUuid startIndex rest (values ++ [sql])).isPrefix.trans later
      rw [List.map_cons, Truth.all_cons, Truth.and_eq_holds, ih (values ++ [sql]) later, split,
        eval_atom, compare_eval here]
      cases stored : row column.column <;>
        simp [Truth.lift, Comparison.holds, cursorValue, bound]

theorem eval_comparisonFactor (side : Side) (column : KeysetOrderColumn) (value : KeysetValue φ)
    (values : List (SqlValue φ υ)) (interpret : String → SqlValue φ υ → δ) (row : String → Option δ)
    (later : (comparisonFactor parseUuid startIndex side column value values).2 <+: binds) :
    (comparisonFactor parseUuid startIndex side column value values).1.eval
        (keysetMeaning interpret startIndex binds) row = .holds ↔
      side.Beyond column (row column.column)
        (cursorValue parseUuid interpret column.column value) := by
  cases bound : keysetSqlValue parseUuid value with
  | none =>
    simp only [comparisonFactor, bound]
    by_cases beyond : side.nullsBeyond column.nulls = true <;>
      simp [beyond, Atom.eval, cursorValue, bound, Side.Beyond]
  | some sql =>
    simp only [comparisonFactor, bound] at later ⊢
    by_cases beyond : side.nullsBeyond column.nulls = true
    · simp only [beyond, ↓reduceIte, Factor.eval, Condition.eval, Term.eval, keysetMeaning,
        compare_eval later]
      cases stored : row column.column <;>
        simp [Atom.eval, stored, Truth.lift, cursorValue, bound, Side.Beyond, beyond]
    · simp only [beyond, Bool.false_eq_true, ↓reduceIte, Factor.eval, Condition.eval, Term.eval,
        keysetMeaning, compare_eval later]
      cases stored : row column.column <;>
        simp [Atom.eval, stored, Truth.lift, cursorValue, bound, Side.Beyond, beyond]

def rowCompare (nullsLow : Bool) (parseUuid : String → Option υ)
    (interpret : String → SqlValue φ υ → δ) (row : String → Option δ)
    (pairs : List (KeysetOrderColumn × KeysetValue φ)) : Ordering :=
  compareTuple nullsLow (pairs.map (·.1)) (pairs.map fun p => row p.1.column)
    (pairs.map fun p => cursorValue parseUuid interpret p.1.column p.2)

theorem eval_branchTerms (side : Side) (nullsLow : Bool)
    (prior rest : List (KeysetOrderColumn × KeysetValue φ)) (values : List (SqlValue φ υ))
    (interpret : String → SqlValue φ υ → δ) (row : String → Option δ)
    (later : (branchTerms parseUuid startIndex side prior rest values).2 <+: binds) :
    Truth.any ((branchTerms parseUuid startIndex side prior rest values).1.map
        (Term.eval (keysetMeaning interpret startIndex binds) row)) = .holds ↔
      Agrees parseUuid interpret row prior ∧
        rowCompare nullsLow parseUuid interpret row rest = side.ordering := by
  induction rest generalizing prior values with
  | nil => cases side <;> simp [branchTerms, rowCompare, compareTuple, Side.ordering]
  | cons p rest ih =>
    obtain ⟨column, value⟩ := p
    simp only [branchTerms] at later ⊢
    have upToHere :=
      (appends_branchTerms parseUuid startIndex side _ rest _).isPrefix.trans later
    have upToPrior :=
      (appends_comparisonFactor parseUuid startIndex side column value _).isPrefix.trans upToHere
    have first := eval_priorFactors prior values interpret row upToPrior
    have here := eval_comparisonFactor side column value _ interpret row upToHere
    have split : rowCompare nullsLow parseUuid interpret row ((column, value) :: rest) =
          side.ordering ↔
        side.Beyond column (row column.column)
            (cursorValue parseUuid interpret column.column value) ∨
          row column.column = cursorValue parseUuid interpret column.column value ∧
            rowCompare nullsLow parseUuid interpret row rest = side.ordering := by
      simp only [rowCompare, List.map_cons, compareTuple, then_eq_ordering, compareColumn_beyond,
        compareColumn_eq_iff]
    have extended : Agrees parseUuid interpret row (prior ++ [(column, value)]) ↔
        Agrees parseUuid interpret row prior ∧
          row column.column = cursorValue parseUuid interpret column.column value := by
      simp [Agrees, or_imp, forall_and]
    rw [List.map_cons, Truth.any_cons, Truth.or_eq_holds, ih _ _ later, branch, Term.eval,
      Factor.eval, Condition.eval, Term.eval_chain, Truth.and_eq_holds, first, here, split, extended]
    constructor
    · rintro (⟨prior, here⟩ | ⟨⟨prior, same⟩, later⟩)
      · exact ⟨prior, .inl here⟩
      · exact ⟨prior, .inr ⟨same, later⟩⟩
    · rintro ⟨prior, here | ⟨same, later⟩⟩
      · exact .inl ⟨prior, here⟩
      · exact .inr ⟨⟨prior, same⟩, later⟩

theorem placeholders_chain (t : Term Atom Empty Empty) (ts : List (Term Atom Empty Empty)) :
    placeholders (Condition.chain t ts).tokens =
      placeholders ((t :: ts).flatMap fun t => t.tokens ++ [.or]) := by
  induction ts generalizing t with
  | nil => simp [Condition.chain, Condition.tokens, placeholders]
  | cons u ts ih =>
    have mark (tokens : List (Token Atom Empty Empty)) :
        placeholders (.or :: tokens) = placeholders tokens := by simp [placeholders]
    rw [Condition.chain, Condition.tokens, placeholders_append, mark, ih, List.flatMap_cons,
      placeholders_append, placeholders_append]
    simp [placeholders]

def rowTuple (columns : List KeysetOrderColumn) (row : String → Option δ) : List (Option δ) :=
  columns.map fun order => row order.column

def cursorTuple (parseUuid : String → Option υ) (interpret : String → SqlValue φ υ → δ)
    (columns : List KeysetOrderColumn) (cursor : List (KeysetValue φ)) : List (Option δ) :=
  List.zipWith (fun order value => cursorValue parseUuid interpret order.column value) columns cursor

theorem rowCompare_zip {nullsLow : Bool} {interpret : String → SqlValue φ υ → δ}
    {row : String → Option δ} {columns : List KeysetOrderColumn} {cursor : List (KeysetValue φ)}
    (same : columns.length = cursor.length) :
    rowCompare nullsLow parseUuid interpret row (columns.zip cursor) =
      compareTuple nullsLow columns (rowTuple columns row)
        (cursorTuple parseUuid interpret columns cursor) := by
  have columns_eq : (columns.zip cursor).map (·.1) = columns :=
    List.map_fst_zip (Nat.le_of_eq same)
  have row_eq : (columns.zip cursor).map (fun p => row p.1.column) = rowTuple columns row := by
    conv_rhs => rw [rowTuple, ← columns_eq]
    rw [List.map_map]
    rfl
  have cursor_eq : (columns.zip cursor).map
      (fun p => cursorValue parseUuid interpret p.1.column p.2) =
        cursorTuple parseUuid interpret columns cursor := by
    rw [cursorTuple, List.zip, List.map_zipWith]
  rw [rowCompare, columns_eq, row_eq, cursor_eq]

section Whole

variable {columns : List KeysetOrderColumn} {cursor : List (KeysetValue φ)}

variable (parseUuid startIndex) in
/-- With a column there is a branch. -/
theorem branchTerms_cons (side : Side) (filled : columns ≠ [])
    (same : columns.length = cursor.length) :
    ∃ t ts, (branchTerms parseUuid startIndex side [] (columns.zip cursor) []).1 = t :: ts := by
  cases columns with
  | nil => exact absurd rfl filled
  | cons column columns =>
    cases cursor with
    | nil => cases same
    | cons value cursor => exact ⟨_, _, rfl⟩

variable (parseUuid startIndex) in
theorem keysetCondition_chain (side : Side) (filled : columns ≠ [])
    (same : columns.length = cursor.length) :
    ∃ t ts, branchTerms parseUuid startIndex side [] (columns.zip cursor) [] =
        (t :: ts, (keysetCondition parseUuid startIndex side columns cursor).2) ∧
      (keysetCondition parseUuid startIndex side columns cursor).1 = .chain t ts := by
  obtain ⟨t, ts, shape⟩ := branchTerms_cons parseUuid startIndex side filled same
  refine ⟨t, ts, ?_, ?_⟩
  · simp only [keysetCondition]
    cases whole : branchTerms parseUuid startIndex side [] (columns.zip cursor) []
    rw [whole] at shape
    simp only at shape
    simp [shape]
  · simp only [keysetCondition]
    cases whole : branchTerms parseUuid startIndex side [] (columns.zip cursor) []
    rw [whole] at shape
    simp only at shape
    simp [shape]

variable (backend startIndex) in
theorem renderKeyset_eq (side : Side) (filled : columns ≠ [])
    (same : columns.length = cursor.length) (bindable : ∀ value ∈ cursor, Bindable parseUuid value) :
    renderKeyset backend parseUuid startIndex side columns cursor =
      .ok ((keysetCondition parseUuid startIndex side columns cursor).1.text (keysetSpelling backend),
        (keysetCondition parseUuid startIndex side columns cursor).2) := by
  have pairs : ∀ p ∈ [] ++ columns.zip cursor, Bindable parseUuid p.2 := fun p mem =>
    bindable p.2 (List.of_mem_zip (by simpa using mem)).2
  obtain ⟨t, ts, terms, chain⟩ :=
    keysetCondition_chain parseUuid startIndex side filled same
  rw [renderKeyset, if_neg (by simp [same, filled]), branches_eq backend startIndex side pairs [],
    terms, chain, Condition.text_chain]
  rfl

/-- The parameters are numbered from the start index on, one for each value. -/
theorem placeholders_keysetCondition (side : Side) (filled : columns ≠ [])
    (same : columns.length = cursor.length) :
    placeholders (keysetCondition parseUuid startIndex side columns cursor).1.tokens =
      List.range' startIndex (keysetCondition parseUuid startIndex side columns cursor).2.length := by
  obtain ⟨t, ts, terms, chain⟩ :=
    keysetCondition_chain parseUuid startIndex side filled same
  obtain ⟨added, shape, numbers⟩ := appends_branchTerms parseUuid startIndex side []
    (columns.zip cursor) []
  rw [terms] at shape numbers
  rw [List.nil_append] at shape
  simp only at shape numbers
  rw [chain, placeholders_chain, numbers, shape]
  rfl

/-- The predicate holds of the rows on its side of the cursor, also where its values are
followed by others. -/
theorem eval_keysetCondition (side : Side) (filled : columns ≠ [])
    (same : columns.length = cursor.length) (nullsLow : Bool)
    (interpret : String → SqlValue φ υ → δ) (row : String → Option δ)
    (later : (keysetCondition parseUuid startIndex side columns cursor).2 <+: binds) :
    (keysetCondition parseUuid startIndex side columns cursor).1.eval
        (keysetMeaning interpret startIndex binds) row = .holds ↔
      compareTuple nullsLow columns (rowTuple columns row)
        (cursorTuple parseUuid interpret columns cursor) = side.ordering := by
  obtain ⟨t, ts, terms, chain⟩ :=
    keysetCondition_chain parseUuid startIndex side filled same
  have bound : (branchTerms parseUuid startIndex side [] (columns.zip cursor) []).2 <+: binds := by
    rw [terms]
    exact later
  have meaning := eval_branchTerms side nullsLow [] (columns.zip cursor) [] interpret row bound
  rw [terms] at meaning
  rw [chain, Condition.eval_chain, meaning, rowCompare_zip same]
  simp [Agrees]

end Whole

/-! ### Before is after in the reversed order -/

variable (backend parseUuid startIndex) in
theorem priorTerms_reversed (pairs : List (KeysetOrderColumn × KeysetValue φ))
    (values : List (SqlValue φ υ)) :
    priorTerms backend parseUuid startIndex (pairs.map fun p => (p.1.reversed, p.2)) values =
      priorTerms backend parseUuid startIndex pairs values := by
  induction pairs generalizing values with
  | nil => rfl
  | cons p rest ih =>
    obtain ⟨column, value⟩ := p
    cases value <;> simp [priorTerms, ih]

variable (backend parseUuid startIndex) in
theorem comparisonTerm_reversed (column : KeysetOrderColumn) (value : KeysetValue φ)
    (values : List (SqlValue φ υ)) :
    comparisonTerm backend parseUuid startIndex .after column.reversed value values =
      comparisonTerm backend parseUuid startIndex .before column value values := by
  obtain ⟨name, direction, nulls⟩ := column
  have operator : Side.operator .after (KeysetOrderColumn.reversed ⟨name, direction, nulls⟩).direction =
      Side.operator .before direction := by
    cases direction <;> rfl
  have beyond : Side.nullsBeyond .after (KeysetOrderColumn.reversed ⟨name, direction, nulls⟩).nulls =
      Side.nullsBeyond .before nulls := by
    cases nulls <;> rfl
  have same : (KeysetOrderColumn.reversed ⟨name, direction, nulls⟩).column = name := rfl
  cases value <;>
    simp only [comparisonTerm, Side.nullComparison, Side.valueComparison, operator, beyond, same]

variable (backend parseUuid startIndex) in
theorem branches_reversed (prior rest : List (KeysetOrderColumn × KeysetValue φ))
    (values : List (SqlValue φ υ)) :
    branches backend parseUuid startIndex .after (prior.map fun p => (p.1.reversed, p.2))
        (rest.map fun p => (p.1.reversed, p.2)) values =
      branches backend parseUuid startIndex .before prior rest values := by
  induction rest generalizing prior values with
  | nil => rfl
  | cons p rest ih =>
    obtain ⟨column, value⟩ := p
    have next := ih (prior ++ [(column, value)])
    rw [List.map_append] at next
    simp only [List.map_cons, List.map_nil] at next
    simp only [List.map_cons, branches, priorTerms_reversed, comparisonTerm_reversed, next]

variable (backend parseUuid startIndex) in
theorem renderKeyset_reversed (columns : List KeysetOrderColumn) (cursor : List (KeysetValue φ)) :
    renderKeyset backend parseUuid startIndex .after (columns.map KeysetOrderColumn.reversed) cursor =
      renderKeyset backend parseUuid startIndex .before columns cursor := by
  have pairs : (columns.map KeysetOrderColumn.reversed).zip cursor =
      (columns.zip cursor).map fun p => (p.1.reversed, p.2) := by
    rw [List.zip_map_left]
    rfl
  have rendered := branches_reversed backend parseUuid startIndex [] (columns.zip cursor) []
  rw [List.map_nil] at rendered
  simp only [renderKeyset, pairs, rendered, List.length_map, List.map_eq_nil_iff]

end Rendered

/-! ### Both predicates -/

section Predicates

variable {φ υ : Type} (backend : DatabaseBackend) (parseUuid : String → Option υ) (startIndex : Nat)
  (columns : List KeysetOrderColumn) (cursor : List (KeysetValue φ))

/-- The `ORDER BY` text of each column is that of the sort keys by which tuples are compared, and the
rendered predicates are conditions that hold of a row exactly if it lies on their side of the cursor,
with one parameter for each returned value. -/
def PredicatesAreOrder (δ : Type) [LinearOrder δ] : Prop :=
  (∀ order ∈ columns,
    order.orderSql = Text.join ", " (order.sortKeys.map (SortKey.sql order.column))) ∧
  ∃ (after before : Condition Atom Empty Empty) (values values' : List (SqlValue φ υ)),
    renderKeysetAfter backend parseUuid startIndex columns cursor =
      .ok (after.text (keysetSpelling backend), values) ∧
    renderKeysetBefore backend parseUuid startIndex columns cursor =
      .ok (before.text (keysetSpelling backend), values') ∧
    Sql.parse after.tokens = some after ∧ Sql.parse before.tokens = some before ∧
    placeholders after.tokens = List.range' startIndex values.length ∧
    placeholders before.tokens = List.range' startIndex values'.length ∧
    (∃ text, renderKeysetAfter backend parseUuid startIndex
        (columns.map KeysetOrderColumn.reversed) cursor = .ok (text, values') ∧
      before.text (keysetSpelling backend) = "(" ++ text ++ ")") ∧
    ∀ (nullsLow : Bool) (interpret : String → SqlValue φ υ → δ) (row : String → Option δ),
      (after.eval (keysetMeaning interpret startIndex values) row = .holds ↔
        compareTuple nullsLow columns (rowTuple columns row)
          (cursorTuple parseUuid interpret columns cursor) = .gt) ∧
      (before.eval (keysetMeaning interpret startIndex values') row = .holds ↔
        compareTuple nullsLow columns (rowTuple columns row)
          (cursorTuple parseUuid interpret columns cursor) = .lt)

theorem predicatesAreOrder (filled : columns ≠ []) (same : columns.length = cursor.length)
    (bindable : ∀ value ∈ cursor, Bindable parseUuid value) :
    PredicatesAreOrder backend parseUuid startIndex columns cursor δ := by
  have rendered := renderKeyset_eq backend startIndex .after filled same bindable
  have rendered' := renderKeyset_eq backend startIndex .before filled same bindable
  refine ⟨fun order _ => order.orderSql_eq, _,
    .one (.one (.group (keysetCondition parseUuid startIndex .before columns cursor).1)), _, _, rendered, ?_, parse_tokens _, parse_tokens _, ?_, ?_,
    ⟨_, by rw [renderKeysetAfter, renderKeyset_reversed, rendered'], by simp⟩, ?_⟩
  · rw [renderKeysetBefore, rendered']
    simp [bind, Except.bind, pure, Except.pure]
  · exact placeholders_keysetCondition .after filled same
  · rw [← placeholders_keysetCondition .before filled same]
    simp [Condition.tokens, Term.tokens, Factor.tokens, placeholders]
  · intro nullsLow interpret row
    refine ⟨eval_keysetCondition .after filled same nullsLow interpret row
      (List.prefix_refl _), ?_⟩
    rw [Condition.eval, Term.eval, Factor.eval]
    exact eval_keysetCondition .before filled same nullsLow interpret row (List.prefix_refl _)

end Predicates

/-- A page boundary among rows without a score, newest first. -/
theorem predicatesAreOrder_scores :
    PredicatesAreOrder (φ := Int) .postgres (some : String → Option String) 3
      [(KeysetOrderColumn.desc "score").nullsFirst, .desc "created", .asc "id"]
      [.null, .int 20, .uuid "a"] Int :=
  predicatesAreOrder _ _ _ _ _ (by simp) rfl (by simp [Bindable, keysetSqlValue])

end GraphqlOrm.Query
