import GraphqlOrm.Query.KeysetBound

/-!
# Queries over one entity

A query holds the conditions of its caller, the keyset bounds rendered so far and an
order. The database answers with the first rows of the order among those that satisfy
all of them.
-/
namespace GraphqlOrm.Query

open Schema Sql Paging

/-! ### Limits -/

/-- The largest `i64`. -/
def i64Max : Int := 9223372036854775807

structure PageInput where
  limit : Option Int
  offset : Option Int

structure PaginationConfig where
  defaultLimit : Option Int
  maxLimit : Option Int

structure PaginationRequest where
  limit : Option Int
  offset : Int

namespace PaginationConfig

def DEFAULT_LIMIT : Int := 50

def unbounded : PaginationConfig := ⟨none, none⟩

def clampLimitValue (config : PaginationConfig) (limit : Int) : Int :=
  let normalized := max limit 0
  match config.maxLimit with
  | some maxLimit => min normalized (max maxLimit 0)
  | none => normalized

def clampExplicitLimit (config : PaginationConfig) (limit : Option Int) : Option Int :=
  limit.map config.clampLimitValue

def resolvePage (config : PaginationConfig) (page : Option PageInput) (applyDefaultLimit : Bool) :
    PaginationRequest :=
  let offset := max ((page.bind (·.offset)).getD 0) 0
  let requestedLimit := page.bind (·.limit)
  let limit :=
    if requestedLimit.isSome then config.clampExplicitLimit requestedLimit
    else if applyDefaultLimit then config.clampExplicitLimit config.defaultLimit
    else none
  ⟨limit, offset⟩

def pageLimit (config : PaginationConfig) (requested : Option Int) : Int :=
  max ((config.resolvePage (some ⟨requested, some 0⟩) true).limit.getD DEFAULT_LIMIT) 1

theorem one_le_pageLimit (config : PaginationConfig) (requested : Option Int) :
    1 ≤ config.pageLimit requested := le_max_right _ _

theorem clampLimitValue_le (config : PaginationConfig) {limit bound : Int} (nonneg : 0 ≤ bound)
    (below : limit ≤ bound) : config.clampLimitValue limit ≤ bound := by
  have normalized : max limit 0 ≤ bound := max_le below nonneg
  simp only [clampLimitValue]
  split
  · exact (min_le_left _ _).trans normalized
  · exact normalized

theorem pageLimit_le (config : PaginationConfig) {requested bound : Int} (positive : 1 ≤ bound)
    (below : requested ≤ bound) : config.pageLimit (some requested) ≤ bound :=
  max_le (config.clampLimitValue_le (by omega) below) positive

end PaginationConfig

/-! ### Visibility -/

/-- A predicate of a read policy, by the rows it grants. -/
structure ReadPredicate (τ : Type) where
  entity : String
  backend : DatabaseBackend
  expression : τ → Truth
  valueCount : Nat

inductive ReadVisibility (τ : Type) where
  | callbackOnly
  | prefilter (predicate : ReadPredicate τ)
  | complete (predicate : ReadPredicate τ)
  | unrestricted

namespace ReadVisibility

variable {τ : Type}

def requiresResidualChecks : ReadVisibility τ → Bool
  | callbackOnly => true
  | prefilter _ => true
  | complete _ => false
  | unrestricted => false

def predicate? : ReadVisibility τ → Option (ReadPredicate τ)
  | prefilter predicate => some predicate
  | complete predicate => some predicate
  | callbackOnly => none
  | unrestricted => none

def validate (entity : String) (backend : DatabaseBackend) (visibility : ReadVisibility τ) :
    Except OrmErrorCode Unit :=
  match visibility.predicate? with
  | some predicate =>
    if predicate.entity ≠ entity ∨ predicate.backend ≠ backend then
      .error .authorizationMisconfigured
    else .ok ()
  | none => .ok ()

end ReadVisibility

/-! ### The database -/

/-- A table that does not change, with what the database knows about its columns. -/
structure Database (τ δ φ υ : Type) where
  backend : DatabaseBackend
  rows : List τ
  /-- Rows can be counted by a signed 64-bit number. -/
  counted : rows.length ≤ 2 ^ 63 - 1
  column : τ → String → Option δ
  interpret : String → SqlValue φ υ → δ
  nullsLow : Bool
  paginationConfig : PaginationConfig

/-- The caller's filters and the policy stand for themselves; keyset bounds are clauses. -/
structure EntityQuery (τ φ υ : Type) where
  conditions : List (τ → Truth)
  bounds : List (KeysetClause φ υ)
  valueCount : Nat
  order : List KeysetOrderColumn
  requiresInMemoryFiltering : Bool
  filterIsValid : Bool
  keysetFilterIdentities : List String

section Query

variable {τ δ φ υ : Type} [LinearOrder δ] (db : Database τ δ φ υ)

namespace EntityQuery

def withReadVisibility (query : EntityQuery τ φ υ) (entity : String)
    (visibility : ReadVisibility τ) : Except OrmErrorCode (EntityQuery τ φ υ) := do
  visibility.validate entity db.backend
  match visibility.predicate? with
  | some predicate =>
    return { query with
      conditions := query.conditions ++ [predicate.expression]
      valueCount := query.valueCount + predicate.valueCount }
  | none => return query

def keysetBoundWithOrder (query : EntityQuery τ φ υ) (parseUuid : String → Option υ)
    (order : List KeysetOrderColumn) (values : List (KeysetValue φ)) (side : Side)
    (inclusive : Bool) : Except OrmErrorCode (EntityQuery τ φ υ) := do
  let clause ← keysetClause parseUuid (query.valueCount + 1) order values side inclusive
  return { query with
    bounds := query.bounds ++ [clause]
    valueCount := query.valueCount + clause.values.length }

def selects (query : EntityQuery τ φ υ) (row : τ) : Bool :=
  query.conditions.all (fun condition => condition row = .holds) &&
    query.bounds.all fun clause => clause.eval db.interpret (db.column row) = .holds

def sortedRows (query : EntityQuery τ φ υ) : List τ :=
  sortOn (compareTuple db.nullsLow query.order) (fun row => rowTuple query.order (db.column row))
    (db.rows.filter (query.selects db))

/-- `paginate`, then `fetch_all` without further bounds. -/
def boundedRows (query : EntityQuery τ φ υ) (limit : Int) : Except OrmErrorCode (List τ) :=
  if query.filterIsValid then
    let page := PaginationConfig.unbounded.resolvePage (some ⟨some limit, some 0⟩) false
    let rows := (query.sortedRows db).drop page.offset.toNat
    .ok (match page.limit with
      | some limit => rows.take limit.toNat
      | none => rows)
  else .error .invalidInput

def countWithAuth (query : EntityQuery τ φ υ) : Except OrmErrorCode Int :=
  if query.filterIsValid then .ok (db.rows.countP (query.selects db)) else .error .invalidInput

theorem boundedRows_of_valid {query : EntityQuery τ φ υ} (valid : query.filterIsValid = true)
    {limit : Int} (nonneg : 0 ≤ limit) :
    query.boundedRows db limit = .ok ((query.sortedRows db).take limit.toNat) := by
  simp [boundedRows, valid, PaginationConfig.resolvePage, PaginationConfig.unbounded,
    PaginationConfig.clampExplicitLimit, PaginationConfig.clampLimitValue, nonneg]

/-- A bound adds its clause and nothing else. -/
theorem selects_keysetBound (query : EntityQuery τ φ υ) {parseUuid : String → Option υ}
    {order : List KeysetOrderColumn} {values : List (KeysetValue φ)}
    (positions : Positions parseUuid order values) (side : Side) (inclusive : Bool) :
    ∃ bounded, query.keysetBoundWithOrder parseUuid order values side inclusive = .ok bounded ∧
      bounded.filterIsValid = query.filterIsValid ∧ bounded.order = query.order ∧
      ∀ row, bounded.selects db row = (query.selects db row && decide
        (compareTuple db.nullsLow order (rowTuple order (db.column row))
            (cursorTuple parseUuid db.interpret order values) = side.ordering ∨
          inclusive = true ∧ rowTuple order (db.column row) =
            cursorTuple parseUuid db.interpret order values)) := by
  obtain ⟨clause, rendered, meaning⟩ :=
    keysetClause_spec (δ := δ) (query.valueCount + 1) positions side inclusive
  refine ⟨{ query with
      bounds := query.bounds ++ [clause]
      valueCount := query.valueCount + clause.values.length },
    by rw [keysetBoundWithOrder, rendered]; rfl, rfl, rfl, fun row => ?_⟩
  simp only [selects, List.all_append, List.all_cons, List.all_nil, Bool.and_true,
    meaning db.nullsLow]
  rw [Bool.and_assoc]

end EntityQuery

/-! ### Reading in one direction -/

def rowKey (order : List KeysetOrderColumn) (row : τ) : Key order δ :=
  ⟨rowTuple order (db.column row), by simp [rowTuple]⟩

def EntityQuery.reading (query : EntityQuery τ φ υ) (order : List KeysetOrderColumn)
    (backward : Bool) : List τ :=
  sortOn (along backward (compareKey db.nullsLow order)) (rowKey db order)
    (db.rows.filter (query.selects db))

def aheadSide (backward : Bool) : Side := if backward then .before else .after

variable {db}

theorem sortedRows_eq_reading {query : EntityQuery τ φ υ} (order : List KeysetOrderColumn)
    (backward : Bool)
    (ordered : query.order = if backward then order.map KeysetOrderColumn.reversed else order) :
    query.sortedRows db = query.reading db order backward := by
  have tuple (row : String → Option δ) :
      rowTuple (order.map KeysetOrderColumn.reversed) row = rowTuple order row := by
    simp [rowTuple, Function.comp_def]
  cases backward with
  | false =>
    rw [EntityQuery.sortedRows, ordered]
    rfl
  | true =>
    rw [EntityQuery.sortedRows, ordered]
    simp only [↓reduceIte, sortOn, compareTuple_reversed, tuple]
    rfl

section Distinct

variable {query bounded : EntityQuery τ φ υ} {order : List KeysetOrderColumn}

theorem increasing_reading (distinct : Distinct (rowKey db order) db.rows) (backward : Bool) :
    Increasing (along backward (compareKey db.nullsLow order)) (rowKey db order)
      (query.reading db order backward) :=
  increasing_sortOn (distinct.filter _)

theorem reading_reverse (distinct : Distinct (rowKey db order) db.rows) :
    query.reading db order true = (query.reading db order false).reverse :=
  sortOn_swap (distinct.filter _) fun _ _ => rfl

theorem mem_reading {backward : Bool} {row : τ} :
    row ∈ query.reading db order backward ↔ row ∈ db.rows ∧ query.selects db row = true := by
  rw [EntityQuery.reading, (sortOn_perm _).mem_iff, List.mem_filter]

theorem reading_narrowed (distinct : Distinct (rowKey db order) db.rows) (backward : Bool)
    {p : τ → Bool} (narrowed : ∀ row, bounded.selects db row = (query.selects db row && p row)) :
    bounded.reading db order backward = (query.reading db order backward).filter p := by
  have both : bounded.selects db = fun row => p row && query.selects db row :=
    funext fun row => by rw [narrowed, Bool.and_comm]
  rw [EntityQuery.reading, both, ← List.filter_filter, sortOn_filter (distinct.filter _)]
  rfl

end Distinct

/-! ### Positions -/

section Position

variable {parseUuid : String → Option υ} {order : List KeysetOrderColumn}
  {values : List (KeysetValue φ)}

variable (db) in
def positionKey (positions : Positions parseUuid order values) : Key order δ :=
  ⟨cursorTuple parseUuid db.interpret order values, by simp [cursorTuple, ← positions.same]⟩

/-- In the direction of reading the rows on the side ahead are the later ones. -/
theorem ordering_aheadSide (positions : Positions parseUuid order values) (backward : Bool)
    (row : τ) :
    compareTuple db.nullsLow order (rowTuple order (db.column row))
        (cursorTuple parseUuid db.interpret order values) = (aheadSide backward).ordering ↔
      along backward (compareKey db.nullsLow order) (rowKey db order row)
        (positionKey db positions) = .gt := by
  cases backward with
  | false => rfl
  | true =>
    have swapped : compareTuple db.nullsLow order (rowTuple order (db.column row))
        (cursorTuple parseUuid db.interpret order values) = _ := compareTuple_swap order
      (cursorTuple parseUuid db.interpret order values) (rowTuple order (db.column row))
    simp only [aheadSide, ↓reduceIte, Side.ordering, along, compareKey, rowKey, positionKey, swapped]
    cases compareTuple db.nullsLow order (cursorTuple parseUuid db.interpret order values)
      (rowTuple order (db.column row)) <;> simp

/-- In the direction of reading the rows on the other side are the earlier ones. -/
theorem ordering_aheadSide_not (positions : Positions parseUuid order values) (backward : Bool)
    (row : τ) :
    compareTuple db.nullsLow order (rowTuple order (db.column row))
        (cursorTuple parseUuid db.interpret order values) = (aheadSide !backward).ordering ↔
      along backward (compareKey db.nullsLow order) (rowKey db order row)
        (positionKey db positions) = .lt := by
  rw [ordering_aheadSide positions (!backward)]
  have swapped : along (!backward) (compareKey db.nullsLow order) (rowKey db order row)
      (positionKey db positions) = (along backward (compareKey db.nullsLow order)
        (rowKey db order row) (positionKey db positions)).swap := by
    cases backward
    · exact Std.OrientedCmp.eq_swap
    · exact Std.OrientedCmp.eq_swap
  rw [swapped]
  cases along backward (compareKey db.nullsLow order) (rowKey db order row)
    (positionKey db positions) <;> simp

omit [LinearOrder δ] in
theorem rowKey_eq_positionKey (positions : Positions parseUuid order values) (row : τ) :
    rowKey db order row = positionKey db positions ↔
      rowTuple order (db.column row) = cursorTuple parseUuid db.interpret order values :=
  Subtype.ext_iff

end Position

end Query

end GraphqlOrm.Query
