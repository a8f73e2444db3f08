import GraphqlOrm.Query.AuthorizedPagination

/-!
# Keyset pages

Every page is a window of the visible rows in the order of the request, and its flags say
whether there are rows on either side of it. A reader that follows the cursors from one
end therefore meets every visible row once.
-/
namespace GraphqlOrm.Query

open Schema Sql Outcome Paging

section Pages

variable {τ δ φ υ : Type} [LinearOrder δ] (floats : FloatText φ) (parseUuid : String → Option υ)
  (digest : List String → String) (db : Database τ δ φ υ) (entity : AuthorizedKeysetEntity τ φ)
  (policies : Policies τ)

/-- A query in an order by keys that tell its rows apart, with the values of each row. -/
structure Keyed (base : EntityQuery τ φ υ) (order : List KeysetOrderColumn)
    (values : τ → List (KeysetValue φ)) : Prop where
  filled : order ≠ []
  ordered : base.order = order
  valid : base.filterIsValid = true
  distinct : Distinct (rowKey db order) db.rows
  own : ∀ row ∈ db.rows, Matches parseUuid db order row (values row)

/-- What the pages of one request share: keys, a complete policy and readable order fields. -/
structure Setting (visibility : ReadVisibility τ) (base : EntityQuery τ φ υ)
    (order : List KeysetOrderColumn) (runtime : Bool) (values : τ → List (KeysetValue φ)) :
    Prop extends Keyed parseUuid db base order values where
  complete : visibility.requiresResidualChecks = false
  granted : Granted entity policies order runtime db.rows
  computed : ∀ row ∈ db.rows, valuesFor entity runtime order row = .ok (values row)

/-- A decoded cursor and the key it stands for. -/
inductive Located (order : List KeysetOrderColumn) :
    Option (List (KeysetValue φ)) → Option (Key order δ) → Prop
  | start : Located order none none
  | position {values : List (KeysetValue φ)} (positions : Positions parseUuid order values) :
    Located order (some values) (some (positionKey db positions))

section Window

variable (base : EntityQuery τ φ υ) (order : List KeysetOrderColumn) (backward : Bool)

def rowsAhead : Option (Key order δ) → List τ
  | none => base.reading db order backward
  | some k => beyond (along backward (compareKey db.nullsLow order)) (rowKey db order) .gt k
      (base.reading db order backward)

def rowsBehind : Option (Key order δ) → List τ
  | none => []
  | some k => (base.reading db order backward).filter fun row =>
      along backward (compareKey db.nullsLow order) (rowKey db order row) k ≠ .gt

def pageOf (fingerprint : String) (values : τ → List (KeysetValue φ)) (limit : Int)
    (k : Option (Key order δ)) (totalCount : Option Int) : Connection τ :=
  let nodes := (rowsAhead db base order backward k).take limit.toNat
  let ahead := decide (limit.toNat < (rowsAhead db base order backward k).length)
  let behind := !(rowsBehind db base order backward k).isEmpty
  let edges := (if backward then nodes.reverse else nodes).map fun node =>
    Edge.mk node (encodeKeysetCursor floats fingerprint (values node))
  ⟨edges, ⟨if backward then behind else ahead, if backward then ahead else behind,
    edges.head?.map (·.cursor), edges.getLast?.map (·.cursor), totalCount⟩⟩

end Window

variable {floats parseUuid digest db entity policies} {visibility : ReadVisibility τ}
  {base : EntityQuery τ φ υ} {order : List KeysetOrderColumn} {runtime : Bool}
  {values : τ → List (KeysetValue φ)} {position : Option (List (KeysetValue φ))}
  {k : Option (Key order δ)} {limit : Int}

theorem behind_append_ahead (keyed : Keyed parseUuid db base order values) (backward : Bool) (k : Option (Key order δ)) :
    base.reading db order backward =
      rowsBehind db base order backward k ++ rowsAhead db base order backward k := by
  cases k with
  | none => rfl
  | some k => exact (increasing_reading keyed.distinct backward).split_after k

theorem checkRepositoryCandidates_complete (complete : visibility.requiresResidualChecks = false)
    (rows : List τ) : checkRepositoryCandidates policies visibility rows = .ok () := by
  simp [checkRepositoryCandidates, complete]

/-- A bounded query reads the rows ahead. -/
theorem boundAt_spec (keyed : Keyed parseUuid db base order values)
    (located : Located parseUuid db order position k) (backward : Bool) :
    ∃ query, boundAt parseUuid base order (aheadSide backward) position = .ok query ∧
      query.filterIsValid = true ∧ query.order = order ∧
      query.reading db order backward = rowsAhead db base order backward k := by
  cases located with
  | start => exact ⟨base, rfl, keyed.valid, keyed.ordered, rfl⟩
  | @position values positions =>
    obtain ⟨bounded, rendered, valid, same, narrowed⟩ := EntityQuery.selects_keysetBound db
      base positions (aheadSide backward) false
    refine ⟨bounded, rendered, valid.trans keyed.valid, same.trans keyed.ordered, ?_⟩
    rw [reading_narrowed keyed.distinct backward narrowed]
    simp [rowsAhead, beyond, ordering_aheadSide positions]

section

variable (setting : Setting parseUuid db entity policies visibility base order runtime values)
include setting

theorem readAhead_eq (located : Located parseUuid db order position k) (backward : Bool) (positive : 1 ≤ limit) :
    readAhead parseUuid db policies visibility base order backward limit position =
      .ok ((rowsAhead db base order backward k).take (min (limit + 1) i64Max).toNat) := by
  have nonneg : 0 ≤ min (limit + 1) i64Max := by
    simp only [i64Max]
    omega
  obtain ⟨query, rendered, valid, ordered, ahead⟩ :=
    boundAt_spec setting.toKeyed located backward
  -- Reversing the order of the query changes neither its rows nor its validity.
  have turned : (if backward then { query with order := order.map KeysetOrderColumn.reversed }
      else query : EntityQuery τ φ υ).boundedRows db (min (limit + 1) i64Max) =
        .ok ((query.reading db order backward).take (min (limit + 1) i64Max).toNat) := by
    cases backward with
    | false =>
      rw [if_neg (by simp), EntityQuery.boundedRows_of_valid db valid nonneg,
        sortedRows_eq_reading order false ordered]
    | true =>
      rw [if_pos rfl, EntityQuery.boundedRows_of_valid db (by exact valid) nonneg,
        sortedRows_eq_reading order true rfl]
      rfl
  simp only [readAhead, rendered, bind, Except.bind]
  rw [turned, ahead]
  simp [checkRepositoryCandidates_complete setting.complete, pure, Except.pure]

theorem probeBehind_eq {at_ : List (KeysetValue φ)} (positions : Positions parseUuid order at_) (backward empty : Bool) :
    probeBehind parseUuid db policies visibility base order backward empty (some at_) =
      .ok (!((base.reading db order backward).filter fun row =>
        along backward (compareKey db.nullsLow order) (rowKey db order row)
            (positionKey db positions) = .lt ∨
          empty = true ∧ rowKey db order row = positionKey db positions).isEmpty) := by
  obtain ⟨bounded, rendered, valid, same, narrowed⟩ := EntityQuery.selects_keysetBound db
    base positions (aheadSide !backward) empty
  have found : bounded.sortedRows db = (base.reading db order false).filter fun row =>
      along backward (compareKey db.nullsLow order) (rowKey db order row)
          (positionKey db positions) = .lt ∨
        empty = true ∧ rowKey db order row = positionKey db positions := by
    rw [sortedRows_eq_reading order false (same.trans setting.ordered),
      reading_narrowed setting.distinct false narrowed]
    simp only [ordering_aheadSide_not positions, rowKey_eq_positionKey]
  have ends (p : τ → Bool) : ((base.reading db order false).filter p).isEmpty =
      ((base.reading db order backward).filter p).isEmpty := by
    cases backward with
    | false => rfl
    | true => rw [reading_reverse setting.distinct, List.filter_reverse, List.isEmpty_reverse]
  have rows : bounded.boundedRows db 1 = .ok ((bounded.sortedRows db).take 1) :=
    EntityQuery.boundedRows_of_valid db (valid.trans setting.valid) (by decide)
  have any (xs : List τ) : (xs.take 1).isEmpty = xs.isEmpty := by cases xs <;> rfl
  simp only [probeBehind, rendered, rows, bind, Except.bind, pure, Except.pure, any, found, ends,
    checkRepositoryCandidates_complete setting.complete]

/-- The probe sees the rows behind the page. -/
theorem probeBehind_page (located : Located parseUuid db order position k) (backward : Bool) {nodes : List τ}
    (read : nodes = (rowsAhead db base order backward k).take limit.toNat) (positive : 1 ≤ limit) :
    probeBehind parseUuid db policies visibility base order backward nodes.isEmpty
        ((nodes.head?.map values).or position) =
      .ok !(rowsBehind db base order backward k).isEmpty := by
  have whole := behind_append_ahead setting.toKeyed backward k
  cases shape : rowsAhead db base order backward k with
  | nil =>
    rw [shape, List.take_nil] at read
    subst read
    cases located with
    | start => rfl
    | @position at_ positions =>
      have same : (base.reading db order backward).filter (fun row =>
          along backward (compareKey db.nullsLow order) (rowKey db order row)
              (positionKey db positions) = .lt ∨
            true = true ∧ rowKey db order row = positionKey db positions) =
          rowsBehind db base order backward (some (positionKey db positions)) := by
        refine List.filter_congr fun row _ => ?_
        rw [decide_eq_decide]
        cases compared : along backward (compareKey db.nullsLow order) (rowKey db order row)
          (positionKey db positions) with
        | lt => simp
        | eq => simp [Std.LawfulEqCmp.eq_of_compare compared]
        | gt =>
          have apart : rowKey db order row ≠ positionKey db positions := by
            intro equal
            have itself : along backward (compareKey db.nullsLow order) (positionKey db positions)
                (positionKey db positions) = .eq := Std.ReflCmp.compare_self
            rw [equal, itself] at compared
            cases compared
          simp [apart]
      simp only [List.head?_nil, Option.map_none, Option.none_or, List.isEmpty_nil]
      rw [probeBehind_eq setting positions backward true, same]
  | cons row rest =>
    obtain ⟨n, count⟩ : ∃ n, limit.toNat = n + 1 := ⟨limit.toNat - 1, by omega⟩
    rw [shape, count, List.take_succ_cons] at read
    subst read
    have mem : row ∈ db.rows := by
      have inside : row ∈ base.reading db order backward := by
        rw [whole, shape]
        simp
      exact (mem_reading.mp inside).1
    have own := setting.own row mem
    have positions := own.positions setting.filled
    have key : positionKey db positions = rowKey db order row :=
      ((rowKey_eq_positionKey positions row).mpr own.tuple.symm).symm
    have increasing : Increasing (along backward (compareKey db.nullsLow order)) (rowKey db order)
        (base.reading db order backward) := increasing_reading setting.distinct backward
    rw [whole, shape] at increasing
    have earlier := increasing.beyond_mid.2
    simp only [List.head?_cons, Option.map_some, Option.some_or, List.isEmpty_cons]
    rw [probeBehind_eq setting positions backward false, key, whole, shape]
    simp only [Bool.false_eq_true, false_and, or_false]
    rw [← beyond, earlier]

end

theorem rowsAhead_subset (keyed : Keyed parseUuid db base order values)
    (backward : Bool) (k : Option (Key order δ)) :
    rowsAhead db base order backward k ⊆ db.rows := by
  intro row mem
  have inside : row ∈ base.reading db order backward := by
    rw [behind_append_ahead keyed backward k]
    exact List.mem_append_right _ mem
  exact (mem_reading.mp inside).1

theorem length_rowsAhead_le (keyed : Keyed parseUuid db base order values) (backward : Bool) (k : Option (Key order δ)) :
    (rowsAhead db base order backward k).length ≤ 2 ^ 63 - 1 := by
  have part : (rowsAhead db base order backward k).length ≤
      (base.reading db order backward).length := by
    rw [behind_append_ahead keyed backward k, List.length_append]
    omega
  have whole : (base.reading db order backward).length ≤ db.rows.length := by
    rw [EntityQuery.reading, (sortOn_perm _).length_eq]
    exact List.length_filter_le _ _
  exact part.trans (whole.trans db.counted)

variable (floats) in
/-- A page is read as it is specified. -/
theorem fetchPage_eq
    (setting : Setting parseUuid db entity policies visibility base order runtime values)
    (located : Located parseUuid db order position k) (fingerprint : String) (backward : Bool)
    (positive : 1 ≤ limit) (small : limit ≤ i64Max) (totalCount : Option Int) :
    fetchPage floats parseUuid db entity policies visibility base order fingerprint runtime backward
        limit position totalCount =
      .ok (pageOf floats db base order backward fingerprint values limit k totalCount) := by
  let rows := rowsAhead db base order backward k
  have counted : rows.length ≤ 2 ^ 63 - 1 := length_rowsAhead_le setting.toKeyed backward k
  simp only [i64Max] at small
  have page : (rows.take (min (limit + 1) i64Max).toNat).take limit.toNat =
      rows.take limit.toNat := by
    rw [List.take_take]
    congr 1
    simp only [i64Max]
    omega
  have more : decide (limit < ((rows.take (min (limit + 1) i64Max).toNat).length : Int)) =
      decide (limit.toNat < rows.length) := by
    rw [decide_eq_decide, List.length_take]
    simp only [i64Max]
    omega
  have own : rows.take limit.toNat ⊆ db.rows :=
    fun row mem => rowsAhead_subset setting.toKeyed backward k (List.mem_of_mem_take mem)
  have first : (rows.take limit.toNat).head?.mapM (valuesFor entity runtime order) =
      .ok ((rows.take limit.toNat).head?.map values) := by
    cases shape : rows.take limit.toNat with
    | nil => rfl
    | cons row rest =>
      have computed := setting.computed row (own (by simp [shape]))
      simp [computed]
  have probed := probeBehind_page setting located backward
    (show rows.take limit.toNat = rows.take limit.toNat from rfl) positive
  have turned : (if backward then (rows.take limit.toNat).reverse else rows.take limit.toNat) ⊆
      db.rows := by
    cases backward
    · exact own
    · simpa using own
  have edges : edgesOf floats entity fingerprint runtime order
      (if backward then (rows.take limit.toNat).reverse else rows.take limit.toNat) =
      .ok ((if backward then (rows.take limit.toNat).reverse else rows.take limit.toNat).map
        fun node => Edge.mk node (encodeKeysetCursor floats fingerprint (values node))) := by
    refine mapM_ok fun node mem => ?_
    rw [setting.computed node (turned mem)]
    rfl
  simp only [fetchPage, readAhead_eq setting located backward positive, bind, Except.bind]
  rw [page, more, first]
  simp only
  rw [probed]
  simp only
  rw [setting.granted.authorizePage turned]
  simp only
  rw [edges]
  cases backward <;> rfl

end Pages

/-! ### Requests -/

section Requests

variable {τ δ φ υ : Type} [LinearOrder δ] (floats : FloatText φ) (parseUuid : String → Option υ)
  (digest : List String → String) (db : Database τ δ φ υ) (entity : AuthorizedKeysetEntity τ φ)
  (policies : Policies τ)

def ReadVisibility.grants (visibility : ReadVisibility τ) (row : τ) : Bool :=
  visibility.predicate?.all fun predicate => predicate.expression row = .holds

/-- The rows of a query that the policy shows, in the order of the request. -/
def visibleRows (query : EntityQuery τ φ υ) (visibility : ReadVisibility τ)
    (order : List KeysetOrderColumn) : List τ :=
  sortOn (compareTuple db.nullsLow order) (fun row => rowTuple order (db.column row))
    (db.rows.filter fun row => query.selects db row && visibility.grants row)

def rowValues (runtime : Bool) (order : List KeysetOrderColumn) (row : τ) : List (KeysetValue φ) :=
  match valuesFor entity runtime order row with
  | .ok values => values
  | .error _ => []

/-- The caller gets an answer: a known order, a policy that needs no callbacks, filters
that the database can evaluate, and access. -/
structure Admitted (query : EntityQuery τ φ υ) (requested : Option (List KeysetOrderColumn))
    (order : List KeysetOrderColumn) (fingerprint : String) (visibility : ReadVisibility τ) :
    Prop where
  accepted : requestOrder entity requested = .ok (order, fingerprint)
  resolved : policies.readVisibility = .ok visibility
  complete : visibility.requiresResidualChecks = false
  identified : visibility.validate entity.entityName db.backend = .ok ()
  inDatabase : query.requiresInMemoryFiltering = false
  valid : query.filterIsValid = true
  granted : Granted entity policies order requested.isSome db.rows

/-- The contract of the entity: an order, and values that match it. -/
structure Faithful : Prop where
  filled : entity.keysetOrder ≠ []
  configured : ∀ row ∈ db.rows, Matches parseUuid db entity.keysetOrder row (entity.keysetValues row)
  field : ∀ row ∈ db.rows, ∀ field ∈ entity.keysetFields, ∃ value,
    entity.keysetValueForColumn row field.column = some value ∧
      Represents parseUuid db row field.column value

def baseQuery (query : EntityQuery τ φ υ) (visibility : ReadVisibility τ)
    (order : List KeysetOrderColumn) : EntityQuery τ φ υ :=
  { query with
    conditions := query.conditions ++ (visibility.predicate?.map (·.expression)).toList
    valueCount := query.valueCount + (visibility.predicate?.map (·.valueCount)).getD 0
    order := order }

variable {floats parseUuid digest db entity policies} {query : EntityQuery τ φ υ}
  {visibility : ReadVisibility τ} {order : List KeysetOrderColumn} {fingerprint : String}
  {requested : Option (List KeysetOrderColumn)}

omit [LinearOrder δ] in
variable (query) in
theorem withReadVisibility_eq
    (identified : visibility.validate entity.entityName db.backend = .ok ())
    (order : List KeysetOrderColumn) :
    ∃ shown, query.withReadVisibility db entity.entityName visibility = .ok shown ∧
      { shown with order := order } = baseQuery query visibility order := by
  cases found : visibility.predicate? with
  | none =>
    refine ⟨query, ?_, ?_⟩
    · simp [EntityQuery.withReadVisibility, identified, found, bind, Except.bind, pure, Except.pure]
    · simp [baseQuery, found]
  | some predicate =>
    refine ⟨{ query with
      conditions := query.conditions ++ [predicate.expression]
      valueCount := query.valueCount + predicate.valueCount }, ?_, ?_⟩
    · simp [EntityQuery.withReadVisibility, identified, found, bind, Except.bind, pure, Except.pure]
    · simp [baseQuery, found]

theorem reading_baseQuery (query : EntityQuery τ φ υ) (visibility : ReadVisibility τ)
    (order : List KeysetOrderColumn) :
    (baseQuery query visibility order).reading db order false =
      visibleRows db query visibility order := by
  have selects : (baseQuery query visibility order).selects db =
      fun row => query.selects db row && visibility.grants row := by
    funext row
    cases found : visibility.predicate? with
    | none => simp [baseQuery, EntityQuery.selects, ReadVisibility.grants, found]
    | some predicate =>
      simp [baseQuery, EntityQuery.selects, ReadVisibility.grants, found, Bool.and_right_comm]
  rw [EntityQuery.reading, selects]
  rfl

omit [LinearOrder δ] in
theorem Faithful.matches_
    (faithful : Faithful parseUuid db entity)
    (accepted : requestOrder entity requested = .ok (order, fingerprint)) {row : τ}
    (mem : row ∈ db.rows) :
    valuesFor entity requested.isSome order row =
        .ok (rowValues entity requested.isSome order row) ∧
      Matches parseUuid db order row (rowValues entity requested.isSome order row) := by
  cases requested with
  | none =>
    cases accepted
    exact ⟨rfl, faithful.configured row mem⟩
  | some given =>
    have known := (runtimeKeysetOrder_spec accepted).2
    have all : ∃ values, valuesFor entity true order row = .ok values ∧
        Matches parseUuid db order row values := by
      clear accepted
      induction order with
      | nil => exact ⟨[], rfl, .nil⟩
      | cons part order ih =>
        have later : ∀ p ∈ order, entity.hasField p.column = true :=
          fun p inside => known p (.tail _ inside)
        obtain ⟨values, computed, own⟩ := ih later
        have field := known part (.head _)
        simp only [AuthorizedKeysetEntity.hasField, List.any_eq_true, decide_eq_true_eq] at field
        obtain ⟨field, inside, same⟩ := field
        obtain ⟨value, found, represents⟩ := faithful.field row mem field inside
        rw [same] at found represents
        refine ⟨value :: values, ?_, .cons represents own⟩
        simp only [valuesFor, ↓reduceIte] at computed ⊢
        rw [List.mapM_cons, found, computed]
        rfl
    obtain ⟨values, computed, own⟩ := all
    simp only [Option.isSome_some, rowValues, computed]
    exact ⟨trivial, own⟩

omit [LinearOrder δ] in
theorem Faithful.filled_order (faithful : Faithful parseUuid db entity)
    (accepted : requestOrder entity requested = .ok (order, fingerprint)) : order ≠ [] := by
  cases requested with
  | none =>
    cases accepted
    exact faithful.filled
  | some given => exact (runtimeKeysetOrder_spec accepted).1

omit [LinearOrder δ] in
theorem Admitted.setting
    (admitted : Admitted db entity policies query requested order fingerprint visibility)
    (faithful : Faithful parseUuid db entity) (distinct : Distinct (rowKey db order) db.rows) :
    Setting parseUuid db entity policies visibility (baseQuery query visibility order) order
      requested.isSome (rowValues entity requested.isSome order) where
  filled := faithful.filled_order admitted.accepted
  ordered := rfl
  valid := admitted.valid
  complete := admitted.complete
  distinct := distinct
  granted := admitted.granted
  computed _ mem := (faithful.matches_ admitted.accepted mem).1
  own _ mem := (faithful.matches_ admitted.accepted mem).2

/-! ### Calls -/

def pageInput (backward : Bool) (size : Int) (includeTotalCount : Bool) (cursor : Option String) :
    KeysetConnectionInput :=
  if backward then ⟨none, cursor, none, some size, includeTotalCount⟩
  else ⟨cursor, none, some size, none, includeTotalCount⟩

theorem validate_pageInput {size : Int} (positive : 1 ≤ size) (backward includeTotalCount : Bool)
    (cursor : Option String) :
    (pageInput backward size includeTotalCount cursor).validate PaginationConfig.DEFAULT_LIMIT
        i64Max =
      .ok ⟨if backward then .backward else .forward, cursor, min size i64Max,
        includeTotalCount⟩ := by
  have requested : ¬size ≤ 0 := by omega
  cases backward <;>
    simp [pageInput, KeysetConnectionInput.validate, PaginationConfig.DEFAULT_LIMIT, i64Max,
      requested]

def requestFingerprint (digest : List String → String) (entity : AuthorizedKeysetEntity τ φ)
    (query : EntityQuery τ φ υ) (runtime : Bool) (fingerprint : String) : String :=
  bindKeysetFingerprint digest (if runtime then none else some entity.entityName) fingerprint
    query.keysetFilterIdentities

def requestLimit (db : Database τ δ φ υ) (size : Int) : Int :=
  db.paginationConfig.pageLimit (some (min size i64Max))

omit [LinearOrder δ] in
theorem requestLimit_le (db : Database τ δ φ υ) (size : Int) : requestLimit db size ≤ i64Max :=
  PaginationConfig.pageLimit_le _ (by decide) (min_le_right _ _)

/-- A call returns the specified page. -/
theorem fetch_eq
    (admitted : Admitted db entity policies query requested order fingerprint visibility)
    (faithful : Faithful parseUuid db entity) (distinct : Distinct (rowKey db order) db.rows)
    {size : Int} (positive : 1 ≤ size) (backward includeTotalCount : Bool) {cursor : Option String}
    {position : Option (List (KeysetValue φ))} {k : Option (Key order δ)}
    (decoded : cursor.mapM (fun cursor => decodeKeysetCursor floats cursor
      (requestFingerprint digest entity query requested.isSome fingerprint) order.length) =
        .ok position)
    (located : Located parseUuid db order position k) :
    fetchAuthorizedKeysetConnectionWithOrder floats parseUuid digest db entity policies query
        (pageInput backward size includeTotalCount cursor) requested =
      .ok (pageOf floats db (baseQuery query visibility order) order backward
        (requestFingerprint digest entity query requested.isSome fingerprint)
        (rowValues entity requested.isSome order) (requestLimit db size) k
        (if includeTotalCount then
          some (db.rows.countP ((baseQuery query visibility order).selects db)) else none)) := by
  have setting := admitted.setting faithful distinct
  obtain ⟨shown, applied, ordered⟩ :=
    withReadVisibility_eq query admitted.identified order
  have fields := admitted.granted.fields none (by simp)
  have identities : shown.keysetFilterIdentities = query.keysetFilterIdentities := by
    simpa [baseQuery] using congrArg EntityQuery.keysetFilterIdentities ordered
  have counted : (baseQuery query visibility order).countWithAuth db =
      .ok (db.rows.countP ((baseQuery query visibility order).selects db)) :=
    if_pos setting.valid
  have direction : decide ((if backward then KeysetWindowDirection.backward else .forward) =
      .backward) = backward := by
    cases backward <;> rfl
  have page := fetchPage_eq floats setting located
    (requestFingerprint digest entity query requested.isSome fingerprint) backward
    (PaginationConfig.one_le_pageLimit _ _) (requestLimit_le db size)
  simp only [fetchAuthorizedKeysetConnectionWithOrder, authorizePagination, admitted.accepted,
    validate_pageInput positive, admitted.granted.access, admitted.resolved, fields, applied,
    admitted.complete, admitted.inDatabase, bind, Except.bind, Bool.false_and, Bool.false_eq_true,
    ↓reduceIte, ordered, direction]
  rw [requestFingerprint] at decoded
  simp only [identities, decoded]
  cases includeTotalCount with
  | false => exact page none
  | true =>
    simp only [↓reduceIte, counted, Except.map]
    exact page (some (db.rows.countP ((baseQuery query visibility order).selects db)))

variable (parseUuid) in
/-- A cursor that cannot be read is reported. -/
theorem fetch_refused
    (admitted : Admitted db entity policies query requested order fingerprint visibility)
    {size : Int} (positive : 1 ≤ size) (backward includeTotalCount : Bool) {cursor : String}
    (refused : decodeKeysetCursor floats cursor
      (requestFingerprint digest entity query requested.isSome fingerprint) order.length =
        .error .cursorInvalid) :
    fetchAuthorizedKeysetConnectionWithOrder floats parseUuid digest db entity policies query
        (pageInput backward size includeTotalCount (some cursor)) requested =
      .error .cursorInvalid := by
  obtain ⟨shown, applied, ordered⟩ :=
    withReadVisibility_eq query admitted.identified order
  have fields := admitted.granted.fields none (by simp)
  have identities : shown.keysetFilterIdentities = query.keysetFilterIdentities := by
    simpa [baseQuery] using congrArg EntityQuery.keysetFilterIdentities ordered
  rw [requestFingerprint] at refused
  simp [fetchAuthorizedKeysetConnectionWithOrder, authorizePagination, admitted.accepted,
    validate_pageInput positive, admitted.granted.access, admitted.resolved, fields, applied,
    admitted.complete, admitted.inDatabase, bind, Except.bind, identities, refused]

end Requests

end GraphqlOrm.Query
