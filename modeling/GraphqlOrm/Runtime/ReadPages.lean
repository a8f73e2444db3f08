import GraphqlOrm.Query.KeysetWalk
import GraphqlOrm.Runtime.ReadResolved

/-!
# Pages of runtime reads

A page of a read without ranking holds the next rows of the selected ones, in the order of
the request, as long as every row can be read and its cursor written.
-/
namespace GraphqlOrm.Runtime

open Outcome Paging Bytes
open Schema (DatabaseBackend)
open Sql
open Query (Key compareKey compareTuple)

variable {φ δ : Type} {texts : ValueTexts φ} {db : RuntimeDatabase φ δ}
  {request : RuntimeReadRequest φ} {schema : RuntimeSchema} {collection : RuntimeCollection}
  {scopes : Scopes (Row δ)}

/-! ### What is read from a row -/

section Values

variable (texts db request scopes)

def cellOf (field : RuntimeFieldHandle) : Option δ :=
  readIn db.outward scopes { column := field.physicalColumn }

def cellValue (field : RuntimeFieldHandle) : RuntimeValue φ :=
  match db.decodeValue field.valueKind (cellOf db scopes field) with
  | .ok value => value
  | .error _ => .null

def rowValues : List (RuntimeValue φ) :=
  request.order.terms.map fun term => cellValue db scopes term.field

def rowScore : Option φ := request.search.bind fun _ => db.decodeScore (db.score scopes)

def keepValue (values : OrderedMap FieldId (RuntimeValue φ)) (field : RuntimeFieldHandle) :
    OrderedMap FieldId (RuntimeValue φ) :=
  values.insert field.id (cellValue db scopes field)

def valuesOf (fields : List RuntimeFieldHandle) : OrderedMap FieldId (RuntimeValue φ) :=
  fields.foldl (keepValue db scopes) OrderedMap.empty

def rowRecord (fields : List RuntimeFieldHandle) : RuntimeRecord φ :=
  ⟨request.decodeProjection.schemaFingerprint, request.decodeProjection.collection.id,
    request.decodeProjection.collectionFieldKinds, valuesOf db scopes fields⟩

def cursorBytes : List UInt8 :=
  utf8 ((cursorEnvelope texts request (rowValues db request scopes) none).toJson texts).write

def rowCursor : String := RUNTIME_CURSOR_PREFIX ++ hexEncode (cursorBytes texts db request scopes)

def rowEdge : RuntimeEdge φ :=
  ⟨rowRecord db request scopes request.outputProjection.fields, rowCursor texts db request scopes,
    rowScore db request scopes⟩

/-- A row as the schema and the limits expect it: its columns decode to values of their
fields, which survive in a cursor and are bound to the place where they came from. -/
structure RowReadable : Prop where
  decodes : ∀ field ∈ request.decodeProjection.fields, ∃ value,
    db.decodeValue field.valueKind (cellOf db scopes field) = .ok value ∧ FitsField value field
  scored : ∀ _ ∈ request.search, (db.decodeScore (db.score scopes)).isSome = true
  returns : ∀ term ∈ request.order.terms,
    storedCell db.backend db.engine term.field (cellValue db scopes term.field) =
      cellOf db scopes term.field
  survives : ∀ term ∈ request.order.terms, (cellValue db scopes term.field).Survives texts
  short : (cursorBytes texts db request scopes).length ≤ request.limits.maxCursorBytes
  bindable : (planBase db.backend request).values.length +
    (branchBinds [] (request.order.terms.zip (rowValues db request scopes))).length ≤
      request.limits.maxBindParameters

end Values

section Record

variable {field : RuntimeFieldHandle}

theorem RowReadable.value (readable : RowReadable texts db request scopes)
    (mem : field ∈ request.decodeProjection.fields) :
    db.decodeValue field.valueKind (cellOf db scopes field) = .ok (cellValue db scopes field) ∧
      FitsField (cellValue db scopes field) field := by
  obtain ⟨value, decoded, fits⟩ := readable.decodes field mem
  rw [cellValue, decoded]
  exact ⟨rfl, fits⟩

theorem decodeField_ok
    {decode : RuntimeFieldHandle → Except RuntimeRecordErrorCode (RuntimeValue φ)}
    {value : RuntimeValue φ} (decoded : decode field = .ok value) (fits : FitsField value field) :
    decodeField decode field = .ok value := by
  rw [FitsField] at fits
  rw [decodeField, decoded]
  cases kind : value.kind with
  | none | some k =>
    rw [kind] at fits
    simp [bind, Except.bind, require, kind, fits, pure, Except.pure]

theorem decodeEntry_ok (readable : RowReadable texts db request scopes) :
    decodeEntry request db scopes =
      .ok (rowRecord db request scopes request.decodeProjection.fields,
        rowScore db request scopes) := by
  have values : request.decodeProjection.decodeValues (fun field =>
      db.decodeValue field.valueKind (cellOf db scopes field)) =
        .ok (valuesOf db scopes request.decodeProjection.fields) := by
    refine foldlM_total (keepValue db scopes) (fun field mem values => ?_) _
    obtain ⟨decoded, fits⟩ := readable.value mem
    rw [decodeField_ok decoded fits]
    rfl
  have score : decodeScore request db scopes = .ok (rowScore db request scopes) := by
    rw [decodeScore, rowScore]
    cases given : request.search with
    | none => rfl
    | some search =>
      obtain ⟨score, found⟩ := Option.isSome_iff_exists.mp (readable.scored search given)
      rw [found]
      rfl
  have row : request.decodeProjection.decodeRow (fun field =>
      db.decodeValue field.valueKind (cellOf db scopes field)) =
        .ok (rowRecord db request scopes request.decodeProjection.fields) :=
    bind_eq_ok.mpr ⟨_, values, rfl⟩
  refine bind_eq_ok.mpr ⟨_, score, bind_eq_ok.mpr ⟨_, ?_, rfl⟩⟩
  exact congrArg (Except.mapError _) row

theorem ResolvesTo.current {handle : RuntimeCollectionHandle}
    (resolves : ResolvesTo schema handle field) : field.schemaFingerprint = schema.fingerprint := by
  obtain ⟨owner, checked, more⟩ := bind_eq_ok.mp resolves
  obtain ⟨declared, found, made⟩ := bind_eq_ok.mp more
  obtain ⟨_, same, _⟩ := bind_eq_ok.mp checked
  have printed : handle.schemaFingerprint = schema.fingerprint :=
    of_decide_eq_true (require_eq_ok.mp same)
  rw [← Except.ok.inj made]
  exact printed

/-- The field identifiers of a collection are distinct, as validation checks. -/
def DistinctFields (collection : RuntimeCollection) : Prop := (collection.fields.map (·.id)).Nodup

section

variable (resolved : Resolved schema collection request)
include resolved

/-- Every field of the request's projections is found in the record of a row. -/
theorem valuesOf_get? {fields : List RuntimeFieldHandle}
    (within : ∀ field ∈ fields, field ∈ request.decodeProjection.fields) (mem : field ∈ fields) :
    (valuesOf db scopes fields).get? field.id = some (cellValue db scopes field) := by
  refine OrderedMap.get?_foldl_consistent (fun x among y there same => ?_) mem
  have left := resolved.fields x (within x among)
  have right := resolved.fields y (within y there)
  rw [ResolvesTo, same, right] at left
  rw [Except.ok.inj left]

theorem kinds_get? (distinct : DistinctFields collection) (mem : field ∈ request.decodeProjection.fields) :
    request.decodeProjection.collectionFieldKinds.get? field.id = some field.valueKind := by
  obtain ⟨owner, known, ⟨_, declared, found, _, kind, _⟩, _⟩ :=
    resolveField_ok (resolved.fields field mem)
  obtain rfl : collection = owner := Option.some.inj (resolved.found.symm.trans known)
  have among : declared ∈ collection.fields := List.mem_of_find?_eq_some found
  rw [resolved.kinds, kind, ← field?_id found]
  refine OrderedMap.get?_foldl_consistent (fun x left y right same => ?_) among
  rw [List.inj_on_of_nodup_map distinct left right same]

/-- The state of a field in the record of a row is its value. -/
theorem rowRecord_state (distinct : DistinctFields collection) (mem : field ∈ request.decodeProjection.fields) :
    (rowRecord db request scopes request.decodeProjection.fields).state field =
      .ok (if (cellValue db scopes field).kind = none then .null
        else .value (cellValue db scopes field)) := by
  obtain ⟨owner, known, ⟨owned, _⟩, _⟩ := resolveField_ok (resolved.fields field mem)
  have current := (resolved.fields field mem).current
  have place : field.collection = request.decodeProjection.collection.id := by
    rw [owned, collection?_id known, resolved.decodeCollection]
  have checked : (rowRecord db request scopes request.decodeProjection.fields).checkedField field =
      .ok (some (cellValue db scopes field)) := by
    refine bind_eq_ok.mpr ⟨(), require_eq_ok.mpr (decide_eq_true ?_), bind_eq_ok.mpr
      ⟨(), require_eq_ok.mpr (decide_eq_true place), bind_eq_ok.mpr
        ⟨_, okOr_eq_ok.mpr (kinds_get? resolved distinct mem), bind_eq_ok.mpr
          ⟨(), require_eq_ok.mpr (decide_eq_true rfl), ?_⟩⟩⟩⟩
    · rw [current, rowRecord, resolved.decodeSchema]
    · exact congrArg Except.ok (valuesOf_get? resolved (fun _ => id) mem)
  rw [RuntimeRecord.state, checked]
  cases cellValue db scopes field <;> rfl

theorem recordPosition_ok (distinct : DistinctFields collection) :
    recordPosition request (rowRecord db request scopes request.decodeProjection.fields) =
      .ok (rowValues db request scopes) := by
  refine mapM_ok fun term mem => ?_
  rw [rowRecord_state resolved distinct (resolved.order term mem)]
  cases cellValue db scopes term.field <;> rfl

theorem project_ok :
    (rowRecord db request scopes request.decodeProjection.fields).project request.outputProjection =
      .ok (rowRecord db request scopes request.outputProjection.fields) := by
  have kept : request.outputProjection.fields.foldlM (fun values field => do
      return OrderedMap.insert values field.id (← okOr .fieldUnloaded
        ((rowRecord db request scopes request.decodeProjection.fields).values.get? field.id)))
          OrderedMap.empty =
        (.ok (valuesOf db scopes request.outputProjection.fields) :
          Except RuntimeRecordErrorCode (OrderedMap FieldId (RuntimeValue φ))) := by
    refine foldlM_total (keepValue db scopes) (fun field mem values => ?_) _
    have found : (valuesOf db scopes request.decodeProjection.fields).get? field.id =
        some (cellValue db scopes field) :=
      valuesOf_get? resolved (fun _ => id) (resolved.output field mem)
    rw [rowRecord, found]
    rfl
  refine bind_eq_ok.mpr ⟨(), require_eq_ok.mpr (decide_eq_true ?_), bind_eq_ok.mpr
    ⟨(), require_eq_ok.mpr (decide_eq_true ?_), bind_eq_ok.mpr ⟨_, kept, rfl⟩⟩⟩
  · exact resolved.outputSchema.trans resolved.decodeSchema.symm
  · exact resolved.outputCollection.trans resolved.decodeCollection.symm

end

theorem encodeCursor_ok (readable : RowReadable texts db request scopes)
    (unranked : request.ranks = false) (score : Option φ) :
    encodeCursor texts request (rowValues db request scopes) score =
      .ok (rowCursor texts db request scopes) := by
  have same : cursorEnvelope texts request (rowValues db request scopes) score =
      cursorEnvelope texts request (rowValues db request scopes) none := by
    simp [cursorEnvelope, unranked]
  rw [encodeCursor, same]
  exact bind_eq_ok.mpr ⟨(), require_eq_ok.mpr (decide_eq_true readable.short), rfl⟩

/-- The edge of a row. -/
theorem runtimeEdge_ok (resolved : Resolved schema collection request)
    (distinct : DistinctFields collection) (readable : RowReadable texts db request scopes)
    (unranked : request.ranks = false) :
    runtimeEdge texts request (rowRecord db request scopes request.decodeProjection.fields,
        rowScore db request scopes) =
      .ok (rowEdge texts db request scopes) := by
  refine bind_eq_ok.mpr ⟨_, recordPosition_ok resolved distinct, bind_eq_ok.mpr
    ⟨_, encodeCursor_ok readable unranked _, bind_eq_ok.mpr ⟨_, ?_, rfl⟩⟩⟩
  exact congrArg (Except.mapError _) (project_ok resolved)

end Record

/-! ### Positions of rows -/

def RuntimeEffectiveOrderTerm.along (backward : Bool) (term : RuntimeEffectiveOrderTerm) :
    RuntimeEffectiveOrderTerm :=
  if backward then term.reversed else term

@[simp] theorem along_field (backward : Bool) (term : RuntimeEffectiveOrderTerm) :
    (term.along backward).field = term.field := by
  cases backward <;> rfl

theorem effectiveTerms_eq (order : RuntimeOrder) (backward : Bool) :
    effectiveTerms order backward = order.terms.map (·.along backward) := by
  cases backward
  · simp [effectiveTerms, RuntimeEffectiveOrderTerm.along]
  · rfl

/-- The values of a position do not depend on the direction. -/
theorem branchBinds_map (turn : RuntimeEffectiveOrderTerm → RuntimeEffectiveOrderTerm)
    (prior rest : Position φ) :
    branchBinds (prior.map fun p => (turn p.1, p.2)) (rest.map fun p => (turn p.1, p.2)) =
      branchBinds prior rest := by
  have binds (pairs : Position φ) :
      positionBinds (pairs.map fun p => (turn p.1, p.2)) = positionBinds pairs := by
    rw [positionBinds, List.filterMap_map]
    rfl
  induction rest generalizing prior with
  | nil => rfl
  | cons p rest ih =>
    have extended : (prior.map fun p => (turn p.1, p.2)) ++ [(turn p.1, p.2)] =
        (prior ++ [p]).map fun p => (turn p.1, p.2) := by simp
    rw [List.map_cons, branchBinds, branchBinds, extended, binds, ih]

section Positions

variable [LinearOrder δ]

variable (db request) in
def rowKey (scopes : Scopes (Row δ)) : Key (request.order.terms.map (·.keyset)) δ :=
  ⟨request.order.terms.map (readCell db.outward scopes), by rw [List.length_map, List.length_map]⟩

variable (db request) in
def rowPosition (backward : Bool) (scopes : Scopes (Row δ)) : Position φ :=
  request.order.terms.map fun term => (term.along backward, cellValue db scopes term.field)

omit [LinearOrder δ] in
theorem zip_rowValues (backward : Bool) :
    (effectiveTerms request.order backward).zip (rowValues db request scopes) =
      rowPosition db request backward scopes := by
  rw [effectiveTerms_eq, rowValues, List.zip_map']
  rfl

omit [LinearOrder δ] in
/-- The position of a row binds the same values in both directions. -/
theorem branchBinds_rowPosition (backward : Bool) :
    branchBinds [] (request.order.terms.zip (rowValues db request scopes)) =
      branchBinds [] (rowPosition db request backward scopes) := by
  have forward : request.order.terms.zip (rowValues db request scopes) =
      rowPosition db request false scopes := zip_rowValues false
  have turned : rowPosition db request backward scopes =
      (rowPosition db request false scopes).map fun p => (p.1.along backward, p.2) := by
    rw [rowPosition, rowPosition, List.map_map]
    rfl
  rw [forward, turned]
  exact (branchBinds_map (·.along backward) [] _).symm

theorem keyset_along (backward : Bool) (term : RuntimeEffectiveOrderTerm) :
    (term.along backward).keyset = if backward then term.keyset.reversed else term.keyset := by
  obtain ⟨field, direction, nulls⟩ := term
  cases backward <;> cases direction <;> cases nulls <;> rfl

/-- The comparison of tuples in a direction of reading. -/
theorem compareTuple_along (backward : Bool) (x y : Scopes (Row δ)) :
    compareTuple db.nullsLow (request.order.terms.map fun term => (term.along backward).keyset)
        (rowKey db request x).1 (rowKey db request y).1 =
      along backward (compareKey db.nullsLow _) (rowKey db request x) (rowKey db request y) := by
  simp only [keyset_along]
  cases backward with
  | false => rfl
  | true =>
    simp only [if_true]
    rw [show (request.order.terms.map fun term => term.keyset.reversed) =
      (request.order.terms.map (·.keyset)).map Query.KeysetOrderColumn.reversed by simp]
    exact Query.compareTuple_reversed _ _ _

theorem compareRows_eq (unranked : request.ranks = false) (x y : Scopes (Row δ)) :
    db.compareRows request x y =
      along request.page.backward (compareKey db.nullsLow _) (rowKey db request x)
        (rowKey db request y) := by
  have cells (scopes : Scopes (Row δ)) :
      (request.order.terms.map fun term => readCell db.outward scopes
        (term.along request.page.backward)) = (rowKey db request scopes).1 := by
    simp only [readCell, along_field]
    rfl
  rw [RuntimeDatabase.compareRows, unranked, ← compareTuple_along, effectiveTerms_eq]
  simp only [List.map_map, Function.comp_def, cells]
  rfl

/-- A row's place relative to the cursor of another is given by their keys. -/
theorem placeOf_rowPosition {at_ : Scopes (Row δ)} (readable : RowReadable texts db request at_)
    (backward : Bool) :
    placeOf db.nullsLow db.backend db.engine db.outward scopes
        (rowPosition db request backward at_) =
      along backward (compareKey db.nullsLow _) (rowKey db request scopes)
        (rowKey db request at_) := by
  rw [← compareTuple_along, placeOf, rowPosition, List.map_map, List.map_map, List.map_map]
  refine congrArg₂ (compareTuple db.nullsLow _) ?_ ?_
  · exact List.map_congr_left fun term _ => by simp [readCell]
  · refine List.map_congr_left fun term mem => ?_
    simpa [readCell, cellOf] using readable.returns term mem

end Positions

/-! ### Selected rows -/

section Selected

variable (db request) in
def matchingRows : List (Scopes (Row δ)) := db.selected request (planBase db.backend request)

/-- A condition of the filter or the search means the same whatever is bound after it. -/
theorem holds_base (proper : ProperPredicate schema request.predicate) {more : List (SqlValue φ)}
    {condition : ReadCondition} (mem : condition ∈ (planBase db.backend request).conditions) :
    db.holds ((planBase db.backend request).values ++ more) scopes condition =
      db.holds (planBase db.backend request).values scopes condition := by
  simp only [planBase, List.mem_append, Option.mem_toList, Option.map_eq_some_iff] at mem ⊢
  rcases mem with ⟨predicate, given, rfl⟩ | ⟨score, given, rfl⟩
  · obtain ⟨owner, built⟩ := proper predicate given
    simp only [RuntimeDatabase.holds, given, Option.elim_some, List.append_assoc]
    refine factor_rebound built _ ?_ ?_
    · rw [List.drop_left]
      exact List.prefix_append _ _
    · rw [List.drop_left]
      exact List.prefix_append _ _
  · simp only [RuntimeDatabase.holds, RuntimeDatabase.scoreBind, given, Option.map_some,
      Option.toList_some]
    rw [List.getElem?_append_left]
    simp

variable [LinearOrder δ]

/-- The rows of a page are the selected ones beyond its cursor. -/
theorem selected_beyond (proper : ProperPredicate schema request.predicate)
    (sorts : Sorts db.engine db.backend request.order.terms) (filled : request.order.terms ≠ [])
    {at_ : Scopes (Row δ)} (readable : RowReadable texts db request at_) :
    db.selected request (planBeyond db.backend request (rowValues db request at_) none) =
      (matchingRows db request).filter fun scopes =>
        along request.page.backward (compareKey db.nullsLow _) (rowKey db request scopes)
          (rowKey db request at_) = .gt := by
  have plan : planBeyond db.backend request (rowValues db request at_) none =
      ⟨(planBase db.backend request).conditions ++ [.factor (afterFactor db.backend
          (planBase db.backend request).values.length
          (rowPosition db request request.page.backward at_))],
        (planBase db.backend request).values ++
          branchBinds [] (rowPosition db request request.page.backward at_)⟩ := by
    simp [planBeyond, zip_rowValues]
  have sorted : Sorts db.engine db.backend
      ((rowPosition db request request.page.backward at_).map Prod.fst) := by
    intro term mem
    simp only [rowPosition, List.map_map, List.mem_map, Function.comp_apply] at mem
    obtain ⟨own, among, rfl⟩ := mem
    rw [along_field]
    exact sorts own among
  rw [plan, matchingRows, RuntimeDatabase.selected, RuntimeDatabase.selected, List.filter_filter]
  refine List.filter_congr fun scopes _ => ?_
  rw [← Bool.decide_and, decide_eq_decide]
  have base : ((planBase db.backend request).conditions.map (db.holds
      ((planBase db.backend request).values ++
        branchBinds [] (rowPosition db request request.page.backward at_)) scopes)) =
      (planBase db.backend request).conditions.map
        (db.holds (planBase db.backend request).values scopes) :=
    List.map_congr_left fun condition mem => holds_base proper mem
  have beyond : (afterFactor db.backend (planBase db.backend request).values.length
        (rowPosition db request request.page.backward at_)).eval (queryMeaning db.engine
          ((planBase db.backend request).values ++
            branchBinds [] (rowPosition db request request.page.backward at_)) db.outward db.tables)
          scopes = .holds ↔
      along request.page.backward (compareKey db.nullsLow _) (rowKey db request scopes)
        (rowKey db request at_) = .gt := by
    rw [← placeOf_rowPosition readable]
    refine afterFactor_eval (by simpa [rowPosition] using filled) sorted ?_ db.nullsLow
    exact ⟨[], by rw [List.append_nil, List.drop_left]⟩
  rw [Truth.all_eq_holds, Truth.all_eq_holds, List.map_append, base, List.map_cons, List.map_nil,
    List.forall_mem_append, List.forall_mem_singleton, RuntimeDatabase.holds, beyond, and_comm]

end Selected

/-! ### A page -/

section Page

variable [LinearOrder δ]

variable (db request) in
/-- The selected rows in the order in which a direction of reading meets them. -/
def readingOrder (backward : Bool) : List (Scopes (Row δ)) :=
  sortOn (along backward (compareKey db.nullsLow _)) (rowKey db request) (matchingRows db request)

/-- What the pages of a request rely on: a supported backend and orders that it compares as
its values are ordered, identifiers as validation leaves them, rows that differ in their
keys and can be read, and limits that leave room for cursors. -/
structure Pageable (texts : ValueTexts φ) (db : RuntimeDatabase φ δ) (schema : RuntimeSchema)
    (collection : RuntimeCollection) (request : RuntimeReadRequest φ) : Prop where
  supported : db.backend = .sqlite ∨ db.backend = .postgres
  resolved : Resolved schema collection request
  distinctFields : DistinctFields collection
  proper : ProperPredicate schema request.predicate
  unranked : request.ranks = false
  filled : request.order.terms ≠ []
  sorts : Sorts db.engine db.backend request.order.terms
  fingerprint : validFingerprint request.schema = true
  collectionId : validStableId request.collection.id = true
  fieldIds : ∀ term ∈ request.order.terms, validStableId term.field.id = true
  distinct : Distinct (rowKey db request) (matchingRows db request)
  readable : ∀ scopes ∈ matchingRows db request, RowReadable texts db request scopes
  positive : 0 < request.page.size
  capped : (maxEncodedCursor request.limits).isSome = true
  values : request.order.terms.length ≤ request.limits.maxCursorValues
  base : (planBase db.backend request).values.length ≤ request.limits.maxBindParameters
  cursorBinds : (request.predicate.map (·.binds)).getD 0 + request.order.terms.length < 2 ^ 64 ∧
    (request.predicate.map (·.binds)).getD 0 + request.order.terms.length ≤
      request.limits.maxBindParameters

theorem mem_readingOrder {backward : Bool} : scopes ∈ readingOrder db request backward ↔
    scopes ∈ matchingRows db request :=
  (sortOn_perm _).mem_iff

/-- The rows that a statement returns, when it selects some of the matching ones. -/
theorem fetch_eq (unranked : request.ranks = false)
    (distinct : Distinct (rowKey db request) (matchingRows db request)) {read : PlannedRead φ}
    {p : Scopes (Row δ) → Bool} (selects : db.selected request read = (matchingRows db request).filter p) :
    db.fetch request read = ((readingOrder db request request.page.backward).filter p).take
      (request.page.size + 1).toNat := by
  have sorted (rows : List (Scopes (Row δ))) : sortOn (db.compareRows request) id rows =
      sortOn (along request.page.backward (compareKey db.nullsLow _)) (rowKey db request) rows := by
    simp only [sortOn, compareRows_eq unranked, id]
  rw [RuntimeDatabase.fetch, selects, sorted, sortOn_filter distinct]
  rfl

/-- The cursor of a row is read back. -/
theorem decodeCursor_rowCursor (pageable : Pageable texts db schema collection request)
    (mem : scopes ∈ matchingRows db request) :
    decodeCursor texts request (rowCursor texts db request scopes) =
      .ok (rowValues db request scopes, none) := by
  have readable := pageable.readable scopes mem
  obtain ⟨longest, capped⟩ := Option.isSome_iff_exists.mp pageable.capped
  have survives : ∀ value ∈ rowValues db request scopes, value.Survives texts := by
    simp only [rowValues, List.mem_map]
    rintro _ ⟨term, among, rfl⟩
    exact readable.survives term among
  have fits : List.Forall₂ (fun value term => FitsField value term.field)
      (rowValues db request scopes) request.order.terms := by
    rw [rowValues, List.forall₂_map_left_iff, List.forall₂_same]
    exact fun term among => (readable.value (pageable.resolved.order term among)).2
  exact decode_encodeCursor ⟨pageable.fingerprint, pageable.collectionId, pageable.fieldIds, survives⟩
    pageable.unranked capped fits (by simpa [rowValues] using pageable.values)
    (encodeCursor_ok readable pageable.unranked none)

omit [LinearOrder δ] in
/-- A cursor that is accepted has a value for each term of the order. -/
theorem decodeCursor_filled (texts : ValueTexts φ) {request : RuntimeReadRequest φ}
    (filled : request.order.terms ≠ []) : CursorFilled request (decodeCursor texts request) := by
  intro text _ cursor score decoded
  obtain ⟨_, _, rest⟩ := bind_eq_ok.mp decoded
  obtain ⟨_, _, rest⟩ := bind_eq_ok.mp rest
  obtain ⟨_, _, rest⟩ := bind_eq_ok.mp rest
  obtain ⟨envelope, _, rest⟩ := bind_eq_ok.mp rest
  obtain ⟨_, _, rest⟩ := bind_eq_ok.mp rest
  obtain ⟨_, _, rest⟩ := bind_eq_ok.mp rest
  obtain ⟨_, _, rest⟩ := bind_eq_ok.mp rest
  obtain ⟨_, aligned, rest⟩ := bind_eq_ok.mp rest
  obtain ⟨_, _, made⟩ := bind_eq_ok.mp rest
  cases made
  have aligned := require_eq_ok.mp aligned
  simp only [Bool.and_eq_true, decide_eq_true_eq] at aligned
  exact ⟨filled, aligned.1.2⟩

/-- What a position in the reading order is planned as. -/
theorem planRows_ok (pageable : Pageable texts db schema collection request)
    {past rest : List (Scopes (Row δ))}
    (whole : past ++ rest = readingOrder db request request.page.backward)
    (cursor : request.page.cursor = past.getLast?.map (rowCursor texts db request)) :
    ∃ read, planRows db.backend request (decodeCursor texts request) = .ok read ∧
      read.values.length ≤ request.limits.maxBindParameters ∧
      db.fetch request read = rest.take (request.page.size + 1).toNat := by
  rcases List.eq_nil_or_concat' past with rfl | ⟨earlier, last, rfl⟩
  · refine ⟨planBase db.backend request, ?_, pageable.base, ?_⟩
    · rw [planRows, cursor]
      rfl
    · have every : db.selected request (planBase db.backend request) =
          (matchingRows db request).filter fun _ => true := by simp [matchingRows]
      rw [fetch_eq pageable.unranked pageable.distinct every, ← whole]
      simp
  · rw [List.getLast?_concat] at cursor
    rw [List.append_assoc, List.singleton_append] at whole
    have mem : last ∈ matchingRows db request := by
      rw [← @mem_readingOrder _ _ db request last _ request.page.backward, ← whole]
      simp
    have readable := pageable.readable last mem
    refine ⟨planBeyond db.backend request (rowValues db request last) none, ?_, ?_, ?_⟩
    · have length : (rowValues db request last).length = request.order.terms.length := by
        simp [rowValues]
      rw [planRows, cursor]
      simp only [Option.map_some, decodeCursor_rowCursor pageable mem]
      refine bind_eq_ok.mpr ⟨_, rfl, bind_eq_ok.mpr ⟨(), require_eq_ok.mpr ?_, rfl⟩⟩
      rw [length]
      simpa using pageable.cursorBinds
    · have bindable := readable.bindable
      rw [branchBinds_rowPosition request.page.backward] at bindable
      simpa [planBeyond, zip_rowValues] using bindable
    · have increasing : Increasing (along request.page.backward (compareKey db.nullsLow _))
          (rowKey db request) (readingOrder db request request.page.backward) :=
        increasing_sortOn pageable.distinct
      rw [fetch_eq pageable.unranked pageable.distinct
        (selected_beyond pageable.proper pageable.sorts pageable.filled readable)]
      rw [← whole] at increasing ⊢
      exact congrArg (List.take _) increasing.beyond_mid.1

theorem requestPlan_ok (pageable : Pageable texts db schema collection request)
    {read : PlannedRead φ}
    (planned : planRows db.backend request (decodeCursor texts request) = .ok read)
    (bounded : read.values.length ≤ request.limits.maxBindParameters) :
    requestPlan db.backend request (decodeCursor texts request) =
      .ok ⟨read, if request.includeTotalCount then some (planBase db.backend request) else none⟩ := by
  have supported : (decide (db.backend = .sqlite) || decide (db.backend = .postgres)) = true := by
    simpa using pageable.supported
  have count : planCount db.backend request =
      .ok (if request.includeTotalCount then some (planBase db.backend request) else none) := by
    rw [planCount]
    split
    · exact bind_eq_ok.mpr ⟨(), require_eq_ok.mpr (decide_eq_true pageable.base), rfl⟩
    · rfl
  exact bind_eq_ok.mpr ⟨(), require_eq_ok.mpr supported, bind_eq_ok.mpr ⟨_, planned, bind_eq_ok.mpr
    ⟨(), require_eq_ok.mpr (decide_eq_true bounded), bind_eq_ok.mpr ⟨_, count, rfl⟩⟩⟩⟩

variable (texts db request) in
def pageOf (rest : List (Scopes (Row δ))) : RuntimeConnection φ :=
  let shown := rest.take request.page.size.toNat
  connectionOf request
    ((if request.page.backward then shown.reverse else shown).map (rowEdge texts db request))
    (request.page.size.toNat < rest.length)
    (if request.includeTotalCount then some (matchingRows db request).length else none)

/-- A read returns the rows behind those that lead to its cursor. -/
theorem executeRuntimeRead_ok (pageable : Pageable texts db schema collection request)
    {past rest : List (Scopes (Row δ))}
    (whole : past ++ rest = readingOrder db request request.page.backward)
    (cursor : request.page.cursor = past.getLast?.map (rowCursor texts db request)) :
    executeRuntimeRead texts request db = .ok (pageOf texts db request rest) := by
  obtain ⟨read, planned, bounded, fetched⟩ := planRows_ok pageable whole cursor
  have positive := pageable.positive
  have window : (request.page.size + 1).toNat = request.page.size.toNat + 1 := by omega
  have shown : (rest.take (request.page.size + 1).toNat).take request.page.size.toNat =
      rest.take request.page.size.toNat := by
    rw [List.take_take, window, Nat.min_eq_left (Nat.le_succ _)]
  have lookahead : request.page.size.toNat < (rest.take (request.page.size + 1).toNat).length ↔
      request.page.size.toNat < rest.length := by
    rw [List.length_take, window]
    omega
  have among : ∀ scopes ∈ rest.take request.page.size.toNat, scopes ∈ matchingRows db request := by
    intro scopes mem
    rw [← @mem_readingOrder _ _ db request scopes _ request.page.backward, ← whole]
    exact List.mem_append_right _ (List.mem_of_mem_take mem)
  have decoded : (rest.take request.page.size.toNat).mapM (decodeEntry request db) =
      .ok ((rest.take request.page.size.toNat).map fun scopes =>
        (rowRecord db request scopes request.decodeProjection.fields, rowScore db request scopes)) :=
    mapM_ok fun scopes mem => decodeEntry_ok (pageable.readable scopes (among scopes mem))
  have edges (rows : List (Scopes (Row δ))) (inside : ∀ scopes ∈ rows, scopes ∈ matchingRows db request) :
      (rows.map fun scopes => (rowRecord db request scopes request.decodeProjection.fields,
          rowScore db request scopes)).mapM (runtimeEdge texts request) =
        .ok (rows.map (rowEdge texts db request)) := by
    rw [List.mapM_map]
    exact mapM_ok fun scopes mem => runtimeEdge_ok pageable.resolved pageable.distinctFields
      (pageable.readable scopes (inside scopes mem)) pageable.unranked
  have turned : (if request.page.backward then
        ((rest.take request.page.size.toNat).map fun scopes =>
          (rowRecord db request scopes request.decodeProjection.fields,
            rowScore db request scopes)).reverse
      else (rest.take request.page.size.toNat).map fun scopes =>
        (rowRecord db request scopes request.decodeProjection.fields, rowScore db request scopes)) =
      (if request.page.backward then (rest.take request.page.size.toNat).reverse
        else rest.take request.page.size.toNat).map fun scopes =>
          (rowRecord db request scopes request.decodeProjection.fields,
            rowScore db request scopes) := by
    split
    · rw [List.map_reverse]
    · rfl
  have inside : ∀ scopes ∈ (if request.page.backward then
      (rest.take request.page.size.toNat).reverse else rest.take request.page.size.toNat),
      scopes ∈ matchingRows db request := by
    split
    · exact fun scopes mem => among scopes (List.mem_reverse.mp mem)
    · exact among
  refine bind_eq_ok.mpr ⟨_, requestPlan_ok pageable planned bounded, ?_⟩
  simp only [fetched, shown, decoded, lookahead, Except.mapError, bind, Except.bind, pure, Except.pure]
  rw [turned, edges _ inside, pageOf]
  cases request.includeTotalCount <;> rfl

end Page

end GraphqlOrm.Runtime
