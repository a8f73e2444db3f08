import GraphqlOrm.Runtime.ReadPages
import GraphqlOrm.Runtime.RelationGrants

/-!
# Walking through runtime reads

A reader that follows the cursors of a read without ranking, forward from the start or
backward from the end, meets every selected row once and in order.
-/
namespace GraphqlOrm.Runtime

open Outcome Paging Bytes
open Schema (DatabaseBackend)
open Sql
open Query (compareKey)

variable {φ δ : Type}

/-! ### Requests of a walk -/

/-- What the requests of a walk share. -/
structure ReadInputs (φ : Type) where
  collection : RuntimeCollectionHandle
  projection : RuntimeProjection
  predicate : Option (RuntimePredicate φ)
  order : RuntimeOrder
  includeTotalCount : Bool
  limits : RuntimeQueryLimits
  search : Option (RuntimeSearchRequest φ)

def RuntimeSchema.openRead (schema : RuntimeSchema) (inputs : ReadInputs φ)
    (page : RuntimePageRequest) : Except RuntimeQueryError (RuntimeReadRequest φ) := do
  let request ← schema.runtimeReadRequest inputs.collection inputs.projection inputs.predicate
    inputs.order page inputs.includeTotalCount inputs.limits
  match inputs.search with
  | none => return request
  | some search => request.withSearch search

def pageAt (backward : Bool) (size : Int) (cursor : Option String) : RuntimePageRequest :=
  if backward then .last size cursor else .first size cursor

section PageAt

variable (backward : Bool) (size : Int) (cursor : Option String)

@[simp] theorem pageAt_size : (pageAt backward size cursor).size = size := by
  cases backward <;> rfl

@[simp] theorem pageAt_cursor : (pageAt backward size cursor).cursor = cursor := by
  cases backward <;> rfl

@[simp] theorem pageAt_backward : (pageAt backward size cursor).backward = backward := by
  cases backward <;> rfl

end PageAt

namespace RuntimeConnection

variable (page : RuntimeConnection φ)

def nodes : List (RuntimeRecord φ) := page.edges.map (·.node)

/-- The cursor that a reader follows, if the page says that there is more. -/
def nextCursor (backward : Bool) : Option (Option String) :=
  if backward then
    if page.pageInfo.hasPreviousPage then some page.pageInfo.startCursor else none
  else if page.pageInfo.hasNextPage then some page.pageInfo.endCursor else none

/-- A page lies between two parts of the rows, and its flags say whether there is anything
in them. -/
structure Windows (rows before after : List (RuntimeRecord φ)) : Prop where
  whole : rows = before ++ page.nodes ++ after
  previous : page.pageInfo.hasPreviousPage = true ↔ before ≠ []
  next : page.pageInfo.hasNextPage = true ↔ after ≠ []

end RuntimeConnection

section Walk

variable [LinearOrder δ] (schema : RuntimeSchema) (texts : ValueTexts φ) (db : RuntimeDatabase φ δ)
  (inputs : ReadInputs φ)

def readPage (page : RuntimePageRequest) : Except ReadFailure (RuntimeConnection φ) := do
  let request ← (schema.openRead inputs page).mapError .error
  executeRuntimeRead texts request db

def walkReads (size : Int) (backward : Bool) (calls : Nat) :
    Except ReadFailure (Option (List (RuntimeConnection φ))) :=
  walk (fun _ cursor => readPage schema texts db inputs (pageAt backward size cursor))
    (fun page => page.nextCursor backward) calls none

/-- Walks in both directions end and return the rows in order, every page of them is a
window, and counts are those of the rows. -/
def EnumeratesRows (size : Int) (rows : List (RuntimeRecord φ)) : Prop :=
  ∀ calls > rows.length, ∀ backward, ∃ pages,
    walkReads schema texts db inputs size backward calls = .ok (some pages) ∧
      (if backward then pages.reverse else pages).flatMap (·.nodes) = rows ∧
      ∀ page ∈ pages, (∃ before after, page.Windows rows before after) ∧
        page.totalCount = if inputs.includeTotalCount then some rows.length else none

end Walk

/-! ### Pages in any place -/

section Steps

variable {texts : ValueTexts φ} {db : RuntimeDatabase φ δ} {schema : RuntimeSchema}
  {collection : RuntimeCollection} {request : RuntimeReadRequest φ} {inputs : ReadInputs φ}

theorem Resolved.at_page (resolved : Resolved schema collection request) (page : RuntimePageRequest) :
    Resolved schema collection { request with page } :=
  ⟨resolved.found, resolved.table, resolved.fingerprint, resolved.fields, resolved.decodeSchema,
    resolved.decodeCollection, resolved.kinds, resolved.outputSchema, resolved.outputCollection,
    resolved.output, resolved.order⟩

variable {scopes : Scopes (Row δ)}

theorem RowReadable.at_page (readable : RowReadable texts db request scopes)
    (page : RuntimePageRequest) : RowReadable texts db { request with page } scopes :=
  ⟨readable.decodes, readable.scored, readable.returns, readable.survives, readable.short,
    readable.bindable⟩

variable (db request) in
def rowNode (scopes : Scopes (Row δ)) : RuntimeRecord φ :=
  rowRecord db request scopes request.outputProjection.fields

section PageOf

variable {page : RuntimePageRequest} {rest : List (Scopes (Row δ))}

section

variable (backward : Bool) (turned : request.page.backward = backward)
include backward turned

theorem nodes_pageOf :
    (pageOf texts db request rest).nodes =
      (if backward then (rest.take request.page.size.toNat).reverse
        else rest.take request.page.size.toNat).map (rowNode db request) := by
  rw [pageOf, RuntimeConnection.nodes, connectionOf, turned, List.map_map]
  rfl

theorem nextCursor_pageOf :
    (pageOf texts db request rest).nextCursor backward =
      if request.page.size.toNat < rest.length then
        some ((rest.take request.page.size.toNat).getLast?.map (rowCursor texts db request))
      else none := by
  rw [pageOf, RuntimeConnection.nextCursor, connectionOf, turned]
  generalize rest.take request.page.size.toNat = shown
  cases backward <;> simp [Function.comp_def, rowEdge]

/-- A page between the rows met before and the rest. -/
theorem windows_pageOf {past : List (Scopes (Row δ))} {rows : List (RuntimeRecord φ)}
    (whole : (if backward then rows.reverse else rows) = (past ++ rest).map (rowNode db request))
    (cursor : request.page.cursor = past.getLast?.map (rowCursor texts db request)) :
    ∃ before after, (pageOf texts db request rest).Windows rows before after := by
  have present : request.page.cursor.isSome = true ↔ past ≠ [] := by
    rw [cursor, Option.isSome_map, List.getLast?_isSome]
  have more : (rest.drop request.page.size.toNat).map (rowNode db request) ≠ [] ↔
      request.page.size.toNat < rest.length := by simp
  have parts : (past ++ rest).map (rowNode db request) =
      past.map (rowNode db request) ++
        (rest.take request.page.size.toNat).map (rowNode db request) ++
          (rest.drop request.page.size.toNat).map (rowNode db request) := by
    rw [List.append_assoc, ← List.map_append, List.take_append_drop, ← List.map_append]
  cases backward with
  | false =>
    refine ⟨past.map (rowNode db request), (rest.drop request.page.size.toNat).map (rowNode db request),
      ?_, ?_, ?_⟩
    · rw [nodes_pageOf false turned, if_neg (by simp), ← parts]
      exact whole
    · rw [pageOf, connectionOf, turned, ne_eq, List.map_eq_nil_iff]
      exact present
    · rw [more, pageOf, connectionOf, turned]
      exact decide_eq_true_iff
  | true =>
    -- What is met later stands before the page.
    refine ⟨((rest.drop request.page.size.toNat).map (rowNode db request)).reverse,
      (past.map (rowNode db request)).reverse, ?_, ?_, ?_⟩
    · rw [nodes_pageOf true turned, if_pos rfl, List.map_reverse, List.append_assoc,
        ← List.reverse_append, ← List.reverse_append, ← parts, ← whole, if_pos rfl,
        List.reverse_reverse]
    · rw [ne_eq, List.reverse_eq_nil_iff, ← ne_eq, more, pageOf, connectionOf, turned]
      exact decide_eq_true_iff
    · rw [ne_eq, List.reverse_eq_nil_iff, List.map_eq_nil_iff, pageOf, connectionOf, turned]
      exact present

end

end PageOf

variable [LinearOrder δ]

/-- All pages of one size rely on the same facts. -/
theorem Pageable.at_page (pageable : Pageable texts db schema collection request)
    (page : RuntimePageRequest) (same : page.size = request.page.size) :
    Pageable texts db schema collection { request with page } where
  supported := pageable.supported
  resolved := pageable.resolved.at_page page
  distinctFields := pageable.distinctFields
  proper := pageable.proper
  unranked := pageable.unranked
  filled := pageable.filled
  sorts := pageable.sorts
  fingerprint := pageable.fingerprint
  collectionId := pageable.collectionId
  fieldIds := pageable.fieldIds
  distinct := pageable.distinct
  readable := fun scopes mem => (pageable.readable scopes mem).at_page page
  positive := same ▸ pageable.positive
  capped := pageable.capped
  values := pageable.values
  base := pageable.base
  cursorBinds := pageable.cursorBinds

omit [LinearOrder δ] in
/-- A written cursor is short enough for the next request. -/
theorem rowCursor_short {longest : Nat} (readable : RowReadable texts db request scopes)
    (capped : maxEncodedCursor request.limits = some longest) :
    (rowCursor texts db request scopes).utf8ByteSize ≤ longest := by
  have short := readable.short
  rw [maxEncodedCursor] at capped
  split at capped
  · cases capped
    rw [rowCursor, String.utf8ByteSize_append, utf8ByteSize_hexEncode]
    omega
  · cases capped

/-- Once the first page is accepted, so is every page at the cursor of a row. -/
theorem openRead_ok (backward : Bool) {size : Int}
    (ordered : ∀ term ∈ inputs.order.terms, ResolvesTo schema inputs.collection term.field)
    (opened : schema.openRead inputs (.first size none) = .ok request) :
    (∃ collection, Resolved schema collection request) ∧ request.page = .first size none ∧
      0 < size ∧ request.limits = inputs.limits ∧ request.predicate = inputs.predicate ∧
      request.order = inputs.order ∧ request.collection = inputs.collection ∧
      request.search = inputs.search ∧ request.includeTotalCount = inputs.includeTotalCount ∧
      ∃ longest, maxEncodedCursor inputs.limits = some longest ∧
        ∀ cursor : Option String, (cursor.all fun text => text.utf8ByteSize ≤ longest) = true →
          schema.openRead inputs (pageAt backward size cursor) =
            .ok { request with page := pageAt backward size cursor } := by
  obtain ⟨plain, made, rest⟩ := bind_eq_ok.mp opened
  obtain ⟨collection, decodeProjection, longest, resolved, rfl, positive, capped, others⟩ :=
    runtimeReadRequest_ok ordered made
  have reopened (cursor : Option String)
      (short : (cursor.all fun text => text.utf8ByteSize ≤ longest) = true) :=
    others (pageAt backward size cursor) (pageAt_size _ _ _) (by rw [pageAt_cursor]; exact short)
  cases search : inputs.search with
  | none =>
    rw [search] at rest
    cases rest
    refine ⟨⟨collection, resolved⟩, rfl, positive, rfl, rfl, rfl, rfl, rfl, rfl, longest, capped,
      fun cursor short => bind_eq_ok.mpr ⟨_, reopened cursor short, ?_⟩⟩
    rw [search]
    rfl
  | some search' =>
    rw [search] at rest
    obtain ⟨_, fits, rest⟩ := bind_eq_ok.mp rest
    cases rest
    refine ⟨⟨collection, ⟨resolved.found, resolved.table, resolved.fingerprint, resolved.fields,
        resolved.decodeSchema, resolved.decodeCollection, resolved.kinds, resolved.outputSchema,
        resolved.outputCollection, resolved.output, resolved.order⟩⟩, rfl, positive, rfl, rfl, rfl,
      rfl, rfl, rfl, longest, capped,
      fun cursor short => bind_eq_ok.mpr ⟨_, reopened cursor short, ?_⟩⟩
    rw [search]
    exact bind_eq_ok.mpr ⟨(), fits, rfl⟩

/-! ### Both walks -/

theorem readPage_ok (pageable : Pageable texts db schema collection request) {longest : Nat}
    {backward : Bool} {size : Int}
    (capped : maxEncodedCursor request.limits = some longest) (sized : request.page.size = size)
    (opened : ∀ cursor : Option String, (cursor.all fun text => text.utf8ByteSize ≤ longest) = true →
      schema.openRead inputs (pageAt backward size cursor) =
        .ok { request with page := pageAt backward size cursor })
    {past rest : List (Scopes (Row δ))} (whole : past ++ rest = readingOrder db request backward) :
    readPage schema texts db inputs
        (pageAt backward size (past.getLast?.map (rowCursor texts db request))) =
      .ok (pageOf texts db { request with
        page := pageAt backward size (past.getLast?.map (rowCursor texts db request)) } rest) := by
  have short : ((past.getLast?.map (rowCursor texts db request)).all fun text =>
      decide (text.utf8ByteSize ≤ longest)) = true := by
    cases final : past.getLast? with
    | none => rfl
    | some last =>
      have among : last ∈ matchingRows db request := by
        rw [← @mem_readingOrder _ _ db request last _ backward, ← whole]
        exact List.mem_append_left _ (List.mem_of_getLast? final)
      simpa using rowCursor_short (pageable.readable last among) capped
  have accepted : (schema.openRead inputs
      (pageAt backward size (past.getLast?.map (rowCursor texts db request)))).mapError
        ReadFailure.error = .ok { request with
          page := pageAt backward size (past.getLast?.map (rowCursor texts db request)) } := by
    rw [opened _ short]
    rfl
  refine bind_eq_ok.mpr ⟨_, accepted, ?_⟩
  have here := pageable.at_page (pageAt backward size
    (past.getLast?.map (rowCursor texts db request))) (by rw [pageAt_size, sized])
  refine executeRuntimeRead_ok here ?_ (pageAt_cursor _ _ _)
  rw [pageAt_backward]
  exact whole

theorem length_readingOrder (backward : Bool) :
    (readingOrder db request backward).length = (matchingRows db request).length :=
  (sortOn_perm _).length_eq

theorem readingOrder_reverse
    (distinct : Distinct (rowKey db request) (matchingRows db request)) :
    readingOrder db request true = (readingOrder db request false).reverse :=
  sortOn_swap distinct fun _ _ => rfl

/-- A walk in one direction meets the selected rows in its order. -/
theorem walkReads_covers (pageable : Pageable texts db schema collection request) {longest : Nat}
    {size : Int} (capped : maxEncodedCursor request.limits = some longest)
    (sized : request.page.size = size) (backward : Bool)
    (opened : ∀ cursor : Option String, (cursor.all fun text => text.utf8ByteSize ≤ longest) = true →
      schema.openRead inputs (pageAt backward size cursor) =
        .ok { request with page := pageAt backward size cursor })
    (counts : request.includeTotalCount = inputs.includeTotalCount) {calls : Nat}
    (enough : (matchingRows db request).length < calls) :
    ∃ pages, walkReads schema texts db inputs size backward calls = .ok (some pages) ∧
      pages.flatMap (fun page => if backward then page.nodes.reverse else page.nodes) =
        (readingOrder db request backward).map (rowNode db request) ∧
      ∀ page ∈ pages,
        (∃ before after, page.Windows ((readingOrder db request false).map (rowNode db request))
          before after) ∧
        page.totalCount = if inputs.includeTotalCount then some (matchingRows db request).length
          else none := by
  have turned : (if backward then
      ((readingOrder db request false).map (rowNode db request)).reverse
      else (readingOrder db request false).map (rowNode db request)) =
        (readingOrder db request backward).map (rowNode db request) := by
    cases backward with
    | false => rfl
    | true => rw [readingOrder_reverse pageable.distinct, if_pos rfl, List.map_reverse]
  -- A reader stands behind the rows it has met, with the cursor of the last one.
  refine walk_covers (fun cursor met => ∃ past rest, past ++ rest = readingOrder db request backward ∧
      met = past.map (rowNode db request) ∧
      cursor = past.getLast?.map (rowCursor texts db request)) ?_ (List.nil_append _)
    ⟨[], _, rfl, rfl, rfl⟩ (by rw [List.length_map, length_readingOrder]; exact enough)
  rintro _ cursor met left position ⟨past, rest, whole, rfl, rfl⟩
  obtain rfl : left = rest.map (rowNode db request) := by
    rw [← whole, List.map_append] at position
    exact List.append_cancel_left position
  have read := readPage_ok pageable capped sized opened whole
  have window := @windows_pageOf _ _ texts db { request with
    page := pageAt backward size (past.getLast?.map (rowCursor texts db request)) } rest backward
    (pageAt_backward _ _ _) past ((readingOrder db request false).map (rowNode db request))
    (by rw [turned, ← whole]; rfl) (pageAt_cursor _ _ _)
  have nodes := @nodes_pageOf _ _ texts db { request with
    page := pageAt backward size (past.getLast?.map (rowCursor texts db request)) } rest backward
    (pageAt_backward _ _ _)
  have next := @nextCursor_pageOf _ _ texts db { request with
    page := pageAt backward size (past.getLast?.map (rowCursor texts db request)) } rest backward
    (pageAt_backward _ _ _)
  have counted : (pageOf texts db { request with
      page := pageAt backward size (past.getLast?.map (rowCursor texts db request)) }
        rest).totalCount = if inputs.includeTotalCount then some (matchingRows db request).length
          else none := by
    rw [← counts]
    rfl
  rw [pageAt_size] at nodes next
  generalize pageOf texts db { request with
    page := pageAt backward size (past.getLast?.map (rowCursor texts db request)) } rest = page at *
  have shown : (if backward then page.nodes.reverse else page.nodes) =
      (rest.take size.toNat).map (rowNode db request) := by
    rw [nodes]
    cases backward <;> simp <;> rfl
  refine ⟨page, (rest.drop size.toNat).map (rowNode db request), read, ⟨window, counted⟩, ?_, ?_⟩
  · rw [shown, ← List.map_append, List.take_append_drop]
  · rw [next, shown]
    by_cases more : size.toNat < rest.length
    · have positive := pageable.positive
      have filled : rest.take size.toNat ≠ [] := by
        rw [ne_eq, List.take_eq_nil_iff]
        rintro (zero | rfl)
        · omega
        · simp at more
      refine .inr ⟨_, if_pos more, by simpa using filled, past ++ rest.take size.toNat,
        rest.drop size.toNat, ?_, List.map_append.symm, ?_⟩
      · rw [List.append_assoc, List.take_append_drop, whole]
      · rw [List.getLast?_append_of_ne_nil _ filled]
        rfl
    · exact .inl ⟨if_neg more, by simpa using more⟩

/-! ### Keys of rows -/

def DistinctKeys (collection : RuntimeCollection) (rows : List (Row δ)) : Prop :=
  rows.Pairwise fun a b => ∃ id ∈ collection.primaryKey, ∃ field, collection.field? id = some field ∧
    a field.physicalColumn ≠ b field.physicalColumn

/-- Every row has one document at most, and no column is called like those of documents. -/
structure SearchedOnce (db : RuntimeDatabase φ δ) (request : RuntimeReadRequest φ) : Prop where
  once : ∀ search ∈ request.search, ∀ row ∈ (db.tables request.collection.physicalTable).rows,
    (db.joinedDocuments search row).length ≤ 1
  apart : request.search.isSome = true →
    ∀ column ∈ (db.tables request.collection.physicalTable).columns,
      column ≠ SEARCH_KEY ∧ column ≠ SEARCH_SCORE

omit [LinearOrder δ] in
theorem rowScopes_read (searched : SearchedOnce db request) {row : Row δ}
    (mem : scopes ∈ db.rowScopes request row) {column : String}
    (own : column ∈ (db.tables request.collection.physicalTable).columns) :
    readIn db.outward scopes { column } = row column := by
  rw [RuntimeDatabase.rowScopes] at mem
  split at mem
  next none =>
    rw [List.mem_singleton] at mem
    subst mem
    exact readIn_own db.outward own
  next search given =>
    obtain ⟨document, _, rfl⟩ := List.mem_map.mp mem
    have apart := searched.apart (by rw [given]; rfl) column own
    simp [readIn, resolve, RuntimeDatabase.tableItem, own, apart.1, apart.2]

omit [LinearOrder δ] in
theorem rowScopes_once (searched : SearchedOnce db request) {row : Row δ}
    (mem : row ∈ (db.tables request.collection.physicalTable).rows) :
    (db.rowScopes request row).length ≤ 1 := by
  rw [RuntimeDatabase.rowScopes]
  split
  · exact Nat.le_refl 1
  next search given =>
    rw [List.length_map]
    exact searched.once search given row mem

omit [LinearOrder δ] in
/-- Rows with different primary keys have different tuples, since the order contains the key. -/
theorem distinct_rowKey (resolved : Resolved schema collection request)
    (conforms : Conforms schema db.tables) (searched : SearchedOnce db request)
    (complete : ∀ id ∈ collection.primaryKey, ∃ term ∈ request.order.terms, term.field.id = id)
    (keys : DistinctKeys collection (db.tables request.collection.physicalTable).rows) :
    Distinct (rowKey db request) (matchingRows db request) := by
  refine Distinct.filter (List.pairwise_flatMap.mpr ⟨fun row mem => ?_, ?_⟩) _
  · have few := rowScopes_once searched mem
    match db.rowScopes request row, few with
    | [], _ => exact .nil
    | [x], _ => exact List.pairwise_singleton _ _
  · refine keys.imp ?_
    rintro a b ⟨id, key, declared, found, differ⟩ x left y right same
    obtain ⟨term, mem, named⟩ := complete id key
    obtain ⟨owner, known, own, _⟩ :=
      resolveField_ok (resolved.fields term.field (resolved.order term mem))
    obtain rfl : collection = owner := Option.some.inj (resolved.found.symm.trans known)
    have column := own.column_mem conforms (List.mem_of_find?_eq_some known)
    obtain ⟨_, declared', found', physical, _⟩ := own
    rw [named, found] at found'
    obtain rfl := Option.some.inj found'
    rw [← resolved.table] at column
    -- Equal tuples agree in the term of the key field.
    have cells := congrArg Subtype.val same
    have agree := List.map_inj_left.mp cells term mem
    rw [readCell, readCell, rowScopes_read searched left column, rowScopes_read searched right column,
      physical] at agree
    exact differ agree

/-- Identifiers as validation leaves them. -/
structure ValidIds (collection : RuntimeCollection) : Prop where
  own : validStableId collection.id = true
  fields : ∀ field ∈ collection.fields, validStableId field.id = true
  distinct : DistinctFields collection

/-- The limits leave room for a cursor of every term. -/
structure LeavesRoom (db : RuntimeDatabase φ δ) (request : RuntimeReadRequest φ) : Prop where
  values : request.order.terms.length ≤ request.limits.maxCursorValues
  base : (planBase db.backend request).values.length ≤ request.limits.maxBindParameters
  bindings : (request.predicate.map (·.binds)).getD 0 + request.order.terms.length < 2 ^ 64 ∧
    (request.predicate.map (·.binds)).getD 0 + request.order.terms.length ≤
      request.limits.maxBindParameters

/-- Following the cursors of a read without ranking returns every selected row once, in the
order of the request and in both directions, with exact flags and counts. -/
theorem runtimeReads_enumerate {size : Int}
    (ordered : ∃ given limits, schema.runtimeOrder inputs.collection given limits = .ok inputs.order)
    (built : ∀ predicate ∈ inputs.predicate, schema.Builds predicate)
    (opened : schema.openRead inputs (.first size none) = .ok request)
    (unranked : request.ranks = false)
    (known : schema.collection? inputs.collection.id = some collection) (valid : ValidIds collection)
    (supported : db.backend = .sqlite ∨ db.backend = .postgres)
    (conforms : Conforms schema db.tables)
    (keys : DistinctKeys collection (db.tables collection.physicalTable).rows)
    (searched : SearchedOnce db request)
    (sorts : Sorts db.engine db.backend inputs.order.terms)
    (readable : ∀ scopes ∈ matchingRows db request, RowReadable texts db request scopes)
    (room : LeavesRoom db request) :
    EnumeratesRows schema texts db inputs size
        ((readingOrder db request false).map (rowNode db request)) ∧
      (readingOrder db request false).Perm (matchingRows db request) ∧
      Increasing (db.compareRows request) id (readingOrder db request false) := by
  obtain ⟨given, limits, made⟩ := ordered
  obtain ⟨owner, located, filled, resolves, complete⟩ := runtimeOrder_ok made
  obtain rfl : collection = owner := Option.some.inj (known.symm.trans located)
  have accepted (backward : Bool) := openRead_ok backward resolves opened
  obtain ⟨⟨owner, resolved⟩, page, positive, sameLimits, samePredicate, sameOrder, sameCollection,
    sameSearch, sameCount, longest, capped, _⟩ := accepted false
  obtain rfl : collection = owner :=
    Option.some.inj (known.symm.trans (sameCollection ▸ resolved.found))
  rw [← sameOrder] at filled complete sorts
  rw [← resolved.table] at keys
  have pageable : Pageable texts db schema collection request := {
    supported, resolved, unranked, sorts, readable, filled
    distinctFields := valid.distinct
    proper := fun predicate mem => by
      rw [samePredicate] at mem
      obtain ⟨owner, _, proper⟩ := (built predicate mem).proper
      exact ⟨owner, proper⟩
    fingerprint := resolved.fingerprint ▸ validFingerprint_hex64 _
    collectionId := by
      rw [← collection?_id resolved.found]
      exact valid.own
    fieldIds := fun term mem => by
      obtain ⟨owner, known, ⟨_, declared, found, _⟩, _⟩ :=
        resolveField_ok (resolved.fields term.field (resolved.order term mem))
      obtain rfl : collection = owner := Option.some.inj (resolved.found.symm.trans known)
      rw [← field?_id found]
      exact valid.fields declared (List.mem_of_find?_eq_some found)
    distinct := distinct_rowKey resolved conforms searched complete keys
    positive := by rw [page]; exact positive
    capped := by rw [sameLimits, capped]; rfl
    values := room.values
    base := room.base
    cursorBinds := room.bindings }
  refine ⟨fun calls enough backward => ?_, sortOn_perm _, ?_⟩
  · rw [List.length_map, length_readingOrder] at enough
    obtain ⟨_, _, _, _, _, _, _, _, _, longest, capped, others⟩ := accepted backward
    obtain ⟨pages, walked, covered, each⟩ := walkReads_covers pageable (sameLimits ▸ capped)
      (by rw [page]; rfl) backward others sameCount enough
    refine ⟨pages, walked, ?_, ?_⟩
    · cases backward with
      | false => simpa using covered
      | true =>
        -- The reader meets the rows, and those of each page, from the last one backwards.
        have turned := congrArg List.reverse covered
        rw [List.reverse_flatMap, readingOrder_reverse pageable.distinct, List.map_reverse,
          List.reverse_reverse] at turned
        simpa [Function.comp_def] using turned
    · rw [List.length_map, length_readingOrder]
      exact each
  · have increasing : Increasing (along false (compareKey db.nullsLow _)) (rowKey db request)
        (readingOrder db request false) := increasing_sortOn pageable.distinct
    refine increasing.imp fun {x y} before => ?_
    rw [id, id, compareRows_eq unranked, page]
    exact before

end Steps

/-! ### Two nodes -/

def nodeHandle : RuntimeCollectionHandle := handleOf nodeNotes nodes

def nodeIdHandle : RuntimeFieldHandle := RuntimeSchema.fieldHandle nodeHandle nodeId

def nodeProjection : RuntimeProjection :=
  ⟨nodeNotes.fingerprint, nodeHandle, [nodeIdHandle],
    OrderedMap.insert OrderedMap.empty "node.id" .integer⟩

def nodeOrder : RuntimeOrder := ⟨nodeNotes.fingerprint, "node", [⟨nodeIdHandle, .asc, .last⟩]⟩

def nodeReads (limits : RuntimeQueryLimits) : ReadInputs Int where
  collection := nodeHandle
  projection := nodeProjection
  predicate := none
  order := nodeOrder
  includeTotalCount := true
  limits := limits
  search := none

def nodeRequest (limits : RuntimeQueryLimits) : RuntimeReadRequest Int :=
  ⟨nodeNotes.fingerprint, nodeHandle, nodeProjection, nodeProjection, none, nodeOrder,
    .first 1 none, true, limits, none⟩

def nodeTables (ids : List Int) : Tables Int := fun table =>
  if table = nodes.physicalTable then ⟨["id"], ids.map fun id _ => some id⟩
  else ⟨["id", "owner", "hidden"], []⟩

def nodeDatabase (ids : List Int) : RuntimeDatabase Int Int where
  backend := .sqlite
  outward := true
  engine := integerEngine
  nullsLow := true
  tables := nodeTables ids
  documents _ _ := []
  castText := some
  decodeValue _ cell := .ok (cell.elim .null .integer)
  decodeScore := id

theorem nodeIdHandle_resolves : ResolvesTo nodeNotes nodeHandle nodeIdHandle :=
  resolveField_handleOf rfl rfl

theorem nodeOrder_made : nodeNotes.runtimeOrder nodeHandle none {} = .ok nodeOrder := by
  have known : nodeNotes.checkCollection nodeHandle = .ok () := checkCollection_handleOf rfl
  have ties : nodeNotes.tieBreakers nodeHandle [] ["node.id"] =
      .ok [⟨nodeIdHandle, .asc, .last⟩] := by
    have resolved : nodeNotes.resolveField nodeHandle "node.id" = .ok nodeIdHandle :=
      nodeIdHandle_resolves
    rw [RuntimeSchema.tieBreakers, if_neg (by simp), resolved]
    exact bind_eq_ok.mpr ⟨(), require_eq_ok.mpr rfl, rfl⟩
  exact bind_eq_ok.mpr ⟨(), known, bind_eq_ok.mpr ⟨nodes, okOr_eq_ok.mpr rfl, bind_eq_ok.mpr
    ⟨[], rfl, bind_eq_ok.mpr ⟨([], []), rfl, bind_eq_ok.mpr ⟨_, ties, rfl⟩⟩⟩⟩⟩

theorem nodeReads_open {limits : RuntimeQueryLimits}
    (wide : 0 < limits.maxProjectionFields ∧ 0 < limits.maxPageSize)
    (capped : (maxEncodedCursor limits).isSome = true) :
    nodeNotes.openRead (nodeReads limits) (.first 1 none) = .ok (nodeRequest limits) := by
  have known : nodeNotes.checkCollection nodeHandle = .ok () := checkCollection_handleOf rfl
  have resolved : nodeNotes.resolveProjection nodeHandle [nodeIdHandle] = .ok nodeProjection := by
    have mem : nodeNotes.resolveMember nodeHandle [] nodeIdHandle = .ok () :=
      bind_eq_ok.mpr ⟨(), require_eq_ok.mpr (decide_eq_true rfl), bind_eq_ok.mpr
        ⟨(), require_eq_ok.mpr (decide_eq_true rfl), bind_eq_ok.mpr ⟨(), rfl, bind_eq_ok.mpr
          ⟨_, nodeIdHandle_resolves, require_eq_ok.mpr (decide_eq_true rfl)⟩⟩⟩⟩
    exact bind_eq_ok.mpr ⟨nodes, checkedCollection_handleOf rfl, bind_eq_ok.mpr ⟨(), rfl,
      bind_eq_ok.mpr ⟨(), bind_eq_ok.mpr ⟨(), mem, rfl⟩, rfl⟩⟩⟩
  obtain ⟨longest, capped⟩ := Option.isSome_iff_exists.mp capped
  have plain : nodeNotes.runtimeReadRequest nodeHandle nodeProjection none nodeOrder (.first 1 none)
      true limits = .ok (nodeRequest limits) := by
    refine bind_eq_ok.mpr ⟨(), known, bind_eq_ok.mpr ⟨(), require_eq_ok.mpr ?_, bind_eq_ok.mpr
      ⟨(), require_eq_ok.mpr ?_, bind_eq_ok.mpr ⟨(), rfl, bind_eq_ok.mpr
        ⟨(), require_eq_ok.mpr ?_, bind_eq_ok.mpr ⟨longest, okOr_eq_ok.mpr capped, bind_eq_ok.mpr
          ⟨(), rfl, ?_⟩⟩⟩⟩⟩⟩⟩
    · simp only [Bool.and_eq_true, decide_eq_true_eq]
      exact ⟨⟨⟨rfl, rfl⟩, rfl⟩, rfl⟩
    · have one : nodeProjection.fields.length ≤ limits.maxProjectionFields := wide.1
      simpa [nodeProjection] using one
    · have one : (1 : Int) ≤ limits.maxPageSize := by exact_mod_cast wide.2
      simpa [RuntimePageRequest.size] using one
    · have union : unionFields nodeProjection.fields nodeOrder.terms = [nodeIdHandle] := rfl
      rw [union, resolved]
      rfl
  exact bind_eq_ok.mpr ⟨_, plain, rfl⟩

def nodeScopes (id : Int) : Scopes (Row Int) :=
  [[⟨nodes.physicalTable, ["id"], fun _ => some id⟩]]

theorem nodes_matching (ids : List Int) (limits : RuntimeQueryLimits) :
    matchingRows (nodeDatabase ids) (nodeRequest limits) = ids.map nodeScopes := by
  have rows : (nodeDatabase ids).tables nodes.physicalTable =
      ⟨["id"], ids.map fun id _ => some id⟩ := by
    change nodeTables ids nodes.physicalTable = _
    rw [nodeTables, if_pos rfl]
  have single (id : Int) :
      (nodeDatabase ids).rowScopes (nodeRequest limits) (fun _ => some id) = [nodeScopes id] := by
    change [[[(nodeDatabase ids).tableItem nodes.physicalTable fun _ => some id]]] = _
    rw [RuntimeDatabase.tableItem, rows, nodeScopes]
  have every : (ids.map nodeScopes).filter (fun scopes =>
      decide (Truth.all (([] : List ReadCondition).map ((nodeDatabase ids).holds [] scopes)) =
        .holds)) = ids.map nodeScopes := by simp
  rw [matchingRows, RuntimeDatabase.selected]
  refine Eq.trans (congrArg (List.filter _) ?_) every
  rw [show (nodeRequest limits).collection.physicalTable = nodes.physicalTable from rfl, rows,
    List.flatMap_map]
  simp only [single, List.map_eq_flatMap]

/-- The envelope of a cursor with one integer. -/
theorem length_integerCursor_le {φ : Type} (texts : ValueTexts φ) (schema collection id checksum : String)
    (n : Int) :
    ((CursorEnvelope.toJson texts ⟨1, schema, collection, [(id, .asc, .last)], [.integer n], checksum,
      none, none⟩).write).length ≤
      600 + 6 * (schema.length + collection.length + id.length + checksum.length) +
        (Json.Number.ofInt n).literal.toList.length := by
  have text (s : String) : (s.toList.flatMap Text.jsonChar).length ≤ 6 * s.length := by
    rw [← String.length_toList]
    exact Json.length_jsonChars_le s.toList
  have own := text schema
  have owner := text collection
  have field := text id
  have tag := text checksum
  have version : ("version".toList.flatMap Text.jsonChar).length ≤ 6 * 7 := text _
  have schema : ("schema".toList.flatMap Text.jsonChar).length ≤ 6 * 6 := text _
  have collection : ("collection".toList.flatMap Text.jsonChar).length ≤ 6 * 10 := text _
  have order : ("order".toList.flatMap Text.jsonChar).length ≤ 6 * 5 := text _
  have values : ("values".toList.flatMap Text.jsonChar).length ≤ 6 * 6 := text _
  have checksum : ("checksum".toList.flatMap Text.jsonChar).length ≤ 6 * 8 := text _
  have integer : ("integer".toList.flatMap Text.jsonChar).length ≤ 6 * 7 := text _
  have asc : ("asc".toList.flatMap Text.jsonChar).length ≤ 6 * 3 := text _
  have last : ("last".toList.flatMap Text.jsonChar).length ≤ 6 * 4 := text _
  have one : (Json.Number.ofNat 1).literal.toList.length = 1 := rfl
  have number : (UInt8.toNat 1) = 1 := rfl
  simp only [Json.Value.write, CursorEnvelope.toJson, OrderSignature.toJson, RuntimeValue.toJson, variant,
    RuntimeOrderDirection.asStr, RuntimeNullPlacement.asStr, Option.elim_none, List.append_nil,
    List.map_cons, List.map_nil, Json.Value.map, Json.mapMembers, Json.mapElements, Json.Value.print,
    Json.Value.tokens, Json.memberTokens, Json.elementTokens, String.length_ofList, List.flatMap_cons,
    List.flatMap_nil, List.length_append, Json.Token.chars, Json.quoted, List.length_cons,
    List.length_nil, List.cons_append, List.nil_append, number, one]
  omega

def noTexts : ValueTexts Int where
  floats := ⟨fun _ => none, fun _ => none⟩
  floatBits _ := 0
  uuid _ := ""
  readUuid _ := none
  readDateTime _ := none
  decimal _ := ""
  readDecimal _ _ := none

theorem node_readable {ids : List Int} {id : Int} (short : (Json.Number.ofInt id).literal.toList.length ≤ 20)
    (bounded : Checked.InRange id) :
    RowReadable noTexts (nodeDatabase ids) (nodeRequest {}) (nodeScopes id) where
  decodes := by
    intro field mem
    obtain rfl := List.mem_singleton.mp mem
    exact ⟨.integer id, rfl, rfl⟩
  scored := fun _ mem => by cases mem
  returns := by
    intro term mem
    obtain rfl := List.mem_singleton.mp mem
    rfl
  survives := by
    intro term mem
    obtain rfl := List.mem_singleton.mp mem
    exact bounded
  short := by
    have digits (value : UInt64) : (Migration.hex64 value).length = 16 := by simp [Migration.hex64]
    have length := length_integerCursor_le noTexts nodeNotes.fingerprint "node" "node.id"
      (fnv (cursorPayload noTexts 1 nodeNotes.fingerprint "node" [("node.id", .asc, .last)]
        [.integer id] none none)) id
    have wide := length_utf8_le (CursorEnvelope.toJson noTexts ⟨1, nodeNotes.fingerprint, "node",
      [("node.id", .asc, .last)], [.integer id], fnv (cursorPayload noTexts 1 nodeNotes.fingerprint
        "node" [("node.id", .asc, .last)] [.integer id] none none), none, none⟩).write
    have first : nodeNotes.fingerprint.length = 16 := digits _
    have second : (fnv (cursorPayload noTexts 1 nodeNotes.fingerprint "node"
      [("node.id", .asc, .last)] [.integer id] none none)).length = 16 := digits _
    refine wide.trans ?_
    have lengths : "node".length = 4 ∧ "node.id".length = 7 := by decide
    change _ ≤ 16 * 1024
    omega
  bindable := by
    change 0 + (branchBinds ([] : Position Int)
      [((⟨nodeIdHandle, .asc, .last⟩ : RuntimeEffectiveOrderTerm), .integer id)]).length ≤ 999
    simp [branchBinds, positionBinds, valueBind]

theorem nodeDatabase_sorts (ids : List Int) :
    Sorts (nodeDatabase ids).engine (nodeDatabase ids).backend nodeOrder.terms :=
  fun _ _ x y => (cmp_eq_compare x y).symm

theorem nodeDatabase_conforms (ids : List Int) : Conforms nodeNotes (nodeDatabase ids).tables := by
  intro collection mem field among
  change field.physicalColumn ∈ (nodeTables ids collection.physicalTable).columns
  simp only [nodeNotes, List.mem_cons, List.not_mem_nil, or_false] at mem
  rcases mem with rfl | rfl
  · obtain rfl := List.mem_singleton.mp among
    rw [nodeTables, if_pos rfl]
    exact List.mem_singleton.mpr rfl
  · rw [nodeTables, if_neg (by decide)]
    revert among
    revert field
    decide

theorem nodeDatabase_keys {ids : List Int} (different : ids.Nodup) :
    DistinctKeys nodes ((nodeDatabase ids).tables nodes.physicalTable).rows := by
  change DistinctKeys nodes (nodeTables ids nodes.physicalTable).rows
  rw [nodeTables, if_pos rfl, DistinctKeys, List.pairwise_map]
  exact different.imp fun differ => ⟨"node.id", by decide, nodeId, rfl, by simpa using differ⟩

/-- Two nodes are met one page at a time, in both directions. -/
theorem runtimeReads_enumerate_nodes :
    EnumeratesRows nodeNotes noTexts (nodeDatabase [2, 1]) (nodeReads {}) 1
        ((readingOrder (nodeDatabase [2, 1]) (nodeRequest {}) false).map
          (rowNode (nodeDatabase [2, 1]) (nodeRequest {}))) ∧
      (readingOrder (nodeDatabase [2, 1]) (nodeRequest {}) false).Perm
        (matchingRows (nodeDatabase [2, 1]) (nodeRequest {})) ∧
      Increasing ((nodeDatabase [2, 1]).compareRows (nodeRequest {})) id
        (readingOrder (nodeDatabase [2, 1]) (nodeRequest {}) false) := by
  have known : nodeNotes.collection? (nodeReads {}).collection.id = some nodes := rfl
  have valid : ValidIds nodes := ⟨by decide, by decide, by simp [DistinctFields, nodes]⟩
  have unsearched : SearchedOnce (nodeDatabase [2, 1]) (nodeRequest {}) :=
    ⟨fun _ mem => (by cases mem), fun absent => (by cases absent)⟩
  refine runtimeReads_enumerate ⟨none, {}, nodeOrder_made⟩ (fun _ mem => (by cases mem))
    (nodeReads_open (by decide) rfl) rfl known valid (.inl rfl) (nodeDatabase_conforms _)
    (nodeDatabase_keys (by decide)) unsearched (nodeDatabase_sorts _) (fun scopes mem => ?_)
    ⟨by decide, by decide, by decide⟩
  rw [nodes_matching] at mem
  obtain ⟨id, among, rfl⟩ := List.mem_map.mp mem
  simp only [List.mem_cons, List.not_mem_nil, or_false] at among
  rcases among with rfl | rfl
  · exact node_readable (by decide) (by decide)
  · exact node_readable (by decide) (by decide)

def positiveNodes : RuntimePredicate Int :=
  nodeNotes.leaf nodeHandle (.compare nodeIdHandle .gt (.integer 0)) 1

theorem positiveNodes_built : nodeNotes.Builds positiveNodes := by
  have built : nodeNotes.runtimeCompare nodeHandle nodeIdHandle .gt (.integer 0) {} =
      .ok positiveNodes := runtimeCompare_handleOf rfl rfl rfl rfl rfl
  exact .compare built

/-- The cursor of the node 1. -/
def nodeCursor : String := rowCursor noTexts (nodeDatabase [1]) (nodeRequest {}) (nodeScopes 1)

/-- The positive nodes behind the node 1. -/
def nodesAfter : RuntimeReadRequest Int :=
  { nodeRequest {} with predicate := some positiveNodes, page := .first 1 (some nodeCursor) }

theorem nodeCursor_decodes :
    decodeCursor noTexts nodesAfter nodeCursor = .ok ([.integer 1], none) := by
  have row : RowReadable noTexts (nodeDatabase [1]) (nodeRequest {}) (nodeScopes 1) :=
    node_readable (by decide) (by decide)
  have encoded : encodeCursor noTexts nodesAfter [.integer 1] none = .ok nodeCursor :=
    bind_eq_ok.mpr ⟨(), require_eq_ok.mpr (decide_eq_true row.short), rfl⟩
  have readable : Readable noTexts nodesAfter [.integer 1] := {
    fingerprint := validFingerprint_hex64 _
    collection := by decide
    fields := fun term mem => by
      obtain rfl := List.mem_singleton.mp mem
      decide
    survives := fun value mem => by
      obtain rfl := List.mem_singleton.mp mem
      exact ⟨by decide, by decide⟩ }
  have fits : List.Forall₂ (fun value (term : RuntimeEffectiveOrderTerm) => FitsField value term.field)
      [RuntimeValue.integer (φ := Int) 1] nodesAfter.order.terms := .cons rfl .nil
  exact decode_encodeCursor readable rfl rfl fits (by decide) encoded

/-- The statements for the positive nodes behind a node, with their count, are the texts of
their plan. -/
theorem nodeRequest_renders :
    ∃ plan, requestPlan .sqlite nodesAfter (decodeCursor noTexts nodesAfter) = .ok plan ∧
      plan.rows.values = [.int 0, .int 1] ∧
      renderRequest .sqlite nodesAfter (decodeCursor noTexts nodesAfter) =
        .ok (plan.render .sqlite nodesAfter) := by
  have proper : ProperPredicate nodeNotes nodesAfter.predicate := fun predicate given => by
    obtain rfl := Option.some.inj given
    obtain ⟨collection, _, proper⟩ := positiveNodes_built.proper
    exact ⟨collection, proper⟩
  have filled : CursorFilled nodesAfter (decodeCursor noTexts nodesAfter) :=
    decodeCursor_filled noTexts (List.cons_ne_nil _ _)
  have rows : planRows .sqlite nodesAfter (decodeCursor noTexts nodesAfter) =
      .ok (planBeyond .sqlite nodesAfter [.integer 1] none) := by
    have page : nodesAfter.page.cursor = some nodeCursor := rfl
    rw [planRows, page]
    simp only [nodeCursor_decodes]
    exact bind_eq_ok.mpr ⟨_, rfl, bind_eq_ok.mpr ⟨(), require_eq_ok.mpr rfl, rfl⟩⟩
  have count : planCount .sqlite nodesAfter = .ok (some (planBase .sqlite nodesAfter)) :=
    bind_eq_ok.mpr ⟨(), require_eq_ok.mpr rfl, rfl⟩
  have planned : requestPlan .sqlite nodesAfter (decodeCursor noTexts nodesAfter) =
      .ok ⟨planBeyond .sqlite nodesAfter [.integer 1] none, some (planBase .sqlite nodesAfter)⟩ :=
    bind_eq_ok.mpr ⟨(), require_eq_ok.mpr rfl, bind_eq_ok.mpr ⟨_, rows, bind_eq_ok.mpr
      ⟨(), require_eq_ok.mpr rfl, bind_eq_ok.mpr ⟨_, count, rfl⟩⟩⟩⟩
  refine ⟨_, planned, rfl, ?_⟩
  rw [renderRequest_eq proper filled, planned]
  rfl

/-! ### Limits that leave no room -/

/-- Every envelope has a byte, so no cursor fits into none. -/
theorem encodeCursor_never {φ : Type} {texts : ValueTexts φ} {request : RuntimeReadRequest φ}
    {values : List (RuntimeValue φ)} {score : Option φ} {cursor : String}
    (roomless : request.limits.maxCursorBytes = 0) :
    encodeCursor texts request values score ≠ .ok cursor := by
  intro encoded
  obtain ⟨_, fits, _⟩ := bind_eq_ok.mp encoded
  have none := of_decide_eq_true (require_eq_ok.mp fits)
  have bytes := le_length_utf8 ((cursorEnvelope texts request values score).toJson texts).write
  have brace : 0 < ((cursorEnvelope texts request values score).toJson texts).write.length := by
    simp [CursorEnvelope.toJson, Json.Value.write, Json.Value.map, Json.Value.print, Json.Value.tokens,
      Json.Token.chars]
    exact .inl (by decide)
  omega

theorem executeRuntimeRead_roomless {φ δ : Type} [LinearOrder δ] {texts : ValueTexts φ}
    {db : RuntimeDatabase φ δ} {request : RuntimeReadRequest φ} {page : RuntimeConnection φ}
    (roomless : request.limits.maxCursorBytes = 0)
    (read : executeRuntimeRead texts request db = .ok page) : page.edges = [] := by
  obtain ⟨plan, _, read⟩ := bind_eq_ok.mp read
  obtain ⟨decoded, _, read⟩ := bind_eq_ok.mp read
  obtain ⟨edges, encoded, read⟩ := bind_eq_ok.mp read
  cases read
  refine List.eq_nil_iff_forall_not_mem.mpr fun edge mem => ?_
  obtain ⟨entry, _, made⟩ := mem_of_mapM_ok (mapError_eq_ok.mp encoded) mem
  obtain ⟨position, _, made⟩ := bind_eq_ok.mp made
  obtain ⟨cursor, impossible, _⟩ := bind_eq_ok.mp made
  exact encodeCursor_never roomless impossible

/-- A reader whose limits leave no room for a cursor never meets the row there is. -/
theorem runtimeReads_miss_node :
    nodeNotes.openRead (nodeReads { maxCursorBytes := 0 }) (.first 1 none) =
        .ok (nodeRequest { maxCursorBytes := 0 }) ∧
      DistinctKeys nodes ((nodeDatabase [1]).tables nodes.physicalTable).rows ∧
      Sorts (nodeDatabase [1]).engine (nodeDatabase [1]).backend nodeOrder.terms ∧
      ¬ EnumeratesRows nodeNotes noTexts (nodeDatabase [1]) (nodeReads { maxCursorBytes := 0 }) 1
        ((matchingRows (nodeDatabase [1]) (nodeRequest { maxCursorBytes := 0 })).map
          (rowNode (nodeDatabase [1]) (nodeRequest { maxCursorBytes := 0 }))) := by
  refine ⟨nodeReads_open (by decide) rfl, nodeDatabase_keys (by decide), nodeDatabase_sorts _,
    fun enumerates => ?_⟩
  rw [nodes_matching] at enumerates
  obtain ⟨pages, walked, covered, _⟩ := enumerates 2 (by simp) false
  have empty : ∀ page ∈ pages, page.nodes = [] := fun page mem => by
    obtain ⟨_, cursor, fetched⟩ := walk_fetched walked mem
    obtain ⟨request, opened, read⟩ := bind_eq_ok.mp fetched
    obtain ⟨plain, made, same⟩ := bind_eq_ok.mp (mapError_eq_ok.mp opened)
    cases same
    have resolves : ∀ term ∈ nodeOrder.terms, ResolvesTo nodeNotes nodeHandle term.field := by
      intro term among
      obtain rfl := List.mem_singleton.mp among
      exact nodeIdHandle_resolves
    obtain ⟨_, _, _, _, rfl, _⟩ := runtimeReadRequest_ok resolves made
    rw [RuntimeConnection.nodes, executeRuntimeRead_roomless rfl read, List.map_nil]
  rw [if_neg (by decide), List.flatMap_eq_nil_iff.mpr empty] at covered
  exact absurd covered.symm (by simp)

end GraphqlOrm.Runtime
