import GraphqlOrm.Query.KeysetOrder
import GraphqlOrm.Runtime.PredicateSql

/-!
# Runtime reads

The orders and requests of keyset reads over a runtime collection, and the two statements
that a request is rendered to: the rows of a page and, when asked for, their number.
-/
namespace GraphqlOrm.Runtime

open Outcome
open Schema (DatabaseBackend)
open Text (join)

variable {φ : Type}

/-! ### Orders -/

inductive RuntimeNullPlacement where
  | first | last
deriving DecidableEq

structure RuntimeOrderInput where
  field : RuntimeFieldHandle
  direction : RuntimeOrderDirection
  nulls : RuntimeNullPlacement

structure RuntimeEffectiveOrderTerm where
  field : RuntimeFieldHandle
  direction : RuntimeOrderDirection
  nulls : RuntimeNullPlacement

structure RuntimeOrder where
  schema : SchemaFingerprint
  collection : CollectionId
  terms : List RuntimeEffectiveOrderTerm

def checkOrderable (field : RuntimeFieldHandle) : Except RuntimeQueryError Unit :=
  require (field.sortable && field.valueKind ≠ .json) (.ofField .unsupportedOrder field)

namespace RuntimeSchema

variable (schema : RuntimeSchema)

/-- The terms of a request, each for another field; `seen` are the fields before. -/
def suppliedTerms (collection : RuntimeCollectionHandle) :
    List FieldId → List RuntimeOrderInput →
      Except RuntimeQueryError (List FieldId × List RuntimeEffectiveOrderTerm)
  | seen, [] => .ok (seen, [])
  | seen, input :: rest => do
    schema.checkHandle collection input.field
    checkOrderable input.field
    require (!seen.contains input.field.id) (.ofField .invalidRequest input.field)
    let (seen, terms) ← suppliedTerms collection (input.field.id :: seen) rest
    return (seen, ⟨input.field, input.direction, input.nulls⟩ :: terms)

def tieBreakers (collection : RuntimeCollectionHandle) :
    List FieldId → List FieldId → Except RuntimeQueryError (List RuntimeEffectiveOrderTerm)
  | _, [] => .ok []
  | seen, id :: rest =>
    if seen.contains id then tieBreakers collection seen rest
    else
      match schema.resolveField collection id with
      | .error _ => .error { code := .invalidHandle }
      | .ok field => do
        checkOrderable field
        return ⟨field, .asc, .last⟩ :: (← tieBreakers collection (id :: seen) rest)

def defaultTerm (collection : RuntimeCollectionHandle) (term : RuntimeOrderTerm) :
    Except RuntimeQueryError RuntimeOrderInput :=
  match schema.resolveField collection term.field with
  | .error _ => .error { code := .invalidHandle }
  | .ok field => .ok ⟨field, term.direction, .last⟩

def runtimeOrder (collection : RuntimeCollectionHandle) (inputs : Option (List RuntimeOrderInput))
    (limits : RuntimeQueryLimits) : Except RuntimeQueryError RuntimeOrder := do
  schema.checkCollection collection
  let metadata ← okOr (.ofCollection .invalidHandle collection.id) (schema.collection? collection.id)
  let supplied ← match inputs with
    | some values => pure values
    | none => metadata.defaultOrder.mapM (schema.defaultTerm collection)
  let (seen, terms) ← schema.suppliedTerms collection [] supplied
  let terms := terms ++ (← schema.tieBreakers collection seen metadata.primaryKey)
  require (!terms.isEmpty && terms.length ≤ limits.maxOrderTerms &&
    terms.length ≤ limits.maxCursorValues) (limitError collection.id)
  return ⟨schema.fingerprint, collection.id, terms⟩

end RuntimeSchema

/-! ### Requests -/

inductive RuntimePageRequest where
  | first (size : Int) (after : Option String)
  | last (size : Int) (before : Option String)

namespace RuntimePageRequest

def size : RuntimePageRequest → Int
  | first size _ => size
  | last size _ => size

def cursor : RuntimePageRequest → Option String
  | first _ after => after
  | last _ before => before

def backward : RuntimePageRequest → Bool
  | first _ _ => false
  | last _ _ => true

end RuntimePageRequest

/-- A full-text search. Its documents are a table of keys and scores: `documents` is the
query for them, with `text` as its only value, and `binding` the digest of its inputs. -/
structure RuntimeSearchRequest (φ : Type) where
  schema : SchemaFingerprint
  collection : CollectionId
  documents : DatabaseBackend → String
  text : DatabaseBackend → String
  binding : String
  minScore : Option φ
  keyColumn : String
  rank : Bool

structure RuntimeReadRequest (φ : Type) where
  schema : SchemaFingerprint
  collection : RuntimeCollectionHandle
  outputProjection : RuntimeProjection
  decodeProjection : RuntimeProjection
  predicate : Option (RuntimePredicate φ)
  order : RuntimeOrder
  page : RuntimePageRequest
  includeTotalCount : Bool
  limits : RuntimeQueryLimits
  search : Option (RuntimeSearchRequest φ)

namespace RuntimeReadRequest

variable (request : RuntimeReadRequest φ)

def withSearch (search : RuntimeSearchRequest φ) :
    Except RuntimeQueryError (RuntimeReadRequest φ) := do
  require (search.schema = request.schema && search.collection = request.collection.id)
    (.ofCollection .invalidHandle request.collection.id)
  return { request with search := some search }

def ranks : Bool := request.search.any (·.rank)

end RuntimeReadRequest

def RUNTIME_CURSOR_PREFIX : String := "gormrq1."

/-- `usize::checked_mul` and `checked_add`: the longest cursor text. -/
def maxEncodedCursor (limits : RuntimeQueryLimits) : Option Nat :=
  if limits.maxCursorBytes * 2 + RUNTIME_CURSOR_PREFIX.utf8ByteSize < 2 ^ 64 then
    some (limits.maxCursorBytes * 2 + RUNTIME_CURSOR_PREFIX.utf8ByteSize)
  else none

/-- The fields of a projection and then those of an order that it lacks. -/
def unionFields : List RuntimeFieldHandle → List RuntimeEffectiveOrderTerm → List RuntimeFieldHandle
  | union, [] => union
  | union, term :: rest =>
    if (union.map (·.id)).contains term.field.id then unionFields union rest
    else unionFields (union ++ [term.field]) rest

def RuntimeSchema.runtimeReadRequest (schema : RuntimeSchema) (collection : RuntimeCollectionHandle)
    (projection : RuntimeProjection) (predicate : Option (RuntimePredicate φ)) (order : RuntimeOrder)
    (page : RuntimePageRequest) (includeTotalCount : Bool) (limits : RuntimeQueryLimits) :
    Except RuntimeQueryError (RuntimeReadRequest φ) := do
  let invalid : RuntimeQueryError := .ofCollection .invalidHandle collection.id
  schema.checkCollection collection
  require (projection.schemaFingerprint = schema.fingerprint &&
    projection.collection.id = collection.id && order.schema = schema.fingerprint &&
    order.collection = collection.id) invalid
  require (!projection.fields.isEmpty && projection.fields.length ≤ limits.maxProjectionFields)
    (limitError collection.id)
  require (predicate.all fun filter => filter.schema = schema.fingerprint &&
    filter.collection = collection.id && filter.binds ≤ limits.maxBindParameters) invalid
  require (0 < page.size && page.size < 2 ^ 32 && page.size ≤ limits.maxPageSize)
    (limitError collection.id)
  let longest ← okOr (limitError collection.id) (maxEncodedCursor limits)
  require (page.cursor.all fun text => text.utf8ByteSize ≤ longest) (limitError collection.id)
  match schema.resolveProjection collection (unionFields projection.fields order.terms) with
  | .error _ => .error { code := .invalidHandle }
  | .ok decodeProjection =>
    return ⟨schema.fingerprint, collection, projection, decodeProjection, predicate, order, page,
      includeTotalCount, limits, none⟩

/-! ### Keyset conditions -/

namespace RuntimeEffectiveOrderTerm

def reversed (term : RuntimeEffectiveOrderTerm) : RuntimeEffectiveOrderTerm :=
  { term with
    direction := if term.direction = .asc then .desc else .asc
    nulls := match term.nulls with
      | .first => .last
      | .last => .first }

def nullRank (term : RuntimeEffectiveOrderTerm) : Nat := if term.nulls = .first then 0 else 1

def sql (backend : DatabaseBackend) (term : RuntimeEffectiveOrderTerm) : List String :=
  let column := orderedColumn backend term.field
  ["CASE WHEN " ++ column ++ " IS NULL THEN " ++ term.nullRank.repr ++ " ELSE " ++
      (1 - term.nullRank).repr ++ " END ASC",
    column ++ (if term.direction = .asc then " ASC" else " DESC")]

end RuntimeEffectiveOrderTerm

def effectiveTerms (order : RuntimeOrder) (backward : Bool) : List RuntimeEffectiveOrderTerm :=
  if backward then order.terms.map (·.reversed) else order.terms

def renderOrderTerms (backend : DatabaseBackend) (terms : List RuntimeEffectiveOrderTerm) : String :=
  join ", " (terms.flatMap (RuntimeEffectiveOrderTerm.sql backend))

section Cursor

variable (backend : DatabaseBackend)

def cursorEqual (term : RuntimeEffectiveOrderTerm) (value : RuntimeValue φ)
    (values : List (SqlValue φ)) : String × List (SqlValue φ) :=
  let column := orderedColumn backend term.field
  match valueBind value with
  | none => (column ++ " IS NULL", values)
  | some bind => (column ++ " = " ++ nextBind backend term.field values, values ++ [bind])

def cursorCompare (term : RuntimeEffectiveOrderTerm) (value : RuntimeValue φ)
    (values : List (SqlValue φ)) : String × List (SqlValue φ) :=
  let column := orderedColumn backend term.field
  match valueBind value with
  | none =>
    match term.nulls with
    | .first => (column ++ " IS NOT NULL", values)
    | .last => ("1 = 0", values)
  | some bind =>
    let operator := if term.direction = .asc then ">" else "<"
    let scalar := column ++ " " ++ operator ++ " " ++ nextBind backend term.field values
    match term.nulls with
    | .first => ("(" ++ column ++ " IS NOT NULL AND " ++ scalar ++ ")", values ++ [bind])
    | .last => ("(" ++ column ++ " IS NULL OR " ++ scalar ++ ")", values ++ [bind])

def cursorEquals : List (RuntimeEffectiveOrderTerm × RuntimeValue φ) → List (SqlValue φ) →
    List String × List (SqlValue φ)
  | [], values => ([], values)
  | (term, value) :: rest, values =>
    let (text, values) := cursorEqual backend term value values
    let (texts, values) := cursorEquals rest values
    (text :: texts, values)

/-- One branch for each term of `rest`; `prior` are the terms before it. -/
def cursorBranches (prior : List (RuntimeEffectiveOrderTerm × RuntimeValue φ)) :
    List (RuntimeEffectiveOrderTerm × RuntimeValue φ) → List (SqlValue φ) →
      List String × List (SqlValue φ)
  | [], values => ([], values)
  | (term, value) :: rest, values =>
    let (terms, values) := cursorEquals backend prior values
    let (last, values) := cursorCompare backend term value values
    let (others, values) := cursorBranches (prior ++ [(term, value)]) rest values
    (("(" ++ join " AND " (terms ++ [last]) ++ ")") :: others, values)

/-- None if the cursor has no value for a term: the index into it is out of bounds. -/
def cursorAfterSql (order : List RuntimeEffectiveOrderTerm) (cursor : List (RuntimeValue φ))
    (values : List (SqlValue φ)) : Option (String × List (SqlValue φ)) :=
  if order.length ≤ cursor.length then
    let (branches, values) := cursorBranches backend [] (order.zip cursor) values
    some ("(" ++ join " OR " branches ++ ")", values)
  else none

end Cursor

/-! ### Statements -/

def SEARCH_ALIAS : String := "__gom_search"
def SEARCH_KEY : String := "__gom_search_key"
def SEARCH_SCORE : String := "__gom_search_score"

section Render

variable (backend : DatabaseBackend)

def renderSearchJoin (table : String) (search : RuntimeSearchRequest φ) : String :=
  " JOIN (" ++ search.documents backend ++ ") AS " ++ SEARCH_ALIAS ++ " ON CAST(" ++
    backend.quoteIdentifier table ++ "." ++ backend.quoteIdentifier search.keyColumn ++
    " AS TEXT) = " ++ SEARCH_ALIAS ++ "." ++ SEARCH_KEY

def searchJoin (table : String) : Option (RuntimeSearchRequest φ) → String × List (SqlValue φ)
  | none => ("", [])
  | some search => (renderSearchJoin backend table search, [.string (search.text backend)])

def renderMinScore (search : Option (RuntimeSearchRequest φ)) (values : List (SqlValue φ)) :
    List String × List (SqlValue φ) :=
  match search.bind (·.minScore) with
  | none => ([], values)
  | some score =>
    ([SEARCH_ALIAS ++ "." ++ SEARCH_SCORE ++ " >= " ++
      placeholder backend (values.length + 1) .float], values ++ [.float score])

def renderFilter (predicate : Option (RuntimePredicate φ)) (values : List (SqlValue φ)) :
    Option (List String × List (SqlValue φ)) :=
  match predicate with
  | none => some ([], values)
  | some predicate => (predicate.render backend values).map fun (text, values) => ([text], values)

/-- What lies beyond a cursor. Where relevance leads, a lower score or the same score and
the remaining order. -/
def renderBeyond (backward : Bool) (terms : List RuntimeEffectiveOrderTerm)
    (cursor : List (RuntimeValue φ)) (score : Option φ) (values : List (SqlValue φ)) :
    Option (String × List (SqlValue φ)) :=
  match score with
  | none => cursorAfterSql backend terms cursor values
  | some score => do
    let column := SEARCH_ALIAS ++ "." ++ SEARCH_SCORE
    let first := placeholder backend (values.length + 1) .float
    let values := values ++ [.float score]
    let second := placeholder backend (values.length + 1) .float
    let (after, values) ← cursorAfterSql backend terms cursor (values ++ [.float score])
    let operator := if backward then ">" else "<"
    return ("(" ++ column ++ " " ++ operator ++ " " ++ first ++ " OR (" ++ column ++ " = " ++
      second ++ " AND " ++ after ++ "))", values)

def whereClause (conditions : List String) : String :=
  if conditions.isEmpty then "" else " WHERE " ++ join " AND " conditions

end Render

/-- The program stops, or the caller gets an error. -/
inductive ReadFailure where
  | stopped
  | error (error : RuntimeQueryError)

/-- A statement with its values. -/
structure Rendered (φ : Type) where
  sql : String
  values : List (SqlValue φ)

structure RenderedRequest (φ : Type) where
  rows : Rendered φ
  count : Option (Rendered φ)
  backward : Bool

section Request

variable (backend : DatabaseBackend) (request : RuntimeReadRequest φ)

def RuntimeReadRequest.limitFailure : ReadFailure := .error (limitError request.collection.id)

/-- The conditions of the filter, the search and the cursor, in the order of their values. -/
def renderConditions
    (decode : String → Except RuntimeQueryError (List (RuntimeValue φ) × Option φ)) :
    Except ReadFailure (List String × List (SqlValue φ)) := do
  let values := (searchJoin backend request.collection.physicalTable request.search).2
  let (filter, values) ← okOr .stopped (renderFilter backend request.predicate values)
  let (minScore, values) := renderMinScore backend request.search values
  match request.page.cursor with
  | none => return (filter ++ minScore, values)
  | some text =>
    let (cursorValues, score) ← (decode text).mapError .error
    let filterBinds := (request.predicate.map (·.binds)).getD 0
    require (filterBinds + cursorValues.length < 2 ^ 64 &&
      filterBinds + cursorValues.length ≤ request.limits.maxBindParameters) request.limitFailure
    let (beyond, values) ← okOr .stopped (renderBeyond backend request.page.backward
      (effectiveTerms request.order request.page.backward) cursorValues
      (if request.ranks then score else none) values)
    return (filter ++ minScore ++ [beyond], values)

def renderCount : Except ReadFailure (Option (Rendered φ)) :=
  if request.includeTotalCount then do
    let table := request.collection.physicalTable
    let (joined, values) := searchJoin backend table request.search
    let (filter, values) ← okOr .stopped (renderFilter backend request.predicate values)
    let (minScore, values) := renderMinScore backend request.search values
    require (values.length ≤ request.limits.maxBindParameters) request.limitFailure
    return some ⟨"SELECT COUNT(*) AS " ++ backend.quoteIdentifier "__graphql_orm_runtime_count" ++
      " FROM " ++ backend.quoteIdentifier table ++ joined ++ whereClause (filter ++ minScore), values⟩
  else return none

def orderClause : String :=
  " ORDER BY " ++
    (if request.ranks then
      SEARCH_ALIAS ++ "." ++ SEARCH_SCORE ++
        (if request.page.backward then " ASC" else " DESC") ++ ", "
    else "") ++
    renderOrderTerms backend (effectiveTerms request.order request.page.backward)

/-- The statements of a request; `decode` reads its cursor. -/
def renderRequest (decode : String → Except RuntimeQueryError (List (RuntimeValue φ) × Option φ)) :
    Except ReadFailure (RenderedRequest φ) := do
  require (backend = .sqlite || backend = .postgres)
    (.error (.ofCollection .unsupportedBackend request.collection.id))
  let table := request.collection.physicalTable
  let (conditions, values) ← renderConditions backend request decode
  require (values.length ≤ request.limits.maxBindParameters) request.limitFailure
  let columns := join ", "
    (request.decodeProjection.fields.map fun field => backend.quoteIdentifier field.physicalColumn)
  let score := if request.search.isSome then
    ", " ++ SEARCH_ALIAS ++ "." ++ SEARCH_SCORE ++ " AS " ++ SEARCH_SCORE else ""
  let sql := "SELECT " ++ columns ++ score ++ " FROM " ++ backend.quoteIdentifier table ++
    (searchJoin backend table request.search).1 ++ whereClause conditions ++
    orderClause backend request ++ " LIMIT " ++ toString (request.page.size + 1)
  let count ← renderCount backend request
  return ⟨⟨sql, values⟩, count, request.page.backward⟩

end Request

end GraphqlOrm.Runtime
