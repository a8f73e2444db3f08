import GraphqlOrm.Runtime.ReadCursor
import GraphqlOrm.Runtime.ReadPlan

/-!
# Running a read

The rows that a database returns for a plan, and the connection that a read makes of them.
-/
namespace GraphqlOrm.Runtime

open Outcome Paging
open Schema (DatabaseBackend)
open Sql
open Query (compareTuple)

variable {φ δ : Type}

/-! ### The database -/

/-- A database with its tables. The documents of a search are the rows of its query; values
are read back by the kind of their field. -/
structure RuntimeDatabase (φ δ : Type) where
  backend : DatabaseBackend
  outward : Bool
  engine : Engine (SqlValue φ) δ
  nullsLow : Bool
  tables : Tables δ
  documents : String → SqlValue φ → List (Row δ)
  castText : δ → Option δ
  decodeValue : RuntimeValueKind → Option δ → Except RuntimeRecordErrorCode (RuntimeValue φ)
  decodeScore : Option δ → Option φ

namespace RuntimeDatabase

variable (db : RuntimeDatabase φ δ)

def joinedDocuments (search : RuntimeSearchRequest φ) (row : Row δ) : List (Row δ) :=
  (db.documents (search.documents db.backend) (.string (search.text db.backend))).filter
    fun document =>
      db.engine.compares .eq none ((row search.keyColumn).bind db.castText) (document SEARCH_KEY) =
        .holds

def tableItem (table : String) (row : Row δ) : Item (Row δ) := ⟨table, (db.tables table).columns, row⟩

/-- The scopes in which a row of the table stands, one for each document joined to it. -/
def rowScopes (request : RuntimeReadRequest φ) (row : Row δ) : List (Scopes (Row δ)) :=
  let own := db.tableItem request.collection.physicalTable row
  match request.search with
  | none => [[[own]]]
  | some search => (db.joinedDocuments search row).map fun document =>
      [[own, ⟨SEARCH_ALIAS, [SEARCH_KEY, SEARCH_SCORE], document⟩]]

def score (scopes : Scopes (Row δ)) : Option δ :=
  readIn db.outward scopes ⟨some SEARCH_ALIAS, SEARCH_SCORE⟩

/-- The parameter of a score, bound after `n` others. -/
def scoreBind (values : List (SqlValue φ)) (n : Nat) : Option δ :=
  (values[n]?).map (db.engine.parameter (parameterCast db.backend .float))

def holds (values : List (SqlValue φ)) (scopes : Scopes (Row δ)) : ReadCondition → Truth
  | .factor f => f.eval (queryMeaning db.engine values db.outward db.tables) scopes
  | .minScore n => db.engine.compares .ge none (db.score scopes) (db.scoreBind values n)
  | .ranked backward n after =>
    (db.engine.compares (if backward then .gt else .lt) none (db.score scopes)
        (db.scoreBind values n)).or
      ((db.engine.compares .eq none (db.score scopes) (db.scoreBind values (n + 1))).and
        (after.eval (queryMeaning db.engine values db.outward db.tables) scopes))

def selected (request : RuntimeReadRequest φ) (read : PlannedRead φ) : List (Scopes (Row δ)) :=
  ((db.tables request.collection.physicalTable).rows.flatMap (db.rowScopes request)).filter
    fun scopes => Truth.all (read.conditions.map (db.holds read.values scopes)) = .holds

variable [LinearOrder δ]

/-- The comparison of two rows by the `ORDER BY` clause. -/
def compareRows (request : RuntimeReadRequest φ) (x y : Scopes (Row δ)) : Ordering :=
  let terms := effectiveTerms request.order request.page.backward
  let cells (scopes : Scopes (Row δ)) := terms.map (readCell db.outward scopes)
  let rank : Query.SortKey := .value (if request.page.backward then .asc else .desc)
  (if request.ranks then rank.compare db.nullsLow (db.score x) (db.score y) else .eq).then
    (compareTuple db.nullsLow (terms.map (·.keyset)) (cells x) (cells y))

def fetch (request : RuntimeReadRequest φ) (read : PlannedRead φ) : List (Scopes (Row δ)) :=
  (sortOn (db.compareRows request) id (db.selected request read)).take (request.page.size + 1).toNat

end RuntimeDatabase

/-! ### Records of rows -/

/-- A decoded value is null only where the field may be, and of the field's kind. -/
def decodeField (decode : RuntimeFieldHandle → Except RuntimeRecordErrorCode (RuntimeValue φ))
    (field : RuntimeFieldHandle) : Except RuntimeRecordErrorCode (RuntimeValue φ) := do
  let value ← decode field
  require (value.kind.isSome || field.nullable) .nonNullableNull
  require (value.kind.all (· = field.valueKind)) .wrongValueKind
  return value

namespace RuntimeProjection

variable (projection : RuntimeProjection)

def decodeValues (decode : RuntimeFieldHandle → Except RuntimeRecordErrorCode (RuntimeValue φ)) :
    Except RuntimeRecordErrorCode (OrderedMap FieldId (RuntimeValue φ)) :=
  projection.fields.foldlM (fun values field => do
    return values.insert field.id (← decodeField decode field)) OrderedMap.empty

def decodeRow (decode : RuntimeFieldHandle → Except RuntimeRecordErrorCode (RuntimeValue φ)) :
    Except RuntimeRecordErrorCode (RuntimeRecord φ) := do
  let values ← projection.decodeValues decode
  return ⟨projection.schemaFingerprint, projection.collection.id, projection.collectionFieldKinds,
    values⟩

end RuntimeProjection

def RuntimeRecord.project (record : RuntimeRecord φ) (projection : RuntimeProjection) :
    Except RuntimeRecordErrorCode (RuntimeRecord φ) := do
  require (projection.schemaFingerprint = record.schemaFingerprint) .schemaMismatch
  require (projection.collection.id = record.collection) .crossCollectionField
  let values ← projection.fields.foldlM (fun values field => do
    return values.insert field.id (← okOr .fieldUnloaded (record.values.get? field.id)))
      OrderedMap.empty
  return { record with values }

/-! ### Connections -/

structure RuntimeEdge (φ : Type) where
  node : RuntimeRecord φ
  cursor : String
  score : Option φ

structure RuntimePageInfo where
  hasNextPage : Bool
  hasPreviousPage : Bool
  startCursor : Option String
  endCursor : Option String

structure RuntimeConnection (φ : Type) where
  edges : List (RuntimeEdge φ)
  pageInfo : RuntimePageInfo
  totalCount : Option Nat

section Execute

variable (texts : ValueTexts φ) (request : RuntimeReadRequest φ)

def recordPosition (record : RuntimeRecord φ) : Except RuntimeQueryError (List (RuntimeValue φ)) :=
  request.order.terms.mapM fun term =>
    match record.state term.field with
    | .error _ => .error { code := .decode }
    | .ok .null => .ok .null
    | .ok (.value value) => .ok value
    | .ok .unloaded => .error (.ofField .decode term.field)

def runtimeEdge (entry : RuntimeRecord φ × Option φ) :
    Except RuntimeQueryError (RuntimeEdge φ) := do
  let position ← recordPosition request entry.1
  let cursor ← encodeCursor texts request position entry.2
  let node ← (entry.1.project request.outputProjection).mapError fun _ => { code := .decode }
  return ⟨node, cursor, entry.2⟩

variable (db : RuntimeDatabase φ δ)

def decodeScore (scopes : Scopes (Row δ)) : Except RuntimeQueryError (Option φ) :=
  match request.search with
  | none => .ok none
  | some _ => (okOr { code := .decode } (db.decodeScore (db.score scopes))).map some

def decodeEntry (scopes : Scopes (Row δ)) :
    Except RuntimeQueryError (RuntimeRecord φ × Option φ) := do
  let score ← decodeScore request db scopes
  let record ← (request.decodeProjection.decodeRow fun field =>
      db.decodeValue field.valueKind (readIn db.outward scopes { column := field.physicalColumn })
    ).mapError fun _ => { code := .decode }
  return (record, score)

def connectionOf (edges : List (RuntimeEdge φ)) (lookahead : Bool) (totalCount : Option Nat) :
    RuntimeConnection φ :=
  { edges
    pageInfo :=
      { hasNextPage := if request.page.backward then request.page.cursor.isSome else lookahead
        hasPreviousPage := if request.page.backward then lookahead else request.page.cursor.isSome
        startCursor := edges.head?.map (·.cursor)
        endCursor := edges.getLast?.map (·.cursor) }
    totalCount }

variable [LinearOrder δ]

def executeRuntimeRead : Except ReadFailure (RuntimeConnection φ) := do
  let plan ← requestPlan db.backend request (decodeCursor texts request)
  let rows := db.fetch request plan.rows
  let requested := request.page.size.toNat
  let decoded ← ((rows.take requested).mapM (decodeEntry request db)).mapError .error
  let decoded := if request.page.backward then decoded.reverse else decoded
  let edges ← (decoded.mapM (runtimeEdge texts request)).mapError .error
  return connectionOf request edges (requested < rows.length)
    (plan.count.map fun count => (db.selected request count).length)

end Execute

end GraphqlOrm.Runtime
