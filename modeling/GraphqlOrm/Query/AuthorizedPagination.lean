import GraphqlOrm.Query.KeysetEntity

/-!
# Authorized keyset connections

`fetch_authorized_keyset_connection_with_order`: a page of the rows that the caller may
see, with a look ahead of one row in the direction of reading and a probe in the other.
-/
namespace GraphqlOrm.Query

open Schema Sql Outcome Paging Json

/-! ### Requests and answers -/

structure KeysetConnectionInput where
  after : Option String
  before : Option String
  first : Option Int
  last : Option Int
  includeTotalCount : Bool

inductive KeysetWindowDirection where
  | forward | backward
deriving DecidableEq

structure ValidatedKeysetConnection where
  direction : KeysetWindowDirection
  cursor : Option String
  limit : Int
  includeTotalCount : Bool

def KeysetConnectionInput.validate (input : KeysetConnectionInput)
    (defaultLimit maximumLimit : Int) : Except OrmErrorCode ValidatedKeysetConnection :=
  if defaultLimit ≤ 0 ∨ maximumLimit ≤ 0 then .error .authorizationMisconfigured
  else if input.first.isSome && input.last.isSome || input.after.isSome && input.before.isSome ||
      input.last.isSome && input.after.isSome || input.first.isSome && input.before.isSome ||
      input.before.isSome && input.last.isNone then .error .invalidInput
  else
    let (direction, cursor, requested) := match input.last with
      | some last => (KeysetWindowDirection.backward, input.before, last)
      | none => (.forward, input.after, input.first.getD defaultLimit)
    if requested ≤ 0 then .error .invalidInput
    else .ok ⟨direction, cursor, min requested maximumLimit, input.includeTotalCount⟩

structure PageInfo where
  hasNextPage : Bool
  hasPreviousPage : Bool
  startCursor : Option String
  endCursor : Option String
  totalCount : Option Int

structure Edge (τ : Type) where
  node : τ
  cursor : String

structure Connection (τ : Type) where
  edges : List (Edge τ)
  pageInfo : PageInfo

def Connection.nodes {τ : Type} (connection : Connection τ) : List τ := connection.edges.map (·.node)

/-! ### Orders chosen at run time -/

section Runtime

variable {τ φ : Type} (entity : AuthorizedKeysetEntity τ φ)

def AuthorizedKeysetEntity.hasField (column : String) : Bool :=
  entity.keysetFields.any fun field => field.column = column

def appendPrimary (order : List KeysetOrderColumn) : List String →
    Except OrmErrorCode (List KeysetOrderColumn)
  | [] => .ok order
  | column :: rest =>
    if entity.hasField column then
      if column ∈ order.map (·.column) then appendPrimary order rest
      else appendPrimary (order ++ [.asc column]) rest
    else .error .invalidInput

def orderJson (order : List KeysetOrderColumn) : Value String :=
  .array (order.map fun part =>
    .array [.text part.column, .bool (part.direction = .asc), .bool (part.nulls = .first)])

def runtimeKeysetOrder (order : List KeysetOrderColumn) :
    Except OrmErrorCode (List KeysetOrderColumn × String) :=
  if order = [] ∨ entity.keysetFields.length < order.length then .error .invalidInput
  else if !(order.all fun part => entity.hasField part.column) ∨
      ¬(order.map (·.column)).Nodup then .error .invalidInput
  else if entity.keysetPrimaryColumns = [] then .error .invalidInput
  else do
    let order ← appendPrimary entity order entity.keysetPrimaryColumns
    return (order,
      "runtime-keyset-v1:" ++ entity.entityName ++ ":" ++ (orderJson order).write)

/-- The order of a request and its fingerprint: the configured one unless another is given. -/
def requestOrder (order : Option (List KeysetOrderColumn)) :
    Except OrmErrorCode (List KeysetOrderColumn × String) :=
  match order with
  | some order => runtimeKeysetOrder entity order
  | none => .ok (entity.keysetOrder, entity.keysetFingerprint)

def valuesFor (runtime : Bool) (order : List KeysetOrderColumn) (node : τ) :
    Except OrmErrorCode (List (KeysetValue φ)) :=
  if runtime then
    order.mapM fun part => okOr .invalidInput (entity.keysetValueForColumn node part.column)
  else .ok (entity.keysetValues node)

variable {entity}

theorem appendPrimary_spec {order order' : List KeysetOrderColumn} {columns : List String}
    (appended : appendPrimary entity order columns = .ok order') (filled : order ≠ [])
    (known : ∀ part ∈ order, entity.hasField part.column = true) :
    order' ≠ [] ∧ ∀ part ∈ order', entity.hasField part.column = true := by
  induction columns generalizing order with
  | nil =>
    cases appended
    exact ⟨filled, known⟩
  | cons column columns ih =>
    rw [appendPrimary] at appended
    split at appended
    next field =>
      split at appended
      · exact ih appended filled known
      · refine ih appended (by simp) ?_
        intro part mem
        rcases List.mem_append.mp mem with earlier | new
        · exact known part earlier
        · rw [List.mem_singleton.mp new]
          exact field
    · cases appended

theorem runtimeKeysetOrder_spec {order order' : List KeysetOrderColumn} {fingerprint : String}
    (accepted : runtimeKeysetOrder entity order = .ok (order', fingerprint)) :
    order' ≠ [] ∧ ∀ part ∈ order', entity.hasField part.column = true := by
  rw [runtimeKeysetOrder] at accepted
  split at accepted
  · cases accepted
  next filled =>
    split at accepted
    · cases accepted
    next known =>
      split at accepted
      · cases accepted
      · obtain ⟨appended, done, same⟩ := bind_eq_ok.mp accepted
        cases same
        refine appendPrimary_spec done (fun none => filled (.inl none)) ?_
        simpa using (not_or.mp known).1

end Runtime

/-! ### One page -/

section Fetch

variable {τ δ φ υ : Type} [LinearOrder δ] (floats : FloatText φ) (parseUuid : String → Option υ)
  (digest : List String → String) (db : Database τ δ φ υ) (entity : AuthorizedKeysetEntity τ φ)
  (policies : Policies τ)

def boundAt (base : EntityQuery τ φ υ) (order : List KeysetOrderColumn) (side : Side)
    (position : Option (List (KeysetValue φ))) : Except OrmErrorCode (EntityQuery τ φ υ) :=
  match position with
  | some values => base.keysetBoundWithOrder parseUuid order values side false
  | none => .ok base

def readAhead (visibility : ReadVisibility τ) (base : EntityQuery τ φ υ)
    (order : List KeysetOrderColumn) (backward : Bool) (limit : Int)
    (position : Option (List (KeysetValue φ))) : Except OrmErrorCode (List τ) := do
  let query ← boundAt parseUuid base order (aheadSide backward) position
  let query := if backward then { query with order := order.map KeysetOrderColumn.reversed }
    else query
  let nodes ← query.boundedRows db (min (limit + 1) i64Max)
  checkRepositoryCandidates policies visibility nodes
  return nodes

def probeBehind (visibility : ReadVisibility τ) (base : EntityQuery τ φ υ)
    (order : List KeysetOrderColumn) (backward empty : Bool)
    (position : Option (List (KeysetValue φ))) : Except OrmErrorCode Bool :=
  match position with
  | some values => do
    let query ← base.keysetBoundWithOrder parseUuid order values (aheadSide !backward) empty
    let probe ← query.boundedRows db 1
    checkRepositoryCandidates policies visibility probe
    return !probe.isEmpty
  | none => .ok false

def edgesOf (fingerprint : String) (runtime : Bool) (order : List KeysetOrderColumn)
    (nodes : List τ) : Except OrmErrorCode (List (Edge τ)) :=
  nodes.mapM fun node => do
    return ⟨node, encodeKeysetCursor floats fingerprint (← valuesFor entity runtime order node)⟩

def fetchPage (visibility : ReadVisibility τ) (base : EntityQuery τ φ υ)
    (order : List KeysetOrderColumn) (fingerprint : String) (runtime backward : Bool) (limit : Int)
    (after : Option (List (KeysetValue φ))) (totalCount : Option Int) :
    Except OrmErrorCode (Connection τ) := do
  let ahead ← readAhead parseUuid db policies visibility base order backward limit after
  let hasMore := decide (limit < ahead.length)
  let nodes := ahead.take limit.toNat
  let first ← nodes.head?.mapM (valuesFor entity runtime order)
  let opposite ← probeBehind parseUuid db policies visibility base order backward nodes.isEmpty
    (first.or after)
  let nodes := if backward then nodes.reverse else nodes
  let (hasNextPage, hasPreviousPage) := if backward then (opposite, hasMore) else (hasMore, opposite)
  authorizePage entity policies order runtime nodes
  let edges ← edgesOf floats entity fingerprint runtime order nodes
  return ⟨edges, ⟨hasNextPage, hasPreviousPage, edges.head?.map (·.cursor),
    edges.getLast?.map (·.cursor), totalCount⟩⟩

def fetchAuthorizedKeysetConnectionWithOrder (query : EntityQuery τ φ υ)
    (page : KeysetConnectionInput) (order : Option (List KeysetOrderColumn)) :
    Except OrmErrorCode (Connection τ) := do
  let runtime := order.isSome
  let (order, fingerprint) ← requestOrder entity order
  let page ← page.validate PaginationConfig.DEFAULT_LIMIT i64Max
  let visibility ← authorizePagination policies
  authorizeKeysetOrderFields entity policies order runtime none
  if visibility.requiresResidualChecks && (policies.graphql || page.includeTotalCount) then
    throw .authorizationMisconfigured
  if query.requiresInMemoryFiltering then throw .invalidInput
  let base ← query.withReadVisibility db entity.entityName visibility
  let base := { base with order := order }
  let limit := db.paginationConfig.pageLimit (some page.limit)
  let fingerprint := bindKeysetFingerprint digest (if runtime then none else some entity.entityName)
    fingerprint base.keysetFilterIdentities
  let after ← page.cursor.mapM fun cursor =>
    decodeKeysetCursor floats cursor fingerprint order.length
  let totalCount ← if page.includeTotalCount then (base.countWithAuth db).map some else .ok none
  fetchPage floats parseUuid db entity policies visibility base order fingerprint runtime
    (page.direction = .backward) limit after totalCount

end Fetch

end GraphqlOrm.Query
