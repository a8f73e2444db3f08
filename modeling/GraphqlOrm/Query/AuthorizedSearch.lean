import GraphqlOrm.Foundation.StableSort
import GraphqlOrm.Query.AuthorizedScan

/-!
# Authorized searches

`fetch_authorized_connection`: a page of the hits of a search that the caller may see. The
search index answers it where it is installed. Otherwise the candidates are scored here, batch
by batch, and only the window of the best scores is kept.

## Main result

`fetchAuthorizedConnection_iff`: the page is the requested part of the sorted hits unless the
index finds a hit below the minimum score.
-/
namespace GraphqlOrm.Query

open Schema Outcome

/-! ### Requests and answers -/

/-- Query text and mode reach a search through the scores only. -/
structure SearchInput (σ : Type) where
  minScore : Option σ

structure SearchHit (τ σ : Type) where
  score : σ
  entity : τ

structure SearchConnectionEdge (τ σ : Type) where
  cursor : String
  score : σ
  node : τ

structure SearchConnection (τ σ : Type) where
  edges : List (SearchConnectionEdge τ σ)
  pageInfo : PageInfo

def SearchHit.rank {τ σ : Type} (hit : SearchHit τ σ) : σᵒᵈ := OrderDual.toDual hit.score

/-! ### The window of the best hits -/

variable {α : Type}

section Window

variable {τ σ : Type} [LinearOrder σ]

/-- The variables of the loop. -/
structure SearchState (τ σ : Type) where
  native : Option Bool
  scanned : Nat
  total : Nat
  retained : List (SearchHit τ σ)

/-- `slice::partition_point`. -/
def partitionPoint {α : Type} (p : α → Bool) (xs : List α) : Nat := (xs.takeWhile p).length

def insertRetained (window : Nat) (retained : List (SearchHit τ σ)) (hit : SearchHit τ σ) :
    List (SearchHit τ σ) :=
  if 0 < window then
    let position := partitionPoint (fun item => hit.score ≤ item.score) retained
    if position < window then
      let grown := retained.insertIdx position hit
      if window < grown.length then grown.dropLast else grown
    else retained
  else retained

def keepHit (native : Bool) (offset limit window : Nat) (state : SearchState τ σ)
    (hit : SearchHit τ σ) : SearchState τ σ :=
  { state with
    retained :=
      if native then
        if offset ≤ state.total ∧ state.retained.length < limit then state.retained ++ [hit]
        else state.retained
      else insertRetained window state.retained hit
    total := state.total + 1 }

theorem insertIdx_append_length (x : α) (before behind : List α) :
    (before ++ behind).insertIdx before.length x = before ++ x :: behind := by
  induction before with
  | nil => rfl
  | cons y ys ih => rw [List.cons_append, List.length_cons, List.insertIdx_succ_cons, ih]; rfl

theorem insertRetained_eq {window : Nat} {retained : List (SearchHit τ σ)} (hit : SearchHit τ σ)
    (bounded : retained.length ≤ window) : insertRetained window retained hit =
      (insertAfter SearchHit.rank hit retained).take window := by
  unfold insertRetained partitionPoint
  have split : retained.takeWhile (fun item => decide (hit.score ≤ item.score)) ++
      retained.dropWhile (fun item => decide (hit.score ≤ item.score)) = retained :=
    List.takeWhile_append_dropWhile
  have grown : insertAfter SearchHit.rank hit retained =
      retained.takeWhile (fun item => decide (hit.score ≤ item.score)) ++
        hit :: retained.dropWhile fun item => decide (hit.score ≤ item.score) :=
    insertAfter_eq SearchHit.rank hit retained
  generalize retained.takeWhile (fun item => decide (hit.score ≤ item.score)) = before at *
  generalize retained.dropWhile (fun item => decide (hit.score ≤ item.score)) = behind at *
  subst split
  rw [grown]
  rw [List.length_append] at bounded
  split
  · dsimp only
    split
    next inside =>
      rw [insertIdx_append_length, List.length_append, List.length_cons]
      split
      next full =>
        rw [List.dropLast_eq_take, List.length_append, List.length_cons]
        congr 1
        omega
      next room =>
        rw [List.take_of_length_le]
        rw [List.length_append, List.length_cons]
        omega
    next outside =>
      -- A full window of better hits.
      have whole : behind = [] := List.length_eq_zero_iff.mp (by omega)
      rw [whole, List.append_nil, List.take_append_of_le_length (by omega), List.take_of_length_le]
      omega
  next empty =>
    have none : before = [] := List.length_eq_zero_iff.mp (by omega)
    have nothing : behind = [] := List.length_eq_zero_iff.mp (by omega)
    rw [none, nothing, Nat.eq_zero_of_not_pos empty]
    rfl

/-- The counters and the kept hits after some visible hits. -/
structure Kept (native : Bool) (offset limit window : Nat) (visited : List (SearchHit τ σ))
    (state : SearchState τ σ) : Prop where
  total : state.total = visited.length
  retained : state.retained = if native then (visited.drop offset).take limit
    else (sortBy SearchHit.rank visited).take window

variable {native : Bool} {offset limit window : Nat} {visited : List (SearchHit τ σ)}
  {state : SearchState τ σ}

theorem Kept.keep (kept : Kept native offset limit window visited state) (hit : SearchHit τ σ) :
    Kept native offset limit window (visited ++ [hit])
      (keepHit native offset limit window state hit) := by
  constructor
  · rw [List.length_append, List.length_singleton, ← kept.total]
    rfl
  have before := kept.retained
  unfold keepHit
  dsimp only
  cases native with
  | true =>
    rw [if_pos rfl] at before ⊢
    rw [if_pos rfl, before, kept.total, List.length_take, List.length_drop]
    split
    next inside =>
      rw [List.drop_append_of_le_length inside.1, List.take_append, List.length_drop,
        List.take_of_length_le]
      · congr 1
        rw [List.take_of_length_le]
        rw [List.length_singleton]
        omega
      · rw [List.length_drop]
        omega
    next outside =>
      rcases Nat.lt_or_ge visited.length offset with early | late
      · rw [List.drop_eq_nil_of_le (Nat.le_of_lt early), List.drop_eq_nil_of_le]
        rw [List.length_append, List.length_singleton]
        exact early
      · rw [List.drop_append_of_le_length late, List.take_append_of_le_length]
        rw [List.length_drop]
        omega
  | false =>
    rw [if_neg Bool.false_ne_true] at before ⊢
    rw [if_neg Bool.false_ne_true, insertRetained_eq, before, take_insertAfter,
      insertAfter_sortBy]
    rw [before, List.length_take]
    exact Nat.min_le_left _ _

theorem Kept.foldl (kept : Kept native offset limit window visited state)
    (more : List (SearchHit τ σ)) : Kept native offset limit window (visited ++ more)
      (more.foldl (keepHit native offset limit window) state) := by
  induction more generalizing visited state with
  | nil =>
    rw [List.append_nil]
    exact kept
  | cons hit more ih =>
    have next := ih (kept.keep hit)
    rwa [List.append_assoc, List.singleton_append] at next

theorem foldl_keepHit (native : Bool) (offset limit window : Nat)
    (hits : List (SearchHit τ σ))
    (state : SearchState τ σ) :
    (hits.foldl (keepHit native offset limit window) state).native = state.native ∧
      (hits.foldl (keepHit native offset limit window) state).scanned = state.scanned := by
  induction hits generalizing state with
  | nil => exact ⟨rfl, rfl⟩
  | cons hit hits ih => exact ih _

/-- Batches may be sorted one by one. -/
theorem Kept.unsorted {more : List (SearchHit τ σ)}
    (kept : Kept false offset limit window (visited ++ sortBy SearchHit.rank more) state) :
    Kept false offset limit window (visited ++ more) state := by
  refine ⟨?_, ?_⟩
  · rw [kept.total, List.length_append, List.length_append, (sortBy_perm _ _).length_eq]
  · rw [kept.retained, if_neg Bool.false_ne_true, if_neg Bool.false_ne_true, sortBy_append_sortBy]

/-! ### The hits of a batch -/

variable (policies : Policies τ) (visibility : ReadVisibility τ)

def permission (row : τ) : Except ScanFault Bool :=
  if visibility.requiresResidualChecks then reported (policies.canReadRow row) else .ok true

def visitHit (native : Bool) (offset limit window : Nat) (state : SearchState τ σ)
    (hit : SearchHit τ σ) : Except ScanFault (SearchState τ σ) := do
  let permitted ← permission policies visibility hit.entity
  return if permitted then keepHit native offset limit window state hit else state

/-- The row callbacks let the caller see a row. -/
def shows (row : τ) : Bool :=
  !visibility.requiresResidualChecks || (policies.canReadRow row).toOption.getD false

/-- Faults that the caller is told about. -/
def Refused (fault : ScanFault) : Prop := ∃ code, fault = .orm code

theorem reported_error {x : Except OrmErrorCode α} {fault : ScanFault}
    (failed : reported x = .error fault) : Refused fault := by
  cases x with
  | ok value => cases failed
  | error code =>
    cases failed
    exact ⟨code, rfl⟩

theorem reported_eq_ok {x : Except OrmErrorCode α} {value : α} :
    reported x = .ok value ↔ x = .ok value := by
  cases x with
  | ok other => exact ⟨fun same => by cases same; rfl, fun same => by cases same; rfl⟩
  | error code => exact ⟨nofun, nofun⟩

variable {policies visibility} {final : SearchState τ σ} {fault : ScanFault}

theorem visitHit_ok {hit : SearchHit τ σ}
    (visited : visitHit policies visibility native offset limit window state hit = .ok final) :
    final = if shows policies visibility hit.entity then
        keepHit native offset limit window state hit else state := by
  obtain ⟨permitted, asked, made⟩ := bind_eq_ok.mp visited
  cases made
  unfold shows
  unfold permission at asked
  cases residual : visibility.requiresResidualChecks with
  | false =>
    rw [residual] at asked
    cases asked
    rfl
  | true =>
    rw [residual, if_pos rfl] at asked
    rw [reported_eq_ok.mp asked]
    rfl

theorem visitHit_error {hit : SearchHit τ σ}
    (failed : visitHit policies visibility native offset limit window state hit = .error fault) :
    Refused fault := by
  rcases bind_eq_error.mp failed with asked | ⟨permitted, _, made⟩
  · unfold permission at asked
    split at asked
    · exact reported_error asked
    · cases asked
  · cases made

variable (policies visibility native offset limit window) in
/-- A batch counts its visible hits, unless a callback fails. -/
theorem foldlM_visitHit (hits : List (SearchHit τ σ)) (state : SearchState τ σ) :
    (∃ fault, hits.foldlM (visitHit policies visibility native offset limit window) state =
        .error fault ∧ Refused fault) ∨
      hits.foldlM (visitHit policies visibility native offset limit window) state =
        .ok ((hits.filter fun hit => shows policies visibility hit.entity).foldl
          (keepHit native offset limit window) state) := by
  induction hits generalizing state with
  | nil => exact .inr rfl
  | cons hit hits ih =>
    rw [List.foldlM_cons]
    cases first : visitHit policies visibility native offset limit window state hit with
    | error fault => exact .inl ⟨fault, rfl, visitHit_error first⟩
    | ok next =>
      rw [visitHit_ok first, List.filter_cons]
      split
      · exact ih _
      · exact ih _

end Window

/-! ### The database -/

/-- One search and the tables that it reads. -/
structure SearchQuery (τ σ : Type) [LinearOrder σ] where
  entity : String
  backend : DatabaseBackend
  requiresInMemoryFiltering : Bool
  search : SearchInput σ
  /-- The rows that the caller's filters select, in the order of the query. -/
  rows : List τ
  /-- `fallback_score_document` of the row's document. -/
  fallbackScoreDocument : τ → σ
  /-- The matches of the search index among these rows. -/
  matched : List (SearchHit τ σ)
  /-- `ORDER BY __gom_search_score DESC`. -/
  ranked : matched.Pairwise fun a b => a.rank ≤ b.rank
  /-- The index answers for a whole connection, fails, or is not there. -/
  connectionIndex : Option (Except OrmErrorCode Unit)
  /-- The same for the candidates from an offset on. -/
  index : Nat → Option (Except OrmErrorCode Unit)
  /-- Whether the rows from an offset on can be read. -/
  readable : Nat → Except OrmErrorCode Unit
  paginationConfig : PaginationConfig
  scanConfig : Option AuthorizedScanConfig

def ReadVisibility.admits {τ : Type} (visibility : ReadVisibility τ) (row : τ) : Bool :=
  match visibility.predicate? with
  | some predicate => predicate.expression row = .holds
  | none => true

/-- `LIMIT` and `OFFSET` of a resolved page. -/
def PaginationRequest.rows {α : Type} (page : PaginationRequest) (xs : List α) : List α :=
  match page.limit with
  | some limit => (xs.drop page.offset.toNat).take limit.toNat
  | none => xs.drop page.offset.toNat

def searchConnection {τ σ : Type} (offset : Nat) (hits : List (SearchHit τ σ)) (total : Nat) :
    SearchConnection τ σ :=
  let edges := hits.mapIdx fun index hit => ⟨toString (offset + index), hit.score, hit.entity⟩
  { edges
    pageInfo := {
      hasNextPage := decide (offset + edges.length < total)
      hasPreviousPage := decide (0 < offset)
      startCursor := edges.head?.map (·.cursor)
      endCursor := edges.getLast?.map (·.cursor)
      totalCount := some total } }

/-- A connection is the part of sorted hits that a page asks for. -/
structure SortedSlice {τ σ : Type} (hits : List (SearchHit τ σ)) (page : PaginationRequest)
    (connection : SearchConnection τ σ) : Prop where
  edges : connection.edges = (page.rows hits).mapIdx fun index hit =>
    ⟨toString (page.offset.toNat + index), hit.score, hit.entity⟩
  total : connection.pageInfo.totalCount = some (hits.length : Int)
  next : connection.pageInfo.hasNextPage = true ↔
    ∃ limit, page.limit = some limit ∧ page.offset.toNat + limit.toNat < hits.length

theorem searchConnection_slice {τ σ : Type} (hits : List (SearchHit τ σ))
    (page : PaginationRequest) : SortedSlice hits page
      (searchConnection page.offset.toNat (page.rows hits) hits.length) := by
  refine ⟨rfl, rfl, ?_⟩
  unfold searchConnection PaginationRequest.rows
  dsimp only
  rw [decide_eq_true_eq, List.length_mapIdx]
  cases page.limit with
  | none =>
    dsimp only
    rw [List.length_drop]
    exact iff_of_false (by omega) nofun
  | some limit =>
    dsimp only
    rw [List.length_take, List.length_drop]
    constructor
    · intro more
      exact ⟨limit, rfl, by omega⟩
    · rintro ⟨_, ⟨⟩, more⟩
      omega

section Search

variable {τ σ : Type} [LinearOrder σ] [Zero σ] (query : SearchQuery τ σ) (policies : Policies τ)
  (visibility : ReadVisibility τ)

namespace SearchQuery

/-! ### Reading the candidates -/

/-- `with_read_visibility` adds the predicate to the conditions of the query. -/
def candidates : List τ := query.rows.filter visibility.admits

def found : List (SearchHit τ σ) := query.matched.filter fun hit => visibility.admits hit.entity

/-- A document scores against the minimum; what does not match scores zero. -/
def scoreEntity (entity : τ) : Option (SearchHit τ σ) :=
  let score := query.fallbackScoreDocument entity
  if query.search.minScore.getD 0 ≤ score ∧ 0 < score then some ⟨score, entity⟩ else none

def scoreEntities (entities : List τ) : List (SearchHit τ σ) :=
  sortBy SearchHit.rank (entities.filterMap query.scoreEntity)

/-- The rows are already ranked by the index; the minimum score is no part of its statement. -/
def tryFetchNative (offset size : Nat) : Option (Except OrmErrorCode (List (SearchHit τ σ))) :=
  (query.index offset).map fun answer => answer.map fun _ =>
    (PaginationConfig.unbounded.resolvePage (some ⟨some size, some offset⟩) false).rows
      (query.found visibility)

def fetchAll (offset size : Nat) : Except OrmErrorCode (List τ) :=
  (query.readable offset).map fun _ =>
    (PaginationConfig.unbounded.resolvePage (some ⟨some size, some offset⟩) false).rows
      (query.candidates visibility)

def tryFetchNativeConnection (page : Option PageInput) :
    Option (Except OrmErrorCode (SearchConnection τ σ)) :=
  query.connectionIndex.map fun answer => answer.map fun _ =>
    let resolved := query.paginationConfig.resolvePage page true
    searchConnection resolved.offset.toNat (resolved.rows (query.found visibility))
      (query.found visibility).length

/-! ### The loop -/

/-- The next candidates: whether the index found them, the hits and the number of rows. -/
def candidateBatch (native : Option Bool) (offset size : Nat) :
    Except ScanFault (Bool × List (SearchHit τ σ) × Nat) :=
  match if native = some false then none else query.tryFetchNative visibility offset size with
  | some result => do
    let hits ← reported result
    return (true, hits, hits.length)
  | none =>
    if native = some true then .error (.orm .authorizationMisconfigured)
    else do
      let rows ← reported (query.fetchAll visibility offset size)
      return (false, query.scoreEntities rows, rows.length)

def searchBatch (config : AuthorizedScanConfig) (offset limit window : Nat) (state : SearchState τ σ) :
    Except ScanFault (SearchState τ σ × Bool) := do
  let budget ← checkedSub config.maxScannedRows.toNat state.scanned
  let size := min config.batchSize.toNat budget
  if size = 0 then throw (.orm .authorizationMisconfigured)
  let (native, hits, fetched) ← query.candidateBatch visibility state.native state.scanned size
  if 2 ^ 32 ≤ state.scanned + fetched then throw .arithmetic
  let state := { state with native := some native, scanned := state.scanned + fetched }
  let state ← hits.foldlM (visitHit policies visibility native offset limit window) state
  return (state, fetched < size)

def searchLoop (config : AuthorizedScanConfig) (offset limit window : Nat) :
    Nat → SearchState τ σ → Except ScanFault (SearchState τ σ)
  | 0, _ => .error .unfinished
  | turns + 1, state => do
    let (state, exhausted) ← query.searchBatch policies visibility config offset limit window state
    if exhausted then return state
    else searchLoop config offset limit window turns state

/-- Every turn but the last examines a candidate, so the budget bounds their number. -/
def searchScan (page : Option PageInput) : Except ScanFault (SearchConnection τ σ) := do
  let config ← reported (okOr .authorizationMisconfigured query.scanConfig)
  if config.batchSize = 0 ∨ config.maxScannedRows = 0 then
    throw (.orm .authorizationMisconfigured)
  let resolved := query.paginationConfig.resolvePage page true
  let offset := resolved.offset.toNat
  let limit ← reported (okOr .authorizationMisconfigured resolved.limit)
  let window := min (min (offset + limit.toNat) (2 ^ 64 - 1)) config.maxScannedRows.toNat
  let state ← query.searchLoop policies visibility config offset limit.toNat window
    (config.maxScannedRows.toNat + 1) ⟨none, 0, 0, []⟩
  let hits := if state.native = some true then state.retained
    else (state.retained.drop offset).take limit.toNat
  return searchConnection offset hits state.total

def fetchAuthorizedConnection (page : Option PageInput) :
    Except ScanFault (SearchConnection τ σ) := do
  let visibility ← reported policies.readVisibility
  reported (visibility.validate query.entity query.backend)
  if query.requiresInMemoryFiltering then throw (.orm .authorizationMisconfigured)
  match if visibility.requiresResidualChecks then none
    else query.tryFetchNativeConnection visibility page with
  | some result => reported result
  | none => query.searchScan policies visibility page

/-! ### The hits of the caller -/

/-- What is searched: the matches of the index, or the rows of positive score. -/
def hits (indexed : Bool) : List (SearchHit τ σ) :=
  if indexed then query.found visibility
  else ((query.candidates visibility).map fun row =>
    ⟨query.fallbackScoreDocument row, row⟩).filter fun hit => 0 < hit.score

def visibleHits (indexed : Bool) : List (SearchHit τ σ) :=
  (query.hits visibility indexed).filter fun hit => shows policies visibility hit.entity

def reachesMinimum (hit : SearchHit τ σ) : Bool := query.search.minScore.all (· ≤ hit.score)

def rankedHits (indexed : Bool) : List (SearchHit τ σ) :=
  sortBy SearchHit.rank ((query.visibleHits policies visibility indexed).filter query.reachesMinimum)

/-- The hits of which a page is returned: the index does not look at the minimum score. -/
def answered (indexed : Bool) : List (SearchHit τ σ) :=
  if indexed then query.visibleHits policies visibility true
  else query.rankedHits policies visibility false

def available (indexed : Bool) : Nat :=
  if indexed then (query.found visibility).length else (query.candidates visibility).length

/-- Whether the index answers: for the connection where no row needs a callback, or for the
first candidates. -/
def indexed : Bool :=
  !visibility.requiresResidualChecks && query.connectionIndex.isSome || (query.index 0).isSome

def counted (indexed : Bool) (count : Nat) : List (SearchHit τ σ) :=
  (if indexed then (query.found visibility).take count
    else ((query.candidates visibility).take count).filterMap query.scoreEntity).filter
      fun hit => shows policies visibility hit.entity

variable {query policies visibility}

theorem rows_unbounded (offset size : Nat) (xs : List α) :
    (PaginationConfig.unbounded.resolvePage (some ⟨some size, some offset⟩) false).rows xs =
      (xs.drop offset).take size := by
  simp [PaginationConfig.resolvePage, PaginationConfig.unbounded, PaginationRequest.rows,
    PaginationConfig.clampExplicitLimit, PaginationConfig.clampLimitValue]

/-! ### One turn -/

/-- What the loop knows: the candidates that it has scanned, and their hits. -/
structure Progress (query : SearchQuery τ σ) (policies : Policies τ)
    (visibility : ReadVisibility τ) (offset limit window : Nat) (state : SearchState τ σ) :
    Prop where
  path : state.native = some (query.index 0).isSome ∨ state.native = none ∧ state.scanned = 0
  kept : Kept (query.index 0).isSome offset limit window
    (query.counted policies visibility (query.index 0).isSome state.scanned) state

-- The next hits, by who finds them.

theorem candidateBatch_indexed {native : Option Bool} {answer : Except OrmErrorCode Unit}
    (asks : native ≠ some false) {offset : Nat} (answers : query.index offset = some answer)
    (size : Nat) :
    (∃ fault, query.candidateBatch visibility native offset size = .error fault ∧
      Refused fault) ∨
    query.candidateBatch visibility native offset size =
      .ok (true, ((query.found visibility).drop offset).take size,
        min size ((query.found visibility).length - offset)) := by
  have fetched : query.tryFetchNative visibility offset size =
      some (answer.map fun _ => ((query.found visibility).drop offset).take size) := by
    unfold tryFetchNative
    rw [answers, rows_unbounded]
    rfl
  unfold candidateBatch
  rw [if_neg asks, fetched]
  cases answer with
  | error code => exact .inl ⟨_, rfl, code, rfl⟩
  | ok _ =>
    refine .inr ?_
    rw [← List.length_drop, ← List.length_take]
    rfl

theorem candidateBatch_lost {offset : Nat} (absent : query.index offset = none) (size : Nat) :
    query.candidateBatch visibility (some true) offset size =
      .error (.orm .authorizationMisconfigured) := by
  unfold candidateBatch tryFetchNative
  rw [absent]
  rfl

theorem candidateBatch_scored {native : Option Bool} {offset : Nat}
    (other : native = some false ∨ native = none ∧ query.index offset = none) (size : Nat) :
    (∃ fault, query.candidateBatch visibility native offset size = .error fault ∧
      Refused fault) ∨
    query.candidateBatch visibility native offset size =
      .ok (false, query.scoreEntities (((query.candidates visibility).drop offset).take size),
        min size ((query.candidates visibility).length - offset)) := by
  have none_ : (if native = some false then none
      else query.tryFetchNative visibility offset size) = none := by
    rcases other with rfl | ⟨rfl, absent⟩
    · exact if_pos rfl
    · unfold tryFetchNative
      rw [absent]
      rfl
  have open_ : native ≠ some true := by
    rcases other with rfl | ⟨rfl, _⟩
    · exact nofun
    · exact nofun
  unfold candidateBatch
  rw [none_]
  dsimp only
  rw [if_neg open_]
  unfold fetchAll
  rw [rows_unbounded]
  cases query.readable offset with
  | error code => exact .inl ⟨_, rfl, code, rfl⟩
  | ok _ =>
    refine .inr ?_
    rw [← List.length_drop, ← List.length_take]
    rfl

theorem take_add_min (xs : List α) (count size : Nat) :
    xs.take (count + min size (xs.length - count)) = xs.take count ++ (xs.drop count).take size := by
  rw [List.take_add]
  congr 1
  rw [List.take_eq_take_iff, List.length_drop]
  omega

section Batch

variable {offset limit window count size : Nat} {state : SearchState τ σ}

theorem kept_indexed (kept : Kept true offset limit window
      (query.counted policies visibility true count) state) (size : Nat) :
    Kept true offset limit window (query.counted policies visibility true
        (count + min size ((query.found visibility).length - count)))
      (((((query.found visibility).drop count).take size).filter fun hit =>
        shows policies visibility hit.entity).foldl (keepHit true offset limit window) state) := by
  have grown := kept.foldl ((((query.found visibility).drop count).take size).filter fun hit =>
    shows policies visibility hit.entity)
  unfold counted at grown ⊢
  rw [if_pos rfl] at grown ⊢
  rwa [take_add_min, List.filter_append]

theorem kept_scored (kept : Kept false offset limit window
      (query.counted policies visibility false count) state) (size : Nat) :
    Kept false offset limit window (query.counted policies visibility false
        (count + min size ((query.candidates visibility).length - count)))
      (((query.scoreEntities (((query.candidates visibility).drop count).take size)).filter
        fun hit => shows policies visibility hit.entity).foldl
          (keepHit false offset limit window) state) := by
  have grown := kept.foldl ((query.scoreEntities
    (((query.candidates visibility).drop count).take size)).filter fun hit =>
      shows policies visibility hit.entity)
  -- The visible hits of a sorted batch are its sorted visible hits.
  unfold scoreEntities at grown ⊢
  rw [← sortBy_filter] at grown ⊢
  have whole := grown.unsorted
  unfold counted at whole ⊢
  rw [if_neg Bool.false_ne_true] at whole ⊢
  rwa [take_add_min, List.filterMap_append, List.filter_append]

/-- A batch counts the hits among its candidates. -/
theorem candidateBatch_spec
    (progress : Progress query policies visibility offset limit window state) (size : Nat) :
    (∃ fault, query.candidateBatch visibility state.native state.scanned size = .error fault ∧
      Refused fault) ∨
    ∃ hits, query.candidateBatch visibility state.native state.scanned size =
        .ok ((query.index 0).isSome, hits,
          min size (query.available visibility (query.index 0).isSome - state.scanned)) ∧
      ∀ next : SearchState τ σ, next.total = state.total → next.retained = state.retained →
        Kept (query.index 0).isSome offset limit window
          (query.counted policies visibility (query.index 0).isSome (state.scanned +
            min size (query.available visibility (query.index 0).isSome - state.scanned)))
          ((hits.filter fun hit => shows policies visibility hit.entity).foldl
            (keepHit (query.index 0).isSome offset limit window) next) := by
  have kept {next : SearchState τ σ} (total : next.total = state.total)
      (retained : next.retained = state.retained) : Kept (query.index 0).isSome offset limit window
        (query.counted policies visibility (query.index 0).isSome state.scanned) next :=
    ⟨total.trans progress.kept.total, retained.trans progress.kept.retained⟩
  have path := progress.path
  cases first : query.index 0 with
  | some answer =>
    rw [first] at path kept
    have asks : state.native ≠ some false := by
      rcases path with told | ⟨fresh, _⟩
      · exact told ▸ nofun
      · exact fresh ▸ nofun
    cases here : query.index state.scanned with
    | some other =>
      refine (candidateBatch_indexed asks here size).imp_right fun done => ⟨_, done, ?_⟩
      exact fun next total retained => kept_indexed (kept total retained) size
    | none =>
      rcases path with told | ⟨_, start⟩
      · rw [told]
        exact .inl ⟨_, candidateBatch_lost here size, _, rfl⟩
      · rw [start, first] at here
        cases here
  | none =>
    rw [first] at path kept
    have other : state.native = some false ∨
        state.native = none ∧ query.index state.scanned = none := by
      rcases path with told | ⟨fresh, start⟩
      · exact .inl told
      · exact .inr ⟨fresh, start ▸ first⟩
    refine (candidateBatch_scored other size).imp_right fun done => ⟨_, done, ?_⟩
    exact fun next total retained => kept_scored (kept total retained) size

/-! ### The loop -/

variable {config : AuthorizedScanConfig}

theorem searchBatch_spec
    (progress : Progress query policies visibility offset limit window state)
    (within : state.scanned ≤ config.maxScannedRows.toNat) :
    (∃ fault, query.searchBatch policies visibility config offset limit window state =
      .error fault ∧ Refused fault) ∨
    ∃ final exhausted, query.searchBatch policies visibility config offset limit window state =
        .ok (final, exhausted) ∧
      Progress query policies visibility offset limit window final ∧
      final.native = some (query.index 0).isSome ∧
      final.scanned ≤ config.maxScannedRows.toNat ∧
      if exhausted then query.available visibility (query.index 0).isSome ≤ final.scanned ∧
          final.scanned < config.maxScannedRows.toNat
        else state.scanned < final.scanned := by
  have budget : checkedSub config.maxScannedRows.toNat state.scanned =
      .ok (config.maxScannedRows.toNat - state.scanned) := if_pos within
  unfold searchBatch
  rw [budget]
  simp only [bind, Except.bind]
  split
  · exact .inl ⟨_, rfl, _, rfl⟩
  next filled =>
    have small := config.maxScannedRows.toNat_lt
    rcases candidateBatch_spec progress (min config.batchSize.toNat
        (config.maxScannedRows.toNat - state.scanned)) with ⟨fault, failed, told⟩ |
      ⟨hits, fetched, counts⟩
    · rw [failed]
      exact .inl ⟨fault, rfl, told⟩
    · rw [fetched]
      dsimp only
      rw [if_neg (by omega)]
      dsimp only [pure, Except.pure]
      generalize opened : ({ state with
        native := some (query.index 0).isSome
        scanned := _ } : SearchState τ σ) = next
      rcases foldlM_visitHit (query.index 0).isSome offset limit window policies visibility hits
        next with ⟨fault, failed, told⟩ | visited
      · rw [failed]
        exact .inl ⟨fault, rfl, told⟩
      · rw [visited]
        have same := foldl_keepHit (query.index 0).isSome offset limit window
          (hits.filter fun hit => shows policies visibility hit.entity) next
        rw [← opened] at same
        refine .inr ⟨_, _, rfl, ⟨.inl ?_, ?_⟩, ?_, ?_, ?_⟩
        · rw [← opened, same.1]
        · rw [← opened, same.2]
          exact counts _ rfl rfl
        · rw [← opened, same.1]
        · rw [← opened, same.2]
          dsimp only
          omega
        · rw [← opened, same.2]
          dsimp only
          split
          next short =>
            rw [decide_eq_true_eq] at short
            omega
          next full =>
            rw [decide_eq_true_eq] at full
            omega

theorem searchLoop_spec {turns : Nat}
    (progress : Progress query policies visibility offset limit window state)
    (within : state.scanned ≤ config.maxScannedRows.toNat)
    (enough : config.maxScannedRows.toNat < state.scanned + turns) :
    (∃ fault, query.searchLoop policies visibility config offset limit window turns state =
      .error fault ∧ Refused fault) ∨
    ∃ final, query.searchLoop policies visibility config offset limit window turns state =
        .ok final ∧
      Progress query policies visibility offset limit window final ∧
      final.native = some (query.index 0).isSome ∧
      query.available visibility (query.index 0).isSome ≤ final.scanned ∧
      final.scanned < config.maxScannedRows.toNat := by
  induction turns generalizing state with
  | zero => omega
  | succ turns ih =>
    unfold searchLoop
    rcases searchBatch_spec progress within with ⟨fault, failed, told⟩ |
      ⟨next, exhausted, done, later, path, inside, turn⟩
    · rw [failed]
      exact .inl ⟨fault, rfl, told⟩
    · rw [done]
      simp only [bind, Except.bind]
      cases exhausted with
      | true =>
        rw [if_pos rfl] at turn
        exact .inr ⟨next, rfl, later, path, turn⟩
      | false =>
        rw [if_neg Bool.false_ne_true] at turn
        exact ih later inside (by omega)

/-! ### The page -/

/-- Scoring keeps the rows of positive score that reach the minimum. -/
theorem scored_eq (rows : List τ) : rows.filterMap query.scoreEntity =
    (rows.map fun row => (⟨query.fallbackScoreDocument row, row⟩ : SearchHit τ σ)).filter
      fun hit => query.reachesMinimum hit && decide (0 < hit.score) := by
  rw [← List.filterMap_eq_filter, List.filterMap_map]
  congr 1
  funext row
  unfold scoreEntity Option.guard reachesMinimum
  refine if_congr ?_ rfl rfl
  dsimp only
  rw [Bool.and_eq_true, decide_eq_true_eq]
  refine and_congr_left fun positive => ?_
  cases query.search.minScore with
  | none => exact iff_of_true (le_of_lt positive) rfl
  | some minimum => rw [Option.getD_some, Option.all_some, decide_eq_true_eq]

theorem counted_all {indexed : Bool} {count : Nat}
    (all : query.available visibility indexed ≤ count) :
    query.counted policies visibility indexed count = if indexed then
      query.visibleHits policies visibility true
    else (query.visibleHits policies visibility false).filter query.reachesMinimum := by
  unfold counted available visibleHits hits at *
  cases indexed with
  | true =>
    rw [if_pos rfl] at all
    rw [if_pos rfl, if_pos rfl, if_pos rfl, List.take_of_length_le all]
  | false =>
    rw [if_neg Bool.false_ne_true] at all ⊢
    rw [if_neg Bool.false_ne_true, if_neg Bool.false_ne_true, List.take_of_length_le all, scored_eq]
    simp only [List.filter_filter, Bool.and_left_comm]

theorem counted_length_le (indexed : Bool) (count : Nat) :
    (query.counted policies visibility indexed count).length ≤
      query.available visibility indexed := by
  unfold counted available
  cases indexed with
  | true => exact (List.length_filter_le _ _).trans (List.length_take_le' _ _)
  | false =>
    exact (List.length_filter_le _ _).trans
      ((List.length_filterMap_le _ _).trans (List.length_take_le' _ _))

theorem kept_start (indexed : Bool) : Kept indexed offset limit window
    (query.counted policies visibility indexed 0) ⟨none, 0, 0, []⟩ := by
  have none_ : query.counted policies visibility indexed 0 = [] := by
    unfold counted
    cases indexed with
    | true => rfl
    | false => rfl
  rw [none_]
  refine ⟨rfl, ?_⟩
  cases indexed with
  | true => rw [if_pos rfl, List.drop_nil, List.take_nil]
  | false => rw [if_neg Bool.false_ne_true, sortBy_nil, List.take_nil]

/-- A window that covers the page loses nothing of it. -/
theorem page_of_window {xs : List α} {offset limit window : Nat}
    (covers : min (offset + limit) xs.length ≤ window) :
    ((xs.take window).drop offset).take limit = (xs.drop offset).take limit := by
  rw [List.drop_take, List.take_take, List.take_eq_take_iff, List.length_drop]
  omega

/-- After the last candidate the page can be cut from the kept hits. -/
theorem kept_page {indexed : Bool}
    (kept : Kept indexed offset limit window
      (query.counted policies visibility indexed state.scanned) state)
    (all : query.available visibility indexed ≤ state.scanned)
    (covers : min (offset + limit) (query.available visibility indexed) ≤ window) :
    state.total = (query.answered policies visibility indexed).length ∧
      (if indexed = true then state.retained else (state.retained.drop offset).take limit) =
        ((query.answered policies visibility indexed).drop offset).take limit := by
  have counts : (query.counted policies visibility indexed state.scanned).length ≤
      query.available visibility indexed := counted_length_le _ _
  have total := kept.total
  have retained := kept.retained
  rw [counted_all all] at total retained counts
  unfold answered rankedHits
  cases indexed with
  | true =>
    rw [if_pos rfl] at total retained ⊢
    rw [if_pos rfl] at retained ⊢
    exact ⟨total, retained⟩
  | false =>
    rw [if_neg Bool.false_ne_true] at total retained counts ⊢
    rw [if_neg Bool.false_ne_true] at retained ⊢
    have length := (sortBy_perm SearchHit.rank
      ((query.visibleHits policies visibility false).filter query.reachesMinimum)).length_eq
    refine ⟨total.trans length.symm, ?_⟩
    rw [retained, page_of_window]
    omega

theorem searchScan_spec (page : Option PageInput) :
    (∃ fault, query.searchScan policies visibility page = .error fault ∧ Refused fault) ∨
    query.searchScan policies visibility page = .ok (searchConnection
        (query.paginationConfig.resolvePage page true).offset.toNat
        ((query.paginationConfig.resolvePage page true).rows
          (query.answered policies visibility (query.index 0).isSome))
        (query.answered policies visibility (query.index 0).isSome).length) ∧
      ∀ config, query.scanConfig = some config →
        query.available visibility (query.index 0).isSome < config.maxScannedRows.toNat := by
  unfold searchScan
  cases configured : query.scanConfig with
  | none => exact .inl ⟨_, rfl, _, rfl⟩
  | some config =>
    simp only [okOr, reported_ok, bind, Except.bind]
    split
    · exact .inl ⟨_, rfl, _, rfl⟩
    generalize query.paginationConfig.resolvePage page true = resolved
    obtain ⟨limit, offset⟩ := resolved
    cases limit with
    | none => exact .inl ⟨_, rfl, _, rfl⟩
    | some limit =>
      dsimp only [pure, Except.pure, reported_ok]
      have small := config.maxScannedRows.toNat_lt
      generalize frame : min (min (offset.toNat + limit.toNat) (2 ^ 64 - 1))
        config.maxScannedRows.toNat = window
      have start : Progress query policies visibility offset.toNat limit.toNat window
          ⟨none, 0, 0, []⟩ :=
        ⟨.inr ⟨rfl, rfl⟩, kept_start _⟩
      have enough : config.maxScannedRows.toNat < 0 + (config.maxScannedRows.toNat + 1) := by omega
      rcases searchLoop_spec start (Nat.zero_le _) enough with ⟨fault, failed, told⟩ |
        ⟨final, done, progress, path, all, inside⟩
      · rw [failed]
        exact .inl ⟨fault, rfl, told⟩
      · rw [done]
        refine .inr ⟨?_, fun _ same => Option.some.inj same ▸ Nat.lt_of_le_of_lt all inside⟩
        obtain ⟨total, hits⟩ := kept_page progress.kept all (by omega)
        dsimp only
        rw [path, total]
        simp only [Option.some.injEq]
        rw [hits]
        rfl

/-- Where no callback can veto, the index answers for the whole connection. -/
theorem answered_found (complete : visibility.requiresResidualChecks = false) :
    query.answered policies visibility true = query.found visibility := by
  unfold answered visibleHits hits
  rw [if_pos rfl, if_pos rfl, List.filter_eq_self]
  intro hit _
  unfold shows
  rw [complete]
  rfl

/-- A request is refused, or it returns a page of the hits of its path. -/
theorem fetchAuthorizedConnection_spec (page : Option PageInput) :
    (∃ fault, query.fetchAuthorizedConnection policies page = .error fault ∧ Refused fault) ∨
    ∃ visibility, policies.readVisibility = .ok visibility ∧
      query.fetchAuthorizedConnection policies page = .ok (searchConnection
        (query.paginationConfig.resolvePage page true).offset.toNat
        ((query.paginationConfig.resolvePage page true).rows
          (query.answered policies visibility (query.indexed visibility)))
        (query.answered policies visibility (query.indexed visibility)).length) ∧
      (visibility.requiresResidualChecks = true ∨ query.connectionIndex = none →
        ∀ config, query.scanConfig = some config →
          query.available visibility (query.index 0).isSome < config.maxScannedRows.toNat) := by
  unfold fetchAuthorizedConnection
  cases answer : policies.readVisibility with
  | error code => exact .inl ⟨_, rfl, code, rfl⟩
  | ok visibility =>
    simp only [reported_ok, bind, Except.bind]
    cases valid : visibility.validate query.entity query.backend with
    | error code => exact .inl ⟨_, rfl, code, rfl⟩
    | ok _ =>
      dsimp only [reported_ok]
      split
      · exact .inl ⟨_, rfl, _, rfl⟩
      have scan (path : query.indexed visibility = (query.index 0).isSome) :
          (∃ fault, query.searchScan policies visibility page = .error fault ∧ Refused fault) ∨
          ∃ other, Except.ok visibility = (.ok other : Except OrmErrorCode (ReadVisibility τ)) ∧
            query.searchScan policies visibility page = .ok (searchConnection
              (query.paginationConfig.resolvePage page true).offset.toNat
              ((query.paginationConfig.resolvePage page true).rows
                (query.answered policies other (query.indexed other)))
              (query.answered policies other (query.indexed other)).length) ∧
            (other.requiresResidualChecks = true ∨ query.connectionIndex = none →
              ∀ config, query.scanConfig = some config →
                query.available other (query.index 0).isSome < config.maxScannedRows.toNat) :=
        (searchScan_spec page).imp_right fun done =>
          ⟨visibility, rfl, path ▸ done.1, fun _ => done.2⟩
      unfold indexed at scan ⊢
      cases residual : visibility.requiresResidualChecks with
      | true =>
        rw [residual] at scan
        exact scan rfl
      | false =>
        unfold tryFetchNativeConnection
        cases direct : query.connectionIndex with
        | none =>
          rw [residual, direct] at scan
          exact scan rfl
        | some connection =>
          cases connection with
          | error code => exact .inl ⟨_, rfl, code, rfl⟩
          | ok _ =>
            refine .inr ⟨visibility, rfl, ?_, fun scans => ?_⟩
            · rw [residual]
              simp only [Option.isSome_some, Bool.not_false, Bool.true_and, Bool.true_or]
              rw [answered_found residual]
              rfl
            · rw [residual] at scans
              rcases scans with more | absent
              · cases more
              · cases absent

/-- Leaving hits out shows in the total. -/
theorem sortedSlice_answered_iff {indexed : Bool} (page : PaginationRequest) :
    SortedSlice (query.rankedHits policies visibility indexed) page
        (searchConnection page.offset.toNat (page.rows (query.answered policies visibility indexed))
          (query.answered policies visibility indexed).length) ↔
      (indexed = true →
        ∀ hit ∈ query.visibleHits policies visibility true, query.reachesMinimum hit = true) := by
  have sliced := searchConnection_slice (query.answered policies visibility indexed) page
  cases indexed with
  | false => exact iff_of_true sliced nofun
  | true =>
    have ordered : (query.visibleHits policies visibility true).Pairwise fun a b =>
        a.rank ≤ b.rank := (query.ranked.filter _).filter _
    constructor
    · intro slice _
      have lengths : (query.answered policies visibility true).length =
          (query.rankedHits policies visibility true).length := by
        have same := sliced.total.symm.trans slice.total
        simpa using same
      unfold answered rankedHits at lengths
      rw [if_pos rfl, (sortBy_perm _ _).length_eq] at lengths
      exact List.length_filter_eq_length_iff.mp lengths.symm
    · intro reach
      have same : query.rankedHits policies visibility true =
          query.answered policies visibility true := by
        unfold rankedHits answered
        rw [List.filter_eq_self.mpr (reach rfl), if_pos rfl, sortBy_of_ordered ordered]
      rw [same]
      exact sliced

end Batch

/-- A request stops, with a page or a refusal; it is refused unless the candidates end within
the budget of the scan. The page is the requested part of the sorted visible hits exactly where
the index does not answer, or finds no visible hit below the minimum score. -/
theorem fetchAuthorizedConnection_iff (page : Option PageInput) :
    (∀ fault, query.fetchAuthorizedConnection policies page = .error fault → Refused fault) ∧
    (∀ visibility config, policies.readVisibility = .ok visibility →
      query.scanConfig = some config →
      visibility.requiresResidualChecks = true ∨ query.connectionIndex = none →
      config.maxScannedRows.toNat < query.available visibility (query.index 0).isSome →
        ∃ fault, query.fetchAuthorizedConnection policies page = .error fault) ∧
    ∀ connection, query.fetchAuthorizedConnection policies page = .ok connection →
      ∃ visibility, policies.readVisibility = .ok visibility ∧
        (SortedSlice (query.rankedHits policies visibility (query.indexed visibility))
            (query.paginationConfig.resolvePage page true) connection ↔
          (query.indexed visibility = true → ∀ hit ∈ query.visibleHits policies visibility true,
            query.reachesMinimum hit = true)) := by
  have outcome := @fetchAuthorizedConnection_spec τ σ _ _ query policies page
  rcases outcome with ⟨fault, failed, told⟩ | ⟨visibility, allowed, done, budget⟩
  · rw [failed]
    exact ⟨fun _ same => Except.error.inj same ▸ told, fun _ _ _ _ _ _ => ⟨fault, rfl⟩, nofun⟩
  · rw [done]
    refine ⟨nofun, fun other config seen configured scans exceeded => ?_, ?_⟩
    · rw [allowed] at seen
      cases seen
      have enough := budget scans config configured
      omega
    · rintro connection ⟨⟩
      exact ⟨visibility, allowed, sortedSlice_answered_iff _⟩

end SearchQuery
end Search

/-- The index finds the only row with score 1, and the caller asks for 2 at least. -/
def weakMatch : SearchQuery Nat Int where
  entity := "Article"
  backend := .sqlite
  requiresInMemoryFiltering := false
  search := ⟨some 2⟩
  rows := [7]
  fallbackScoreDocument _ := 1
  matched := [⟨1, 7⟩]
  ranked := List.pairwise_singleton _ _
  connectionIndex := some (.ok ())
  index _ := some (.ok ())
  readable _ := .ok ()
  paginationConfig := ⟨some 10, some 100⟩
  scanConfig := some ⟨2, 5, []⟩

def reader : Policies Nat where
  graphql := true
  entityAccess := .ok ()
  readVisibility := .ok .callbackOnly
  readableField _ _ _ := .ok ()
  canReadRow _ := .ok true

theorem weakMatch_returned :
    ∃ connection, weakMatch.fetchAuthorizedConnection reader none = .ok connection ∧
      connection.edges.map (·.node) = [7] ∧
      ¬SortedSlice (weakMatch.rankedHits reader .callbackOnly true)
        (weakMatch.paginationConfig.resolvePage none true) connection := by
  refine ⟨_, rfl, rfl, fun slice => ?_⟩
  have total := slice.total
  have none_ : weakMatch.rankedHits reader .callbackOnly true = [] := rfl
  rw [none_] at total
  cases total

end GraphqlOrm.Query
