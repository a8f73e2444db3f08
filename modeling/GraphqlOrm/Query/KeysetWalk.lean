import GraphqlOrm.Query.KeysetPages

/-!
# Walking through keyset pages

Following the cursor of one page to the next, forward from the start or backward from the
end, returns every visible row once. The cursors must lead back to their rows, which they
do as long as the JSON library reads the floating-point keys back as they were.
-/
namespace GraphqlOrm.Query

open Schema Sql Outcome Paging

/-! ### The walk -/

section Walk

variable {τ : Type}

/-- A page lies between two parts of the visible rows, and its flags say whether there is
anything in them. -/
structure Windows (visible : List τ) (page : Connection τ) (before after : List τ) : Prop where
  whole : visible = before ++ page.nodes ++ after
  previous : page.pageInfo.hasPreviousPage = true ↔ before ≠ []
  next : page.pageInfo.hasNextPage = true ↔ after ≠ []

/-- The cursor that a reader follows, if the page says that there is more. -/
def nextCursor (backward : Bool) (page : Connection τ) : Option (Option String) :=
  if backward then
    if page.pageInfo.hasPreviousPage then some page.pageInfo.startCursor else none
  else if page.pageInfo.hasNextPage then some page.pageInfo.endCursor else none

variable (fetch : KeysetConnectionInput → Except OrmErrorCode (Connection τ)) (visible : List τ)
  (size : Int) (includeTotalCount : Bool)

def walkPages (backward : Bool) (calls : Nat) : Except OrmErrorCode (Option (List (Connection τ))) :=
  walk (fun _ cursor => fetch (pageInput backward size includeTotalCount cursor))
    (nextCursor backward) calls none

/-- Walks in both directions end and return the visible rows in order, and every page of
them is a window. -/
def EnumeratesVisible : Prop :=
  ∀ calls > visible.length,
    (∃ pages, walkPages fetch size includeTotalCount false calls = .ok (some pages) ∧
      pages.flatMap Connection.nodes = visible ∧
      ∀ page ∈ pages, ∃ before after, Windows visible page before after) ∧
    ∃ pages, walkPages fetch size includeTotalCount true calls = .ok (some pages) ∧
      pages.reverse.flatMap Connection.nodes = visible ∧
      ∀ page ∈ pages, ∃ before after, Windows visible page before after

/-- The pages on both sides of a cursor: those after it leave behind the rows up to its
position, those before it leave the rows from its position on. -/
def ExactAt (cursor : String) (upTo onward : List τ) : Prop :=
  (∃ page after, fetch (pageInput false size includeTotalCount (some cursor)) = .ok page ∧
    Windows visible page upTo after) ∧
  ∃ page before, fetch (pageInput true size includeTotalCount (some cursor)) = .ok page ∧
    Windows visible page before onward

end Walk

section Exact

variable {τ δ φ υ : Type} [LinearOrder δ] {floats : FloatText φ} {parseUuid : String → Option υ}
  {digest : List String → String} {db : Database τ δ φ υ} {entity : AuthorizedKeysetEntity τ φ}
  {policies : Policies τ} {query : EntityQuery τ φ υ} {visibility : ReadVisibility τ}
  {order : List KeysetOrderColumn} {fingerprint : String}
  {requested : Option (List KeysetOrderColumn)}

/-! ### Pages are windows -/

section Page

variable {base : EntityQuery τ φ υ} {values : τ → List (KeysetValue φ)} {limit : Int}
  {k : Option (Key order δ)} {totalCount : Option Int}

theorem nodes_pageOf (backward : Bool) :
    (pageOf floats db base order backward fingerprint values limit k totalCount).nodes =
      if backward then ((rowsAhead db base order backward k).take limit.toNat).reverse
      else (rowsAhead db base order backward k).take limit.toNat := by
  simp [pageOf, Connection.nodes, Function.comp_def]

theorem nextCursor_pageOf (backward : Bool) :
    nextCursor backward (pageOf floats db base order backward fingerprint values limit k totalCount) =
      if limit.toNat < (rowsAhead db base order backward k).length then
        some (((rowsAhead db base order backward k).take limit.toNat).getLast?.map fun row =>
          encodeKeysetCursor floats fingerprint (values row))
      else none := by
  simp only [nextCursor, pageOf]
  generalize (rowsAhead db base order backward k).take limit.toNat = nodes
  cases backward <;> simp [Function.comp_def]

variable (floats fingerprint values limit totalCount) in
theorem windows_pageOf {backward : Bool} {visible : List τ}
    (whole : (if backward then visible.reverse else visible) =
      rowsBehind db base order backward k ++ rowsAhead db base order backward k) :
    let page := pageOf floats db base order backward fingerprint values limit k totalCount
    let rest := (rowsAhead db base order backward k).drop limit.toNat
    if backward then
      Windows visible page rest.reverse (rowsBehind db base order backward k).reverse
    else Windows visible page (rowsBehind db base order backward k) rest := by
  cases backward with
  | false =>
    refine ⟨?_, ?_, ?_⟩
    · rw [nodes_pageOf]
      simpa using whole
    · simp [pageOf]
    · simp [pageOf]
  | true =>
    simp only [↓reduceIte] at whole ⊢
    refine ⟨?_, ?_, ?_⟩
    · rw [nodes_pageOf, if_pos rfl, ← List.reverse_append, List.take_append_drop,
        ← List.reverse_append, ← whole, List.reverse_reverse]
    · simp [pageOf]
    · simp [pageOf]

end Page

/-! ### Cursors lead back -/

omit [LinearOrder δ] in
variable (db) in
theorem located_cursor {values : List (KeysetValue φ)} (positions : Positions parseUuid order values)
    (inRange : ∀ value ∈ values, value.InRange)
    (survives : ∀ value ∈ values, value.Survives floats) (bound : String) :
    (some (encodeKeysetCursor floats bound values)).mapM
        (fun cursor => decodeKeysetCursor floats cursor bound order.length) =
      .ok (some values) ∧
    Located parseUuid db order (some values) (some (positionKey db positions)) := by
  refine ⟨?_, .position positions⟩
  have decoded := decode_encodeKeysetCursor bound inRange survives
  rw [← positions.same] at decoded
  simp [decoded]

section

variable {base : EntityQuery τ φ υ} {values : τ → List (KeysetValue φ)}
    (keyed : Keyed parseUuid db base order values)
include keyed

/-- Behind a row lie those that follow it. -/
theorem rowsAhead_row {backward : Bool} {earlier rest : List τ} {row : τ}
    (whole : earlier ++ row :: rest = base.reading db order backward) :
    row ∈ db.rows ∧ ∃ positions : Positions parseUuid order (values row),
      rowsAhead db base order backward (some (positionKey db positions)) = rest := by
  have mem : row ∈ db.rows := by
    have inside : row ∈ base.reading db order backward := by
      rw [← whole]
      simp
    exact (mem_reading.mp inside).1
  have own := keyed.own row mem
  refine ⟨mem, own.positions keyed.filled, ?_⟩
  have key : positionKey db (own.positions keyed.filled) = rowKey db order row :=
    ((rowKey_eq_positionKey _ row).mpr own.tuple.symm).symm
  have increasing : Increasing (along backward (compareKey db.nullsLow order)) (rowKey db order)
      (base.reading db order backward) := increasing_reading keyed.distinct backward
  rw [← whole] at increasing
  rw [rowsAhead, key, ← whole, increasing.beyond_mid.1]

/-- The cursor of the last row met leads to the rest. -/
theorem located_past {backward : Bool} {past rest : List τ}
    (whole : past ++ rest = base.reading db order backward)
    (survives : ∀ row ∈ past, ∀ value ∈ values row, value.Survives floats) (bound : String) :
    ∃ position k,
      (past.getLast?.map fun row => encodeKeysetCursor floats bound (values row)).mapM
          (fun cursor => decodeKeysetCursor floats cursor bound order.length) = .ok position ∧
        Located parseUuid db order position k ∧ rowsAhead db base order backward k = rest := by
  rcases List.eq_nil_or_concat' past with rfl | ⟨earlier, row, rfl⟩
  · exact ⟨none, none, rfl, .start, by rw [rowsAhead, ← whole, List.nil_append]⟩
  · rw [List.append_assoc, List.singleton_append] at whole
    obtain ⟨mem, positions, ahead⟩ := rowsAhead_row keyed whole
    obtain ⟨decoded, located⟩ := located_cursor db positions (keyed.own row mem).inRange
      (survives row (by simp)) bound
    exact ⟨_, _, by rw [List.getLast?_concat]; exact decoded, located, ahead⟩

end

/-! ### Both walks -/

variable (digest) in
/-- One direction of reading, in the order in which the rows are met. -/
theorem walkPages_covers
    (admitted : Admitted db entity policies query requested order fingerprint visibility)
    (faithful : Faithful parseUuid db entity) (distinct : Distinct (rowKey db order) db.rows)
    {size : Int} (positive : 1 ≤ size) (includeTotalCount backward : Bool)
    (survive : ∀ row ∈ visibleRows db query visibility order,
      ∀ value ∈ rowValues entity requested.isSome order row, value.Survives floats)
    {calls : Nat} (enough : (visibleRows db query visibility order).length < calls) :
    ∃ pages, walkPages (fun page => fetchAuthorizedKeysetConnectionWithOrder floats parseUuid digest
        db entity policies query page requested) size includeTotalCount backward calls =
          .ok (some pages) ∧
      pages.flatMap (fun page => if backward then page.nodes.reverse else page.nodes) =
        (if backward then (visibleRows db query visibility order).reverse
          else visibleRows db query visibility order) ∧
      ∀ page ∈ pages, ∃ before after,
        Windows (visibleRows db query visibility order) page before after := by
  have setting := admitted.setting faithful distinct
  have forward : (baseQuery query visibility order).reading db order false =
      visibleRows db query visibility order := reading_baseQuery query visibility order
  have whole : (baseQuery query visibility order).reading db order backward =
      if backward then (visibleRows db query visibility order).reverse
        else visibleRows db query visibility order := by
    cases backward with
    | false => exact forward
    | true => rw [reading_reverse distinct, forward, if_pos rfl]
  have same : (if backward then (visibleRows db query visibility order).reverse
      else visibleRows db query visibility order).length =
        (visibleRows db query visibility order).length := by
    cases backward <;> simp
  -- A reader stands behind the rows it has met, with the cursor of the last one.
  refine walk_covers (fun cursor past => cursor = past.getLast?.map fun row =>
      encodeKeysetCursor floats (requestFingerprint digest entity query requested.isSome fingerprint)
        (rowValues entity requested.isSome order row)) ?_ (List.nil_append _) rfl
    (by rw [same]; exact enough)
  rintro _ cursor past rest position rfl
  have met : ∀ row ∈ past, ∀ value ∈ rowValues entity requested.isSome order row,
      value.Survives floats := by
    intro row mem
    refine survive row ?_
    have inside : row ∈ if backward then (visibleRows db query visibility order).reverse
        else visibleRows db query visibility order := by
      rw [← position]
      exact List.mem_append_left _ mem
    cases backward
    · exact inside
    · simpa using inside
  obtain ⟨at_, k, decoded, located, ahead⟩ := located_past setting.toKeyed (position.trans whole.symm) met
    (requestFingerprint digest entity query requested.isSome fingerprint)
  have fetched := fetch_eq admitted faithful distinct positive backward includeTotalCount decoded
    located
  have parts := behind_append_ahead setting.toKeyed backward k
  have window := windows_pageOf floats
    (requestFingerprint digest entity query requested.isSome fingerprint)
    (rowValues entity requested.isSome order) (requestLimit db size)
    (if includeTotalCount then
      some (db.rows.countP ((baseQuery query visibility order).selects db)) else none)
    (whole.symm.trans parts)
  refine ⟨_, rest.drop (requestLimit db size).toNat, fetched, ?_, ?_, ?_⟩
  · cases backward
    · exact ⟨_, _, window⟩
    · exact ⟨_, _, window⟩
  · rw [nodes_pageOf, ahead]
    cases backward <;> simp
  · rw [nextCursor_pageOf, nodes_pageOf, ahead]
    by_cases more : (requestLimit db size).toNat < rest.length
    · have filled : rest.take (requestLimit db size).toNat ≠ [] := by
        have one := PaginationConfig.one_le_pageLimit db.paginationConfig (some (min size i64Max))
        have limit : requestLimit db size = db.paginationConfig.pageLimit (some (min size i64Max)) :=
          rfl
        rw [ne_eq, List.take_eq_nil_iff]
        rintro (zero | rfl)
        · omega
        · simp at more
      refine .inr ⟨_, if_pos more, ?_, ?_⟩
      · cases backward <;> simpa using filled
      · have final := List.getLast?_eq_some_getLast filled
        cases backward <;> simp [List.getLast?_append, final]
    · exact .inl ⟨if_neg more, List.drop_eq_nil_of_le (Nat.le_of_not_lt more)⟩

/-- Keyset paging returns exactly the visible rows, in both directions and with correct
flags on every page, if the cursors of these rows survive; the same holds of a page at any
other cursor that survives, whether or not there is a row at its position. -/
theorem keysetPaging_exact
    (admitted : Admitted db entity policies query requested order fingerprint visibility)
    (faithful : Faithful parseUuid db entity) (distinct : Distinct (rowKey db order) db.rows)
    {size : Int} (positive : 1 ≤ size) (includeTotalCount : Bool)
    (survive : ∀ row ∈ visibleRows db query visibility order,
      ∀ value ∈ rowValues entity requested.isSome order row, value.Survives floats) :
    let fetch := fun page => fetchAuthorizedKeysetConnectionWithOrder floats parseUuid digest db
      entity policies query page requested
    let visible := visibleRows db query visibility order
    EnumeratesVisible fetch visible size includeTotalCount ∧
      ∀ cursor : List (KeysetValue φ), Positions parseUuid order cursor →
        (∀ value ∈ cursor, value.InRange) → (∀ value ∈ cursor, value.Survives floats) →
        ExactAt fetch visible size includeTotalCount
          (encodeKeysetCursor floats
            (requestFingerprint digest entity query requested.isSome fingerprint) cursor)
          (visible.filter fun row => compareTuple db.nullsLow order (rowTuple order (db.column row))
            (cursorTuple parseUuid db.interpret order cursor) ≠ .gt)
          (visible.filter fun row => compareTuple db.nullsLow order (rowTuple order (db.column row))
            (cursorTuple parseUuid db.interpret order cursor) ≠ .lt) := by
  intro fetch visible
  have setting := admitted.setting faithful distinct
  have forward : (baseQuery query visibility order).reading db order false = visible :=
    reading_baseQuery query visibility order
  constructor
  · intro calls enough
    constructor
    · simpa using walkPages_covers digest admitted faithful distinct positive
        includeTotalCount false survive enough
    · obtain ⟨pages, walked, covered, windows⟩ := walkPages_covers digest admitted
        faithful distinct positive includeTotalCount true survive enough
      refine ⟨pages, walked, ?_, windows⟩
      have turned := congrArg List.reverse covered
      rw [List.reverse_flatMap] at turned
      simpa [Function.comp_def] using turned
  · intro cursor positions inRange survives
    obtain ⟨decoded, located⟩ := located_cursor db positions inRange survives
      (requestFingerprint digest entity query requested.isSome fingerprint)
    have parts (backward : Bool) : (if backward then visible.reverse else visible) =
        rowsBehind db (baseQuery query visibility order) order backward
            (some (positionKey db positions)) ++
          rowsAhead db (baseQuery query visibility order) order backward
            (some (positionKey db positions)) := by
      rw [← behind_append_ahead setting.toKeyed backward]
      cases backward
      · exact forward.symm
      · rw [reading_reverse distinct, forward, if_pos rfl]
    have window (backward : Bool) := windows_pageOf floats
      (requestFingerprint digest entity query requested.isSome fingerprint)
      (rowValues entity requested.isSome order) (requestLimit db size)
      (if includeTotalCount then
        some (db.rows.countP ((baseQuery query visibility order).selects db)) else none)
      (parts backward)
    have fetched (backward : Bool) := fetch_eq admitted faithful distinct positive backward
      includeTotalCount decoded located
    constructor
    · have here := window false
      simp only [Bool.false_eq_true, ↓reduceIte, rowsBehind, forward] at here
      exact ⟨_, _, fetched false, here⟩
    · have here := window true
      simp only [↓reduceIte, rowsBehind, reading_reverse distinct, forward, List.filter_reverse,
        List.reverse_reverse] at here
      have side : (fun row => decide (along true (compareKey db.nullsLow order) (rowKey db order row)
          (positionKey db positions) ≠ .gt)) = fun row => decide (compareTuple db.nullsLow order
            (rowTuple order (db.column row)) (cursorTuple parseUuid db.interpret order cursor) ≠
              .lt) := by
        funext row
        rw [decide_eq_decide, ne_eq, ne_eq, ← ordering_aheadSide positions true row]
        rfl
      rw [side] at here
      exact ⟨_, _, fetched true, here⟩

variable (digest) in
/-- Where the last key of the first page has a number that cannot be written, the walk
stops at the second page. -/
theorem walkPages_refused
    (admitted : Admitted db entity policies query requested order fingerprint visibility)
    (faithful : Faithful parseUuid db entity) (distinct : Distinct (rowKey db order) db.rows)
    {size : Int} (positive : 1 ≤ size) (includeTotalCount : Bool)
    (more : (requestLimit db size).toNat < (visibleRows db query visibility order).length) {row : τ}
    (last : ((visibleRows db query visibility order).take (requestLimit db size).toNat).getLast? =
      some row) {x : φ} (mem : .float x ∈ rowValues entity requested.isSome order row)
    (unwritten : floats.write x = none) (calls : Nat) :
    walkPages (fun page => fetchAuthorizedKeysetConnectionWithOrder floats parseUuid digest db
        entity policies query page requested) size includeTotalCount false (calls + 2) =
      .error .cursorInvalid := by
  have forward : rowsAhead db (baseQuery query visibility order) order false none =
      visibleRows db query visibility order := reading_baseQuery query visibility order
  have first := fetch_eq admitted faithful distinct positive false includeTotalCount
    (show (none : Option String).mapM (fun cursor => decodeKeysetCursor floats cursor
      (requestFingerprint digest entity query requested.isSome fingerprint) order.length) =
        .ok none from rfl) .start
  have refused := decode_encodeKeysetCursor_unwritten
    (requestFingerprint digest entity query requested.isSome fingerprint)
    (requestFingerprint digest entity query requested.isSome fingerprint) order.length mem
    unwritten
  have second := fetch_refused parseUuid admitted positive false includeTotalCount refused
  simp only [walkPages, walk, bind, Except.bind, first, nextCursor_pageOf, forward, if_pos more,
    last, Option.map_some, second]

end Exact

/-! ### A table of scores -/

/-- Rows with a floating-point score and an identifier; no score stands for infinity. -/
abbrev Scored := Option Int × Int

def scoreFloats : FloatText (Option Int) where
  write
    | some 1 => some ⟨"1.0", by decide⟩
    | some 2 => some ⟨"2.0", by decide⟩
    | _ => none
  read n :=
    if n.literal = "1.0" then some (some 1) else if n.literal = "2.0" then some (some 2) else none

def scoreTable (rows : List Scored) (counted : rows.length ≤ 2 ^ 63 - 1) :
    Database Scored Int (Option Int) String where
  backend := .postgres
  rows := rows
  counted := counted
  column row name :=
    if name = "score" then some (row.1.getD 1000) else if name = "id" then some row.2 else none
  interpret _
    | .float score => score.getD 1000
    | .int id => id
    | _ => 0
  nullsLow := false
  paginationConfig := ⟨some 50, some 100⟩

def scoreEntity : AuthorizedKeysetEntity Scored (Option Int) where
  entityName := "Score"
  keysetOrder := [.asc "score", .asc "id"]
  keysetFingerprint := "score,id"
  keysetCursorFields := [⟨"score", "score", none, true⟩, ⟨"id", "id", none, true⟩]
  keysetValues row := [.float row.1, .int row.2]
  keysetFields := []
  keysetPrimaryColumns := []
  keysetValueForColumn _ _ := none
  repositoryFieldPolicies := [("score", none), ("id", none)]

def openPolicies : Policies Scored where
  graphql := true
  entityAccess := .ok ()
  readVisibility := .ok .unrestricted
  readableField _ _ _ := .ok ()
  canReadRow _ := .ok true

def allScores : EntityQuery Scored (Option Int) String := ⟨[], [], 0, [], false, true, []⟩

theorem scoreTable_admitted (rows : List Scored) (counted : rows.length ≤ 2 ^ 63 - 1) :
    Admitted (scoreTable rows counted) scoreEntity openPolicies allScores none
      [.asc "score", .asc "id"] "score,id" .unrestricted where
  accepted := rfl
  resolved := rfl
  complete := rfl
  identified := rfl
  inDatabase := rfl
  valid := rfl
  granted := {
    access := rfl
    fields := fun _ _ => rfl
    page := fun _ _ => rfl }

theorem scoreTable_faithful {rows : List Scored} (counted : rows.length ≤ 2 ^ 63 - 1)
    (inRange : ∀ row ∈ rows, Checked.InRange row.2) :
    Faithful some (scoreTable rows counted) scoreEntity where
  filled := by simp [scoreEntity]
  configured row mem := by
    refine .cons ⟨?_, trivial, rfl⟩ (.cons ⟨?_, inRange row mem, rfl⟩ .nil)
    · simp [Bindable, keysetSqlValue]
    · simp [Bindable, keysetSqlValue]
  field := by simp [scoreEntity]

theorem scoreTable_distinct {rows : List Scored} (counted : rows.length ≤ 2 ^ 63 - 1)
    (ids : rows.Pairwise fun a b => a.2 ≠ b.2) :
    Distinct (rowKey (scoreTable rows counted) [.asc "score", .asc "id"])
      (scoreTable rows counted).rows := by
  refine ids.imp fun different same => different ?_
  have tuples := congrArg Subtype.val same
  simp only [rowKey, rowTuple, scoreTable, KeysetOrderColumn.asc, List.map_cons, List.map_nil,
    List.cons.injEq] at tuples
  simpa using tuples.2

/-- Two finite scores are met one page at a time. -/
theorem keysetPaging_exact_scores :
    EnumeratesVisible (fun page => fetchAuthorizedKeysetConnectionWithOrder scoreFloats some
        (fun _ => "") (scoreTable [(some 2, 7), (some 1, 8)] (by decide)) scoreEntity openPolicies
        allScores page none) [(some 1, 8), (some 2, 7)] 1 true :=
  (keysetPaging_exact (scoreTable_admitted _ _)
    (scoreTable_faithful _ (by simp [Checked.InRange]))
    (scoreTable_distinct _ (by simp)) (by decide) true
    (by
      have visible : visibleRows (scoreTable [(some 2, 7), (some 1, 8)] (by decide)) allScores
          .unrestricted [.asc "score", .asc "id"] = [(some 1, 8), (some 2, 7)] := rfl
      rw [visible]
      simp [rowValues, valuesFor, scoreEntity, KeysetValue.Survives, FloatText.Survives,
        scoreFloats])).1

/-- An infinite score breaks the walk: the second page is refused. -/
theorem keysetPaging_fails_infinity :
    ¬EnumeratesVisible (fun page => fetchAuthorizedKeysetConnectionWithOrder scoreFloats some
        (fun _ => "") (scoreTable [(none, 7), (none, 8)] (by decide)) scoreEntity openPolicies
        allScores page none) [(none, 7), (none, 8)] 1 false := by
  intro enumerates
  obtain ⟨⟨pages, walked, _⟩, _⟩ := enumerates 3 (by decide)
  have counted : [((none : Option Int), (7 : Int)), (none, 8)].length ≤ 2 ^ 63 - 1 := by decide
  have last : ((visibleRows (scoreTable [(none, 7), (none, 8)] counted) allScores .unrestricted
      [.asc "score", .asc "id"]).take (requestLimit (scoreTable [(none, 7), (none, 8)] counted)
        1).toNat).getLast? = some (none, 7) := rfl
  have more : (requestLimit (scoreTable [(none, 7), (none, 8)] counted) 1).toNat <
      (visibleRows (scoreTable [(none, 7), (none, 8)] counted) allScores .unrestricted
        [.asc "score", .asc "id"]).length := show 1 < 2 by decide
  have refused := walkPages_refused (fun _ => "") (scoreTable_admitted _ counted)
    (scoreTable_faithful counted (by simp [Checked.InRange]))
    (scoreTable_distinct counted (by simp)) (by decide) false more last (x := none)
    (.head _) (show scoreFloats.write none = none from rfl) 1
  rw [refused] at walked
  cases walked

end GraphqlOrm.Query
