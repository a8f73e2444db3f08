import GraphqlOrm.Query.AuthorizedScan

/-!
# Following the continuations of a scan

What one turn of the loop examines, what a whole call examines, and what a reader sees
that follows the continuations until a call reports that the candidates are exhausted.
-/
namespace GraphqlOrm.Query

open Schema Sql Outcome Paging Bytes

section Scan

variable {τ δ φ υ : Type} [LinearOrder δ] {floats : FloatText φ} {parseUuid : String → Option υ}
  {digest : List String → String} {cipher : Cipher} {config : AuthorizedScanConfig}
  {db : Database τ δ φ υ} {entity : AuthorizedKeysetEntity τ φ} {policies : Policies τ}
  {visibility : ReadVisibility τ} {base : EntityQuery τ φ υ}

/-! ### Continuations -/

/-- A position that a continuation can hold: its numbers survive and its text is short. -/
structure Resumable (floats : FloatText φ) (digest : List String → String)
    (entity : AuthorizedKeysetEntity τ φ) (filterIdentities : List String)
    (values : List (KeysetValue φ)) : Prop where
  survives : ∀ value ∈ values, value.Survives floats
  short : (utf8 (encodeKeysetCursor floats (scanFingerprint digest entity filterIdentities)
    values)).length ≤ 16344

variable {filterIdentities : List String} {values : List (KeysetValue φ)} {nonce : List UInt8}

variable (config) in
theorem Resumable.encodes (resumable : Resumable floats digest entity filterIdentities values)
    (lawful : cipher.Lawful) (whole : nonce.length = 24) :
    ∃ text, config.encode floats digest cipher entity nonce values filterIdentities = .ok text := by
  have short := resumable.short
  obtain ⟨ciphertext, encrypted⟩ := lawful.encrypts config.key nonce
    (utf8 (encodeKeysetCursor floats (scanFingerprint digest entity filterIdentities) values))
    whole (by omega)
  exact ⟨_, by rw [AuthorizedScanConfig.encode, encrypted]⟩

variable {text : String}

theorem encode_spec (lawful : cipher.Lawful)
    (encoded : config.encode floats digest cipher entity nonce values filterIdentities = .ok text) :
    ∃ ciphertext, text = "goms1." ++ hexEncode (nonce ++ ciphertext) ∧
      ciphertext.length = (utf8 (encodeKeysetCursor floats
        (scanFingerprint digest entity filterIdentities) values)).length + 16 ∧
      cipher.decrypt config.key nonce ciphertext = some (utf8 (encodeKeysetCursor floats
        (scanFingerprint digest entity filterIdentities) values)) := by
  simp only [AuthorizedScanConfig.encode] at encoded
  split at encoded
  next ciphertext encrypted =>
    cases encoded
    exact ⟨ciphertext, rfl, lawful.grown encrypted, lawful.decrypts encrypted⟩
  · cases encoded

/-- A continuation leads back to its position. -/
theorem decode_encode (lawful : cipher.Lawful) (whole : nonce.length = 24)
    (inRange : ∀ value ∈ values, value.InRange)
    (resumable : Resumable floats digest entity filterIdentities values)
    (same : entity.keysetOrder.length = values.length)
    (encoded : config.encode floats digest cipher entity nonce values filterIdentities = .ok text) :
    config.decode floats digest cipher entity text filterIdentities = .ok values := by
  have short := resumable.short
  obtain ⟨ciphertext, rfl, grown, decrypted⟩ := encode_spec lawful encoded
  have fits : ¬32768 < (hexEncode (nonce ++ ciphertext)).length := by
    rw [length_hexEncode, List.length_append]
    omega
  have long : 40 ≤ nonce.length + ciphertext.length := by omega
  have decoded := decode_encodeKeysetCursor (scanFingerprint digest entity filterIdentities)
    inRange resumable.survives
  simpa [AuthorizedScanConfig.decode, okOr, fits, hexDecode_hexEncode, ← whole, decrypted,
    fromUtf8_utf8, same, decoded, bind, Except.bind] using long

/-- A continuation of a long position is refused. -/
theorem decode_encode_long (lawful : cipher.Lawful) (whole : nonce.length = 24)
    (long : 16344 < (utf8 (encodeKeysetCursor floats
      (scanFingerprint digest entity filterIdentities) values)).length)
    (encoded : config.encode floats digest cipher entity nonce values filterIdentities = .ok text) :
    config.decode floats digest cipher entity text filterIdentities = .error .cursorInvalid := by
  obtain ⟨ciphertext, rfl, grown, _⟩ := encode_spec lawful encoded
  have refused : 32768 < (hexEncode (nonce ++ ciphertext)).length := by
    rw [length_hexEncode, List.length_append]
    omega
  simp [AuthorizedScanConfig.decode, okOr, refused, bind, Except.bind, throw, throwThe,
    MonadExceptOf.throw]

/-! ### One turn -/

/-- The policy lets the caller see a candidate. -/
def permitted (visibility : ReadVisibility τ) (answer : τ → Bool) (row : τ) : Bool :=
  !visibility.requiresResidualChecks || answer row

variable {answer : τ → Bool}

theorem scanRow_eq {row : τ} (answered : policies.canReadRow row = .ok (answer row))
    (state : ScanState τ φ) (fits : state.scanned + 1 < 2 ^ 32) :
    scanRow entity policies visibility state row =
      .ok ⟨some (entity.keysetValues row),
        state.nodes ++ [row].filter (permitted visibility answer), state.scanned + 1,
        state.examined ++ [row]⟩ := by
  have counted : checkedSucc state.scanned = .ok (state.scanned + 1) := if_pos fits
  cases residual : visibility.requiresResidualChecks with
  | false => simp [scanRow, counted, residual, permitted, bind, Except.bind, pure, Except.pure]
  | true =>
    cases seen : answer row <;>
      simp [scanRow, counted, residual, answered, permitted, seen, bind, Except.bind, pure,
        Except.pure]

theorem foldlM_scanRow {rows : List τ}
    (answers : ∀ row ∈ rows, policies.canReadRow row = .ok (answer row)) (state : ScanState τ φ)
    (fits : state.scanned + rows.length < 2 ^ 32) :
    rows.foldlM (scanRow entity policies visibility) state =
      .ok ⟨(rows.getLast?.map entity.keysetValues).or state.position,
        state.nodes ++ rows.filter (permitted visibility answer), state.scanned + rows.length,
        state.examined ++ rows⟩ := by
  induction rows generalizing state with
  | nil => simp [pure, Except.pure]
  | cons row rows ih =>
    simp only [List.length_cons] at fits
    have first : scanRow entity policies visibility state row = _ :=
      scanRow_eq (answers row (.head _)) state (by omega)
    have rest := ih (fun r mem => answers r (List.mem_cons_of_mem row mem))
    have last : (row :: rows).getLast?.map entity.keysetValues =
        (rows.getLast?.map entity.keysetValues).or (some (entity.keysetValues row)) := by
      rw [List.getLast?_cons]
      cases rows.getLast? <;> rfl
    rw [List.foldlM_cons, first]
    refine (rest _ (by simp only; omega)).trans ?_
    by_cases seen : permitted visibility answer row = true <;>
      simp [last, seen, Nat.add_assoc, Nat.add_comm 1]

/-! ### A call -/

/-- The loop has examined `past` of the candidates from a position on, and its variables
say so. -/
structure Scanning (parseUuid : String → Option υ) (config : AuthorizedScanConfig)
    (db : Database τ δ φ υ) (entity : AuthorizedKeysetEntity τ φ) (visibility : ReadVisibility τ)
    (answer : τ → Bool) (base : EntityQuery τ φ υ) (limit : Nat) (state : ScanState τ φ)
    (past rest : List τ) : Prop where
  examined : state.examined = past
  nodes : state.nodes = past.filter (permitted visibility answer)
  scanned : state.scanned = past.length
  budget : past.length ≤ config.maxScannedRows.toNat
  room : state.nodes.length ≤ limit
  ahead : ∃ k, Located parseUuid db entity.keysetOrder state.position k ∧
    rowsAhead db base entity.keysetOrder false k = rest

section

variable (keyed : Keyed parseUuid db base entity.keysetOrder entity.keysetValues)
    (answers : ∀ row ∈ db.rows, policies.canReadRow row = .ok (answer row)) {limit : Nat}
    (batch : 0 < config.batchSize.toNat)
include keyed answers batch

/-- One turn examines the next candidates. -/
theorem scanBatch_spec {state : ScanState τ φ} {past rest : List τ}
    (scanning : Scanning parseUuid config db entity visibility answer base limit state past rest)
    (budget : state.scanned < config.maxScannedRows.toNat) (room : state.nodes.length < limit) :
    ∃ state' stop now rest', rest = now ++ rest' ∧
      scanBatch parseUuid config db entity policies visibility base limit state =
        .ok (state', stop) ∧
      Scanning parseUuid config db entity visibility answer base limit state' (past ++ now) rest' ∧
      (stop = some .exhausted → rest' = []) ∧
      (stop ≠ some .exhausted → now ≠ [] ∧
        state'.position = now.getLast?.map entity.keysetValues) ∧
      (stop = none → state'.scanned < config.maxScannedRows.toNat ∧ state'.nodes.length < limit) := by
  obtain ⟨k, located, ahead⟩ := scanning.ahead
  obtain ⟨query, rendered, valid, ordered, reads⟩ := boundAt_spec keyed located false
  -- The size of the batch, and that none of its subtractions goes below zero.
  let budgetLeft := config.maxScannedRows.toNat - state.scanned
  let roomLeft := limit - state.nodes.length
  let size := min (min config.batchSize.toNat budgetLeft) (min roomLeft (2 ^ 32 - 1))
  have first : checkedSub config.maxScannedRows.toNat state.scanned = .ok budgetLeft :=
    if_pos budget.le
  have second : checkedSub limit state.nodes.length = .ok roomLeft := if_pos room.le
  have positive : 0 < size := by omega
  have read : query.boundedRows db size = .ok (rest.take size) := by
    rw [EntityQuery.boundedRows_of_valid db valid (by omega),
      sortedRows_eq_reading entity.keysetOrder false ordered, reads, ahead, Int.toNat_natCast]
  have inTable : ∀ row ∈ rest.take size, row ∈ db.rows := by
    intro row mem
    have inside : row ∈ base.reading db entity.keysetOrder false := by
      rw [behind_append_ahead keyed false k, ahead]
      exact List.mem_append_right _ (List.mem_of_mem_take mem)
    exact (mem_reading.mp inside).1
  have small := config.maxScannedRows.toNat_lt
  have taken : (rest.take size).length ≤ size := List.length_take_le size rest
  let state' : ScanState τ φ := ⟨((rest.take size).getLast?.map entity.keysetValues).or
    state.position, state.nodes ++ (rest.take size).filter (permitted visibility answer),
    state.scanned + (rest.take size).length, state.examined ++ rest.take size⟩
  have folded : (rest.take size).foldlM (scanRow entity policies visibility) state = .ok state' :=
    foldlM_scanRow (fun row mem => answers row (inTable row mem)) state (by omega)
  let stop :=
    if (rest.take size).length < size then some ScanStatus.exhausted
    else if state'.nodes.length = limit then some .pageFull
    else if state'.scanned = config.maxScannedRows.toNat then some .budgetExhausted
    else none
  have turn : scanBatch parseUuid config db entity policies visibility base limit state =
      .ok (state', stop) := by
    simp only [scanBatch, first, second, bind, Except.bind]
    rw [show Side.after = aheadSide false from rfl, rendered]
    simp only [reported_ok]
    rw [read]
    simp only [reported_ok]
    rw [folded]
    rfl
  have shown : ((rest.take size).filter (permitted visibility answer)).length ≤ size :=
    (List.length_filter_le _ _).trans taken
  have nodes : state'.nodes.length ≤ limit := by
    simp only [state', List.length_append]
    omega
  have counted : state'.scanned = (past ++ rest.take size).length := by
    simp only [state', List.length_append, scanning.scanned]
  have within : state'.scanned ≤ config.maxScannedRows.toNat := by
    simp only [state']
    omega
  refine ⟨state', stop, rest.take size, rest.drop size, (List.take_append_drop size rest).symm, turn,
    ⟨?_, ?_, counted, counted ▸ within, nodes, ?_⟩, ?_, ?_, ?_⟩
  · simp only [state', scanning.examined]
  · simp only [state', scanning.nodes, List.filter_append]
  · rcases List.eq_nil_or_concat' (rest.take size) with none | ⟨earlier, row, shape⟩
    · have empty : rest = [] := by
        rcases List.take_eq_nil_iff.mp none with zero | empty
        · omega
        · exact empty
      refine ⟨k, ?_, ?_⟩
      · simpa [state', none] using located
      · rw [ahead, empty, List.drop_nil]
    · have whole : (rowsBehind db base entity.keysetOrder false k ++ earlier) ++
          row :: rest.drop size = base.reading db entity.keysetOrder false := by
        have parts : earlier ++ row :: rest.drop size = rest := by
          rw [← List.singleton_append, ← List.append_assoc, ← shape, List.take_append_drop]
        rw [behind_append_ahead keyed false k, ahead, List.append_assoc, parts]
      obtain ⟨_, positions, reached⟩ := rowsAhead_row keyed whole
      refine ⟨_, ?_, reached⟩
      simp only [state', shape, List.getLast?_concat, Option.map_some, Option.some_or]
      exact .position positions
  · intro exhausted
    by_cases short : (rest.take size).length < size
    · rw [List.length_take] at short
      exact List.drop_eq_nil_of_le (by omega)
    · simp only [stop, short, ↓reduceIte] at exhausted
      split at exhausted
      · cases exhausted
      · split at exhausted <;> cases exhausted
  · intro further
    have full : ¬(rest.take size).length < size := fun short => further (if_pos short)
    have filled : rest.take size ≠ [] := fun none => full (by rw [none]; exact positive)
    refine ⟨filled, ?_⟩
    simp only [state', List.getLast?_eq_some_getLast filled, Option.map_some, Option.some_or]
  · intro continued
    have open_ : state'.nodes.length ≠ limit ∧
        state'.scanned ≠ config.maxScannedRows.toNat := by
      simp only [stop] at continued
      split at continued
      · cases continued
      · split at continued
        · cases continued
        next notFull =>
          split at continued
          · cases continued
          next notSpent => exact ⟨notFull, notSpent⟩
    exact ⟨lt_of_le_of_ne within open_.2, lt_of_le_of_ne nodes open_.1⟩

/-- The loop stops with a reason that holds. -/
theorem scanLoop_spec {turns : Nat} {state : ScanState τ φ} {past rest : List τ}
    (scanning : Scanning parseUuid config db entity visibility answer base limit state past rest)
    (budget : state.scanned < config.maxScannedRows.toNat) (room : state.nodes.length < limit)
    (enough : config.maxScannedRows.toNat < state.scanned + turns) :
    ∃ state' status now rest', rest = now ++ rest' ∧
      scanLoop parseUuid config db entity policies visibility base limit turns state =
        .ok (state', status) ∧
      Scanning parseUuid config db entity visibility answer base limit state' (past ++ now) rest' ∧
      (status = .exhausted → rest' = []) ∧
      (status ≠ .exhausted → now ≠ [] ∧
        state'.position = now.getLast?.map entity.keysetValues) := by
  induction turns generalizing state past rest with
  | zero => omega
  | succ turns ih =>
    obtain ⟨next, stop, now, rest', rfl, turn, after, drained, moved, open_⟩ :=
      scanBatch_spec keyed answers batch scanning budget room
    cases stop with
    | some status =>
      refine ⟨next, status, now, rest', rfl, ?_, after, ?_, ?_⟩
      · simp [scanLoop, turn, bind, Except.bind, pure, Except.pure]
      · rintro rfl
        exact drained rfl
      · intro further
        exact moved (by simpa using further)
    | none =>
      obtain ⟨spent, left⟩ := open_ rfl
      have progress : state.scanned < next.scanned := by
        have filled := List.length_pos_of_ne_nil (moved (by simp)).1
        rw [scanning.scanned, after.scanned, List.length_append]
        omega
      obtain ⟨final, status, later, last, rfl, looped, done, exhausted, stopped⟩ :=
        ih after spent left (by omega)
      refine ⟨final, status, now ++ later, last, by rw [List.append_assoc], ?_, ?_, exhausted, ?_⟩
      · simp only [scanLoop, turn, bind, Except.bind]
        exact looped
      · rw [← List.append_assoc]
        exact done
      · intro further
        obtain ⟨filled, position⟩ := stopped further
        refine ⟨by simp [filled], ?_⟩
        rw [position, List.getLast?_append, List.getLast?_eq_some_getLast filled]
        rfl

end

/-- The caller gets an answer: a resolved policy whose callback answers, scan bounds of at
least one row, filters that the database can evaluate, and access. -/
structure ScanAdmitted (config : AuthorizedScanConfig) (db : Database τ δ φ υ)
    (entity : AuthorizedKeysetEntity τ φ) (policies : Policies τ) (query : EntityQuery τ φ υ)
    (visibility : ReadVisibility τ) (answer : τ → Bool) : Prop where
  resolved : policies.readVisibility = .ok visibility
  identified : visibility.validate entity.entityName db.backend = .ok ()
  answers : ∀ row ∈ db.rows, policies.canReadRow row = .ok (answer row)
  batch : config.batchSize ≠ 0
  budget : config.maxScannedRows ≠ 0
  inDatabase : query.requiresInMemoryFiltering = false
  valid : query.filterIsValid = true
  granted : Granted entity policies entity.keysetOrder false db.rows

/-- What a call says about the candidates from its position on. -/
structure ScanReport (config : AuthorizedScanConfig) (visibility : ReadVisibility τ)
    (answer : τ → Bool) (limit : Nat) (outcome : ScanOutcome τ) (ahead rest : List τ) : Prop where
  parts : ahead = outcome.examined ++ rest
  nodes : outcome.page.nodes = outcome.examined.filter (permitted visibility answer)
  budget : outcome.examined.length ≤ config.maxScannedRows.toNat
  room : outcome.page.nodes.length ≤ limit
  exhausted : outcome.page.pageInfo.status = .exhausted → rest = []

variable {query : EntityQuery τ φ υ}

omit [LinearOrder δ] in
theorem ScanAdmitted.keyed
    (admitted : ScanAdmitted config db entity policies query visibility answer)
    (faithful : Faithful parseUuid db entity)
    (distinct : Distinct (rowKey db entity.keysetOrder) db.rows) :
    Keyed parseUuid db (baseQuery query visibility entity.keysetOrder) entity.keysetOrder
      entity.keysetValues where
  filled := faithful.filled
  ordered := rfl
  valid := admitted.valid
  distinct := distinct
  own := faithful.configured

variable {limit : Option Int}

omit [LinearOrder δ] in
theorem ScanAdmitted.accepts_limit
    (admitted : ScanAdmitted config db entity policies query visibility answer)
    (positive : ∀ n ∈ limit, 0 < n) :
    ¬(query.requiresInMemoryFiltering = true ∨ limit.any (· ≤ 0) = true) := by
  rintro (inMemory | small)
  · rw [admitted.inDatabase] at inMemory
    cases inMemory
  · cases limit with
    | none => cases small
    | some n =>
      have := positive n rfl
      simp at small
      omega

variable {includeTotalCount : Bool}

/-- A call examines the next candidates and leaves a way to the others. -/
theorem fetchAuthorizedScan_spec
    (admitted : ScanAdmitted config db entity policies query visibility answer)
    (faithful : Faithful parseUuid db entity)
    (distinct : Distinct (rowKey db entity.keysetOrder) db.rows) {after : Option String}
    (positive : ∀ n ∈ limit, 0 < n)
    (countable : includeTotalCount = true → visibility.requiresResidualChecks = false)
    {position : Option (List (KeysetValue φ))} {k : Option (Key entity.keysetOrder δ)}
    (decoded : after.mapM (fun cursor => config.decode floats digest cipher entity cursor
      query.keysetFilterIdentities) = .ok position)
    (located : Located parseUuid db entity.keysetOrder position k)
    (encodes : ∀ row ∈ rowsAhead db (baseQuery query visibility entity.keysetOrder)
      entity.keysetOrder false k, ∃ text, config.encode floats digest cipher entity nonce
        (entity.keysetValues row) query.keysetFilterIdentities = .ok text) :
    ∃ outcome rest,
      fetchAuthorizedScan floats parseUuid digest cipher db entity policies (some config) nonce query
        ⟨after, limit, includeTotalCount⟩ = .ok outcome ∧
      ScanReport config visibility answer (db.paginationConfig.pageLimit limit).toNat outcome
        (rowsAhead db (baseQuery query visibility entity.keysetOrder) entity.keysetOrder false k)
        rest ∧
      (outcome.page.pageInfo.status ≠ .exhausted → ∃ row text,
        outcome.examined.getLast? = some row ∧
        outcome.page.pageInfo.continuation = some text ∧
        config.encode floats digest cipher entity nonce (entity.keysetValues row)
          query.keysetFilterIdentities = .ok text) := by
  have keyed := admitted.keyed faithful distinct
  have batch : 0 < config.batchSize.toNat := UInt32.pos_iff_ne_zero.mpr admitted.batch
  have budget : 0 < config.maxScannedRows.toNat := UInt32.pos_iff_ne_zero.mpr admitted.budget
  have one := PaginationConfig.one_le_pageLimit db.paginationConfig limit
  obtain ⟨shown, applied, ordered⟩ :=
    withReadVisibility_eq query admitted.identified entity.keysetOrder
  have start : Scanning parseUuid config db entity visibility answer
      (baseQuery query visibility entity.keysetOrder) (db.paginationConfig.pageLimit limit).toNat
      ⟨position, [], 0, []⟩ [] (rowsAhead db (baseQuery query visibility entity.keysetOrder)
        entity.keysetOrder false k) :=
    ⟨rfl, rfl, rfl, Nat.zero_le _, Nat.zero_le _, k, located, rfl⟩
  obtain ⟨state, status, now, rest, parts, looped, scanned, exhausted, moved⟩ :=
    scanLoop_spec keyed admitted.answers batch start budget (by simp only [List.length_nil]; omega)
      (show config.maxScannedRows.toNat < 0 + (config.maxScannedRows.toNat + 1) by omega)
  have identities : shown.keysetFilterIdentities = query.keysetFilterIdentities := by
    simpa [baseQuery] using congrArg EntityQuery.keysetFilterIdentities ordered
  have inTable : now ⊆ db.rows := by
    intro row mem
    have inside : row ∈ (baseQuery query visibility entity.keysetOrder).reading db
        entity.keysetOrder false := by
      rw [behind_append_ahead keyed false k, parts]
      exact List.mem_append_right _ (List.mem_append_left _ mem)
    exact (mem_reading.mp inside).1
  have authorized : authorizePage entity policies entity.keysetOrder false state.nodes = .ok () := by
    refine admitted.granted.authorizePage fun row mem => inTable ?_
    rw [scanned.nodes, List.nil_append] at mem
    exact (List.mem_filter.mp mem).1
  -- The position of the last candidate is encoded unless nothing is left.
  have continued : ∃ continuation : Option String,
      scanContinuation floats digest cipher config entity nonce query.keysetFilterIdentities status
        state.position = .ok continuation ∧
      (status ≠ .exhausted → ∃ row text, now.getLast? = some row ∧ continuation = some text ∧
        config.encode floats digest cipher entity nonce (entity.keysetValues row)
          query.keysetFilterIdentities = .ok text) := by
    by_cases ended : status = .exhausted
    · exact ⟨none, if_pos ended, fun further => absurd ended further⟩
    · obtain ⟨filled, last⟩ := moved ended
      have final := List.getLast?_eq_some_getLast filled
      have mem : now.getLast filled ∈ now := List.getLast_mem filled
      obtain ⟨text, encoded⟩ :=
        encodes _ (by rw [parts]; exact List.mem_append_left _ mem)
      rw [final] at last
      refine ⟨some text, ?_, fun _ => ⟨_, _, final, rfl, encoded⟩⟩
      rw [scanContinuation, if_neg ended, last]
      simp [okOr, encoded, bind, Except.bind, Except.map]
  obtain ⟨continuation, encoded, resumes⟩ := continued
  have request := admitted.accepts_limit positive
  have counts : ¬(includeTotalCount = true ∧ visibility.requiresResidualChecks = true) := by
    rintro ⟨asked, residual⟩
    rw [countable asked] at residual
    cases residual
  have total : ∃ totalCount : Option Int, (if includeTotalCount then
      ((baseQuery query visibility entity.keysetOrder).countWithAuth db).map some
        else (.ok none : Except OrmErrorCode (Option Int))) = .ok totalCount := by
    cases includeTotalCount with
    | false => exact ⟨none, rfl⟩
    | true =>
      refine ⟨some (db.rows.countP ((baseQuery query visibility entity.keysetOrder).selects db)), ?_⟩
      rw [if_pos rfl, EntityQuery.countWithAuth, if_pos keyed.valid]
      rfl
  obtain ⟨totalCount, counted⟩ := total
  refine ⟨⟨⟨state.nodes, ⟨status, continuation, totalCount⟩⟩, state.examined⟩, rest, ?_, ?_, ?_⟩
  · have fields := admitted.granted.fields none (by simp)
    have bounds : ¬(config.batchSize = 0 ∨ config.maxScannedRows = 0) :=
      not_or.mpr ⟨admitted.batch, admitted.budget⟩
    simp only [fetchAuthorizedScan, authorizePagination, admitted.granted.access, admitted.resolved,
      fields, okOr, applied, bind, Except.bind, reported_ok, if_neg bounds, if_neg request,
      if_neg counts, ordered]
    simp only [identities, decoded, counted, reported_ok, looped, authorized, encoded]
    rfl
  · have examined : state.examined = now := by rw [scanned.examined, List.nil_append]
    refine ⟨by rw [examined]; exact parts, ?_, ?_, scanned.room, exhausted⟩
    · rw [scanned.nodes, List.nil_append, examined]
    · simpa [examined] using scanned.budget
  · have examined : state.examined = now := by rw [scanned.examined, List.nil_append]
    rw [examined]
    exact resumes

variable (parseUuid) in
/-- A call with a continuation that cannot be read is refused. -/
theorem fetchAuthorizedScan_refused
    (admitted : ScanAdmitted config db entity policies query visibility answer)
    (positive : ∀ n ∈ limit, 0 < n)
    (countable : includeTotalCount = true → visibility.requiresResidualChecks = false)
    (nonce : List UInt8) (refused : config.decode floats digest cipher entity text
      query.keysetFilterIdentities = .error .cursorInvalid) :
    fetchAuthorizedScan floats parseUuid digest cipher db entity policies (some config) nonce query
      ⟨some text, limit, includeTotalCount⟩ = .error (.orm .cursorInvalid) := by
  obtain ⟨shown, applied, ordered⟩ :=
    withReadVisibility_eq query admitted.identified entity.keysetOrder
  have identities : shown.keysetFilterIdentities = query.keysetFilterIdentities := by
    simpa [baseQuery] using congrArg EntityQuery.keysetFilterIdentities ordered
  have fields := admitted.granted.fields none (by simp)
  have bounds : ¬(config.batchSize = 0 ∨ config.maxScannedRows = 0) :=
    not_or.mpr ⟨admitted.batch, admitted.budget⟩
  have request := admitted.accepts_limit positive
  have counts : ¬(includeTotalCount = true ∧ visibility.requiresResidualChecks = true) := by
    rintro ⟨asked, residual⟩
    rw [countable asked] at residual
    cases residual
  simp only [fetchAuthorizedScan, authorizePagination, admitted.granted.access, admitted.resolved,
    fields, okOr, applied, bind, Except.bind, reported_ok, if_neg bounds, if_neg request,
    if_neg counts, identities]
  simp [refused, reported, Option.mapM_some]

/-! ### Following the continuations -/

/-- Where a reader goes on, unless the candidates are exhausted. -/
def nextScan (outcome : ScanOutcome τ) : Option (Option String) :=
  if outcome.page.pageInfo.status = .exhausted then none
  else some outcome.page.pageInfo.continuation

/-- Following the continuations ends; it examines every candidate once and returns those
that the policy permits, in order, with every call within its bounds. -/
def ScansCandidates (fetch : Nat → Option String → Except ScanFault (ScanOutcome τ))
    (candidates : List τ) (permitted : τ → Bool) (maxScannedRows limit : Nat) : Prop :=
  ∀ calls > candidates.length, ∃ outcomes,
    walk fetch nextScan calls none = .ok (some outcomes) ∧
      outcomes.flatMap (·.examined) = candidates ∧
      outcomes.flatMap (·.page.nodes) = candidates.filter permitted ∧
      ∀ outcome ∈ outcomes, outcome.examined.length ≤ maxScannedRows ∧
        outcome.page.nodes.length ≤ limit

/-- An authorized scan reaches every candidate exactly once, and a call at any position
examines the candidates that follow it, if the positions fit into continuations. -/
theorem authorizedScan_exact (lawful : cipher.Lawful) {nonces : Nat → List UInt8}
    (whole : ∀ call, (nonces call).length = 24)
    (admitted : ScanAdmitted config db entity policies query visibility answer)
    (faithful : Faithful parseUuid db entity)
    (distinct : Distinct (rowKey db entity.keysetOrder) db.rows) {limit : Option Int}
    (positive : ∀ n ∈ limit, 0 < n) {includeTotalCount : Bool}
    (countable : includeTotalCount = true → visibility.requiresResidualChecks = false)
    (resumable : ∀ row ∈ visibleRows db query visibility entity.keysetOrder,
      Resumable floats digest entity query.keysetFilterIdentities (entity.keysetValues row)) :
    let fetch := fun call cursor => fetchAuthorizedScan floats parseUuid digest cipher db entity
      policies (some config) (nonces call) query ⟨cursor, limit, includeTotalCount⟩
    let candidates := visibleRows db query visibility entity.keysetOrder
    let room := (db.paginationConfig.pageLimit limit).toNat
    ScansCandidates fetch candidates (permitted visibility answer) config.maxScannedRows.toNat room ∧
      ∀ (call : Nat) (text : String) (cursor : List (KeysetValue φ)),
        Positions parseUuid entity.keysetOrder cursor →
        config.decode floats digest cipher entity text query.keysetFilterIdentities = .ok cursor →
        ∃ outcome rest, fetch call (some text) = .ok outcome ∧
          ScanReport config visibility answer room outcome (candidates.filter fun row =>
            compareTuple db.nullsLow entity.keysetOrder
              (rowTuple entity.keysetOrder (db.column row))
              (cursorTuple parseUuid db.interpret entity.keysetOrder cursor) = .gt) rest := by
  intro fetch candidates room
  have keyed := admitted.keyed faithful distinct
  have forward : (baseQuery query visibility entity.keysetOrder).reading db entity.keysetOrder
      false = candidates := reading_baseQuery query visibility entity.keysetOrder
  have resumes (k : Option (Key entity.keysetOrder δ)) : ∀ row ∈ rowsAhead db
      (baseQuery query visibility entity.keysetOrder) entity.keysetOrder false k,
      Resumable floats digest entity query.keysetFilterIdentities (entity.keysetValues row) := by
    intro row mem
    refine resumable row ?_
    have inside : row ∈ (baseQuery query visibility entity.keysetOrder).reading db
        entity.keysetOrder false := by
      rw [behind_append_ahead keyed false k]
      exact List.mem_append_right _ mem
    rw [forward] at inside
    exact inside
  constructor
  · intro calls enough
    -- A reader has read the position of the last candidate examined from its continuation.
    let At (cursor : Option String) (past : List τ) : Prop :=
      cursor.mapM (fun text => config.decode floats digest cipher entity text
        query.keysetFilterIdentities) = .ok (past.getLast?.map entity.keysetValues)
    let Good (outcome : ScanOutcome τ) : Prop :=
      outcome.page.nodes = outcome.examined.filter (permitted visibility answer) ∧
        outcome.examined.length ≤ config.maxScannedRows.toNat ∧ outcome.page.nodes.length ≤ room
    have advance : ∀ call cursor past rest, past ++ rest = candidates → At cursor past →
        ∃ outcome rest', fetch call cursor = .ok outcome ∧ Good outcome ∧
          rest = outcome.examined ++ rest' ∧
          (nextScan outcome = none ∧ rest' = [] ∨
            ∃ cursor', nextScan outcome = some cursor' ∧ outcome.examined ≠ [] ∧
              At cursor' (past ++ outcome.examined)) := by
      intro call cursor past rest position here
      have stands : ∃ k, Located parseUuid db entity.keysetOrder
          (past.getLast?.map entity.keysetValues) k ∧ rowsAhead db
            (baseQuery query visibility entity.keysetOrder) entity.keysetOrder false k = rest := by
        rcases List.eq_nil_or_concat' past with rfl | ⟨earlier, row, rfl⟩
        · exact ⟨none, .start, by rw [rowsAhead, forward, ← position, List.nil_append]⟩
        · rw [List.append_assoc, List.singleton_append, ← forward] at position
          obtain ⟨_, positions, ahead⟩ := rowsAhead_row keyed position
          refine ⟨_, ?_, ahead⟩
          rw [List.getLast?_concat]
          exact .position positions
      obtain ⟨k, located, ahead⟩ := stands
      obtain ⟨outcome, rest', fetched, report, further⟩ := fetchAuthorizedScan_spec
        admitted faithful distinct positive countable here located
        fun row mem => (resumes k row mem).encodes config lawful (whole call)
      rw [ahead] at report
      refine ⟨outcome, rest', fetched, ⟨report.nodes, report.budget, report.room⟩, report.parts, ?_⟩
      by_cases ended : outcome.page.pageInfo.status = .exhausted
      · exact .inl ⟨if_pos ended, report.exhausted ended⟩
      · obtain ⟨row, text, last, continued, encoded⟩ := further ended
        have mem : row ∈ outcome.examined := List.mem_of_getLast? last
        have filled := List.ne_nil_of_mem mem
        refine .inr ⟨some text, by rw [nextScan, if_neg ended, continued], filled, ?_⟩
        have inside : row ∈ rowsAhead db (baseQuery query visibility entity.keysetOrder)
            entity.keysetOrder false k := by
          rw [ahead, report.parts]
          exact List.mem_append_left _ mem
        have own := faithful.configured row (rowsAhead_subset keyed false k inside)
        have back := decode_encode lawful (whole call) own.inRange (resumes k row inside)
          own.length_eq encoded
        simp [At, List.getLast?_append, last, back]
    have start : At none [] := rfl
    obtain ⟨outcomes, walked, covered, good⟩ :=
      walk_covers At advance (List.nil_append candidates) start enough
    refine ⟨outcomes, walked, covered, ?_, fun outcome mem => (good outcome mem).2⟩
    rw [← covered, List.filter_flatMap]
    exact List.flatMap_congr fun outcome mem => (good outcome mem).1
  · intro call text cursor positions decoded
    obtain ⟨outcome, rest, fetched, report, _⟩ := fetchAuthorizedScan_spec
      admitted faithful distinct positive countable (show (some text).mapM (fun text =>
        config.decode floats digest cipher entity text query.keysetFilterIdentities) =
          .ok (some cursor) by simp [decoded]) (.position positions)
      fun row mem => (resumes _ row mem).encodes config lawful (whole call)
    refine ⟨outcome, rest, fetched, ?_⟩
    simp only [rowsAhead, forward] at report
    exact report

/-- Where no continuation of a candidate can be read, a scan that does not end with its
first call stops at the second. -/
theorem walkScan_refused (nonces : Nat → List UInt8)
    (admitted : ScanAdmitted config db entity policies query visibility answer)
    (faithful : Faithful parseUuid db entity)
    (distinct : Distinct (rowKey db entity.keysetOrder) db.rows) (positive : ∀ n ∈ limit, 0 < n)
    (countable : includeTotalCount = true → visibility.requiresResidualChecks = false)
    (encodes : ∀ row ∈ db.rows, ∀ call, ∃ text, config.encode floats digest cipher entity
      (nonces call) (entity.keysetValues row) query.keysetFilterIdentities = .ok text)
    (refused : ∀ row ∈ db.rows, ∀ call text, config.encode floats digest cipher entity
      (nonces call) (entity.keysetValues row) query.keysetFilterIdentities = .ok text →
        config.decode floats digest cipher entity text query.keysetFilterIdentities =
          .error .cursorInvalid) (more : config.maxScannedRows.toNat <
      (visibleRows db query visibility entity.keysetOrder).length) (calls : Nat) :
    walk (fun call cursor => fetchAuthorizedScan floats parseUuid digest cipher db entity policies
        (some config) (nonces call) query ⟨cursor, limit, includeTotalCount⟩) nextScan (calls + 2)
      none = .error (.orm .cursorInvalid) := by
  have keyed := admitted.keyed faithful distinct
  have forward : rowsAhead db (baseQuery query visibility entity.keysetOrder) entity.keysetOrder
      false none = visibleRows db query visibility entity.keysetOrder :=
    reading_baseQuery query visibility entity.keysetOrder
  have inTable {row : τ} (mem : row ∈ rowsAhead db (baseQuery query visibility
      entity.keysetOrder) entity.keysetOrder false none) : row ∈ db.rows :=
    rowsAhead_subset keyed false none mem
  obtain ⟨outcome, rest, fetched, report, further⟩ := fetchAuthorizedScan_spec admitted faithful
    distinct positive countable (show (none : Option String).mapM (fun cursor =>
      config.decode floats digest cipher entity cursor query.keysetFilterIdentities) =
        .ok none from rfl) .start fun row mem => encodes row (inTable mem) (calls + 1)
  -- The budget ends before the candidates do.
  have unended : outcome.page.pageInfo.status ≠ .exhausted := by
    intro ended
    have whole := report.parts
    rw [report.exhausted ended, List.append_nil, forward] at whole
    have budget := report.budget
    rw [← whole] at budget
    omega
  obtain ⟨row, text, last, continued, encoded⟩ := further unended
  have mem : row ∈ db.rows := by
    refine inTable ?_
    rw [report.parts]
    exact List.mem_append_left _ (List.mem_of_getLast? last)
  have second := fetchAuthorizedScan_refused parseUuid admitted positive countable (nonces calls)
    (refused row mem (calls + 1) text encoded)
  have next : nextScan outcome = some (some text) := by rw [nextScan, if_neg unended, continued]
  simp only [walk, bind, Except.bind, fetched, next, second]

end Scan

/-! ### A table of names -/

def tagCipher : Cipher where
  encrypt _ _ plaintext := some (plaintext ++ List.replicate 16 0)
  decrypt _ _ ciphertext := some (ciphertext.take (ciphertext.length - 16))

theorem tagCipher_lawful : tagCipher.Lawful where
  encrypts _ _ _ _ _ := ⟨_, rfl⟩
  grown encrypted := by cases encrypted; simp
  decrypts encrypted := by cases encrypted; simp [tagCipher]

def singleScan : AuthorizedScanConfig := ⟨1, 1, []⟩

def nameTable (rows : List String) (counted : rows.length ≤ 2 ^ 63 - 1) :
    Database String String Empty String where
  backend := .postgres
  rows := rows
  counted := counted
  column row name := if name = "name" then some row else none
  interpret _
    | .string name => name
    | _ => ""
  nullsLow := false
  paginationConfig := ⟨some 50, some 100⟩

def nameEntity : AuthorizedKeysetEntity String Empty where
  entityName := "Name"
  keysetOrder := [.asc "name"]
  keysetFingerprint := "name"
  keysetCursorFields := [⟨"name", "name", none, true⟩]
  keysetValues row := [.string row]
  keysetFields := []
  keysetPrimaryColumns := []
  keysetValueForColumn _ _ := none
  repositoryFieldPolicies := [("name", none)]

def noFloats : FloatText Empty where
  write := Empty.elim
  read _ := none

def allNames : EntityQuery String Empty String := ⟨[], [], 0, [], false, true, []⟩

def namePolicies (answer : String → Bool) : Policies String where
  graphql := true
  entityAccess := .ok ()
  readVisibility := .ok .callbackOnly
  readableField _ _ _ := .ok ()
  canReadRow row := .ok (answer row)

theorem nameScan_admitted (rows : List String) (counted : rows.length ≤ 2 ^ 63 - 1)
    (answer : String → Bool) :
    ScanAdmitted singleScan (nameTable rows counted) nameEntity (namePolicies answer) allNames
      .callbackOnly answer where
  resolved := rfl
  identified := rfl
  answers _ _ := rfl
  batch := by decide
  budget := by decide
  inDatabase := rfl
  valid := rfl
  granted := {
    access := rfl
    fields := fun _ _ => rfl
    page := fun _ _ => rfl }

theorem nameTable_faithful (rows : List String) (counted : rows.length ≤ 2 ^ 63 - 1) :
    Faithful some (nameTable rows counted) nameEntity where
  filled := by simp [nameEntity]
  configured row _ := .cons ⟨by simp [Bindable, keysetSqlValue], trivial, rfl⟩ .nil
  field := by simp [nameEntity]

theorem nameTable_distinct {rows : List String} (counted : rows.length ≤ 2 ^ 63 - 1)
    (names : rows.Nodup) :
    Distinct (rowKey (nameTable rows counted) [.asc "name"]) (nameTable rows counted).rows := by
  refine names.imp fun different same => different ?_
  have tuples := congrArg Subtype.val same
  simpa [rowKey, rowTuple, nameTable, KeysetOrderColumn.asc] using tuples

theorem nameTable_resumable {name : String} (short : name.length ≤ 8) :
    Resumable noFloats (fun _ => "") nameEntity [] (nameEntity.keysetValues name) where
  survives := by simp [nameEntity, KeysetValue.Survives]
  short := by
    have size : (scanFingerprint (fun _ => "") nameEntity []).length = 14 := by decide
    have bound : (utf8 (encodeKeysetCursor noFloats (scanFingerprint (fun _ => "") nameEntity [])
        [.string name])).length ≤ 24 + 32 * (280 + 6 * (14 + 8 + 16)) :=
      length_encodeKeysetCursor_le _ _ fun check digits => by
        refine (length_cursorText_le _ _ _).trans ?_
        omega
    exact bound.trans (by decide)

/-- The first of two names is rejected, and the second is found by the next call. -/
theorem authorizedScan_exact_names :
    ScansCandidates (fun _ cursor => fetchAuthorizedScan noFloats some (fun _ => "") tagCipher
      (nameTable ["b", "a"] (by decide)) nameEntity (namePolicies (· = "b")) (some singleScan)
      (List.replicate 24 0) allNames ⟨cursor, some 1, false⟩)
      ["a", "b"] (permitted .callbackOnly (· = "b")) 1 1 := by
  have visible : visibleRows (nameTable ["b", "a"] (by decide)) allNames .callbackOnly
      [.asc "name"] = ["a", "b"] := by decide
  have scans := (authorizedScan_exact tagCipher_lawful
    (fun _ => show (List.replicate 24 (0 : UInt8)).length = 24 from rfl)
    (nameScan_admitted ["b", "a"] (by decide) (· = "b")) (nameTable_faithful _ _)
    (nameTable_distinct _ (by decide)) (show ∀ n ∈ some (1 : Int), 0 < n by simp)
    (show false = true → ReadVisibility.callbackOnly.requiresResidualChecks = false by simp)
    (by
      rw [show nameEntity.keysetOrder = [.asc "name"] from rfl, visible]
      simp only [List.mem_cons, List.not_mem_nil, or_false, forall_eq_or_imp, forall_eq]
      exact ⟨nameTable_resumable (by decide), nameTable_resumable (by decide)⟩)).1
  rw [show nameEntity.keysetOrder = [.asc "name"] from rfl, visible] at scans
  exact scans

def longName (c : Char) : String := String.ofList (List.replicate 9000 c)

@[simp] theorem length_longName (c : Char) : (longName c).length = 9000 := by
  rw [longName, String.length_ofList, List.length_replicate]

theorem longName_ne : longName 'a' ≠ longName 'b' := by
  intro same
  have cs := String.ofList_injective same
  rw [List.replicate_right_inj (by decide)] at cs
  exact absurd cs (by decide)

/-- Two names of nine thousand characters break the scan: the second call is refused. -/
theorem authorizedScan_fails_long :
    let rows := [longName 'a', longName 'b']
    ¬∀ counted : rows.length ≤ 2 ^ 63 - 1, ScansCandidates (fun _ cursor =>
      fetchAuthorizedScan noFloats some (fun _ => "") tagCipher (nameTable rows counted) nameEntity
        (namePolicies fun _ => true) (some singleScan) (List.replicate 24 0) allNames
          ⟨cursor, some 1, false⟩)
      (visibleRows (nameTable rows counted) allNames .callbackOnly [.asc "name"])
      (permitted .callbackOnly fun _ => true) 1 1 := by
  intro rows scans
  have counted : rows.length ≤ 2 ^ 63 - 1 := show 2 ≤ 2 ^ 63 - 1 by decide
  have all : (visibleRows (nameTable rows counted) allNames .callbackOnly [.asc "name"]).Perm
      rows := by
    have every : (nameTable rows counted).rows.filter (fun row =>
        allNames.selects (nameTable rows counted) row && ReadVisibility.callbackOnly.grants row) =
          rows := List.filter_eq_self.mpr fun row _ => rfl
    rw [visibleRows, every]
    exact sortOn_perm rows
  have long : ∀ name ∈ rows, name.length = 9000 := by simp [rows]
  obtain ⟨outcomes, walked, _⟩ := scans counted 3 (by rw [all.length_eq]; exact show 2 < 3 by decide)
  have refused := walkScan_refused (fun _ => List.replicate 24 0)
    (nameScan_admitted rows counted fun _ => true) (nameTable_faithful rows counted)
    (nameTable_distinct counted (List.pairwise_pair.mpr longName_ne))
    (show ∀ n ∈ some (1 : Int), 0 < n by simp)
    (show false = true → ReadVisibility.callbackOnly.requiresResidualChecks = false by simp)
    (fun row _ call => ⟨_, rfl⟩)
    (fun row mem call text encoded => decode_encode_long tagCipher_lawful rfl (by
      have own : 2 * row.length ≤ (utf8 (encodeKeysetCursor noFloats
          (scanFingerprint (fun _ => "") nameEntity []) [.string row])).length :=
        length_le_encodeKeysetCursor _ row
      rw [long row mem] at own
      exact lt_of_lt_of_le (by decide) own) encoded)
    (by
      rw [show nameEntity.keysetOrder = [.asc "name"] from rfl, all.length_eq]
      exact show 1 < 2 by decide) 1
  rw [refused] at walked
  cases walked

end GraphqlOrm.Query
