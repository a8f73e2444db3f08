import GraphqlOrm.Query.KeysetWalk

/-!
# Authorized scans

`fetch_authorized_scan` reads candidates in batches and asks the row policy about each of
them. Every call stops at the end of the candidates, when its page is full or when its
budget of candidates is spent, and in the last two cases hands out an encrypted position.
-/
namespace GraphqlOrm.Query

open Schema Sql Outcome Paging Bytes

/-! ### Continuations -/

/-- Authenticated encryption with a key and a nonce. -/
structure Cipher where
  encrypt : List UInt8 → List UInt8 → List UInt8 → Option (List UInt8)
  decrypt : List UInt8 → List UInt8 → List UInt8 → Option (List UInt8)

/-- What is encrypted grows by 16 bytes and can be decrypted; a nonce of 24 bytes covers
every text up to a limit. -/
structure Cipher.Lawful (cipher : Cipher) : Prop where
  encrypts : ∀ key nonce plaintext : List UInt8, nonce.length = 24 →
    plaintext.length < 64 * (2 ^ 32 - 1) → ∃ ciphertext, cipher.encrypt key nonce plaintext =
      some ciphertext
  grown : ∀ {key nonce plaintext ciphertext : List UInt8},
    cipher.encrypt key nonce plaintext = some ciphertext →
      ciphertext.length = plaintext.length + 16
  decrypts : ∀ {key nonce plaintext ciphertext : List UInt8},
    cipher.encrypt key nonce plaintext = some ciphertext →
      cipher.decrypt key nonce ciphertext = some plaintext

structure AuthorizedScanConfig where
  batchSize : UInt32
  maxScannedRows : UInt32
  key : List UInt8

structure AuthorizedScanInput where
  after : Option String
  limit : Option Int
  includeTotalCount : Bool

inductive ScanStatus where
  | exhausted | pageFull | budgetExhausted
deriving DecidableEq

structure ScanPageInfo where
  status : ScanStatus
  continuation : Option String
  totalCount : Option Int

structure AuthorizedScanPage (τ : Type) where
  nodes : List τ
  pageInfo : ScanPageInfo

/-- Why a call does not return: an error for the caller, or arithmetic that leaves the
range of its type. -/
inductive ScanFault where
  | orm (code : OrmErrorCode)
  | arithmetic
  | unfinished

def reported {α : Type} : Except OrmErrorCode α → Except ScanFault α
  | .ok value => .ok value
  | .error code => .error (.orm code)

@[simp] theorem reported_ok {α : Type} (value : α) : reported (.ok value) = .ok value := rfl

def checkedSub (a b : Nat) : Except ScanFault Nat :=
  if b ≤ a then .ok (a - b) else .error .arithmetic

/-- `scanned += 1` on `u32`. -/
def checkedSucc (n : Nat) : Except ScanFault Nat :=
  if n + 1 < 2 ^ 32 then .ok (n + 1) else .error .arithmetic

section Scan

variable {τ δ φ υ : Type} [LinearOrder δ] (floats : FloatText φ) (parseUuid : String → Option υ)
  (digest : List String → String) (cipher : Cipher) (config : AuthorizedScanConfig)
  (db : Database τ δ φ υ) (entity : AuthorizedKeysetEntity τ φ) (policies : Policies τ)

def scanFingerprint (filterIdentities : List String) : String :=
  bindKeysetFingerprint digest none
    ("scan:" ++ entity.entityName ++ ":" ++ entity.keysetFingerprint) filterIdentities

def AuthorizedScanConfig.encode (nonce : List UInt8) (values : List (KeysetValue φ))
    (filterIdentities : List String) : Except OrmErrorCode String :=
  let plaintext := encodeKeysetCursor floats (scanFingerprint digest entity filterIdentities) values
  match cipher.encrypt config.key nonce (utf8 plaintext) with
  | some ciphertext => .ok ("goms1." ++ hexEncode (nonce ++ ciphertext))
  | none => .error .authorizationMisconfigured

/-- Text that is not hexadecimal is refused, so its characters can be counted for bytes. -/
def AuthorizedScanConfig.decode (cursor : String) (filterIdentities : List String) :
    Except OrmErrorCode (List (KeysetValue φ)) := do
  let text ← okOr .cursorInvalid (stripLead "goms1." cursor)
  if 32768 < text.length then throw .cursorInvalid
  let bytes ← okOr .cursorInvalid (hexDecode text)
  if bytes.length < 40 then throw .cursorInvalid
  let plaintext ← okOr .cursorInvalid (cipher.decrypt config.key (bytes.take 24) (bytes.drop 24))
  let plaintext ← okOr .cursorInvalid (fromUtf8 plaintext)
  decodeKeysetCursor floats plaintext (scanFingerprint digest entity filterIdentities)
    entity.keysetOrder.length

/-! ### The loop -/

/-- The variables of the loop, and the candidates that it has examined. -/
structure ScanState (τ φ : Type) where
  position : Option (List (KeysetValue φ))
  nodes : List τ
  scanned : Nat
  examined : List τ

def scanRow (visibility : ReadVisibility τ) (state : ScanState τ φ) (row : τ) :
    Except ScanFault (ScanState τ φ) := do
  let scanned ← checkedSucc state.scanned
  let permitted ← if visibility.requiresResidualChecks then reported (policies.canReadRow row)
    else .ok true
  return ⟨some (entity.keysetValues row), if permitted then state.nodes ++ [row] else state.nodes,
    scanned, state.examined ++ [row]⟩

def scanBatch (visibility : ReadVisibility τ) (base : EntityQuery τ φ υ) (limit : Nat)
    (state : ScanState τ φ) : Except ScanFault (ScanState τ φ × Option ScanStatus) := do
  let budget ← checkedSub config.maxScannedRows.toNat state.scanned
  let room ← checkedSub limit state.nodes.length
  let batchSize := min (min config.batchSize.toNat budget) (min room (2 ^ 32 - 1))
  let query ← reported (boundAt parseUuid base entity.keysetOrder .after state.position)
  let rows ← reported (query.boundedRows db batchSize)
  let state ← rows.foldlM (scanRow entity policies visibility) state
  let stop :=
    if rows.length < batchSize then some ScanStatus.exhausted
    else if state.nodes.length = limit then some .pageFull
    else if state.scanned = config.maxScannedRows.toNat then some .budgetExhausted
    else none
  return (state, stop)

def scanLoop (visibility : ReadVisibility τ) (base : EntityQuery τ φ υ) (limit : Nat) :
    Nat → ScanState τ φ → Except ScanFault (ScanState τ φ × ScanStatus)
  | 0, _ => .error .unfinished
  | turns + 1, state => do
    let (state, stop) ← scanBatch parseUuid config db entity policies visibility base limit state
    match stop with
    | some status => return (state, status)
    | none => scanLoop visibility base limit turns state

/-- Where the next call resumes, unless nothing is left. -/
def scanContinuation (nonce : List UInt8) (filterIdentities : List String) (status : ScanStatus)
    (position : Option (List (KeysetValue φ))) : Except ScanFault (Option String) :=
  if status = .exhausted then .ok none
  else do
    let values ← reported (okOr .authorizationMisconfigured position)
    (reported (config.encode floats digest cipher entity nonce values filterIdentities)).map some

/-- The answer of a call, with the candidates that it examined. -/
structure ScanOutcome (τ : Type) where
  page : AuthorizedScanPage τ
  examined : List τ

/-- Every turn but the last examines a candidate, so the budget bounds their number. -/
def fetchAuthorizedScan (scanConfig : Option AuthorizedScanConfig) (nonce : List UInt8)
    (query : EntityQuery τ φ υ) (page : AuthorizedScanInput) :
    Except ScanFault (ScanOutcome τ) := do
  let visibility ← reported (authorizePagination policies)
  reported (authorizeKeysetOrderFields entity policies entity.keysetOrder false none)
  let config ← reported (okOr .authorizationMisconfigured scanConfig)
  if config.batchSize = 0 ∨ config.maxScannedRows = 0 then
    throw (.orm .authorizationMisconfigured)
  if query.requiresInMemoryFiltering ∨ page.limit.any (· ≤ 0) then throw (.orm .invalidInput)
  if page.includeTotalCount ∧ visibility.requiresResidualChecks then throw (.orm .invalidInput)
  let base ← reported (query.withReadVisibility db entity.entityName visibility)
  let base := { base with order := entity.keysetOrder }
  let limit := (db.paginationConfig.pageLimit page.limit).toNat
  let position ← reported (page.after.mapM fun cursor =>
    config.decode floats digest cipher entity cursor base.keysetFilterIdentities)
  let totalCount ← reported (if page.includeTotalCount then (base.countWithAuth db).map some
    else .ok none)
  let (state, status) ← scanLoop parseUuid config db entity policies visibility base limit
    (config.maxScannedRows.toNat + 1) ⟨position, [], 0, []⟩
  reported (authorizePage entity policies entity.keysetOrder false state.nodes)
  let continuation ← scanContinuation floats digest cipher config entity nonce
    base.keysetFilterIdentities status state.position
  return ⟨⟨state.nodes, ⟨status, continuation, totalCount⟩⟩, state.examined⟩

end Scan

end GraphqlOrm.Query
