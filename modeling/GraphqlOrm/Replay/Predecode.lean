import Mathlib.Data.List.TakeWhile
import Mathlib.Tactic.Linarith

/-!
# The scan before decoding

What bounds the memory of the decoder: one pass over the bytes of a witness that counts
brackets, strings and literals. An index past the end stops the program and gives nothing.
-/
namespace GraphqlOrm.Replay

inductive OwnedPlanningReplayError where
  | unsupportedFormat
  | unsupportedRecipe
  | unsupportedBackend
  | limitExceeded
  | invalidWitness
  | replayMismatch

/-! ### The ledger -/

def workCeiling : Nat := 16777216

def textCeiling : Nat := 67108864

/-- Checked arithmetic of `u64`. -/
def checkedAdd (a b : Nat) : Except OwnedPlanningReplayError Nat :=
  if a + b < 2 ^ 64 then .ok (a + b) else .error .limitExceeded

def checkedMul (a b : Nat) : Except OwnedPlanningReplayError Nat :=
  if a * b < 2 ^ 64 then .ok (a * b) else .error .limitExceeded

structure Cost where
  w : Nat
  t : Nat

/-- What an operation has used of its ceilings. -/
structure Ledger where
  used : Cost

def Ledger.default : Ledger := { used := { w := 4096, t := 256 } }

def Ledger.reserve (ledger : Ledger) (cost : Cost) : Except OwnedPlanningReplayError Ledger := do
  let w ← checkedAdd ledger.used.w cost.w
  let t ← checkedAdd ledger.used.t cost.t
  if w > workCeiling ∨ t > textCeiling then throw .limitExceeded
  else return { used := { w, t } }

def codecAdmit (n : Nat) (ledger : Ledger) : Except OwnedPlanningReplayError Ledger := do
  let w ← checkedAdd (← checkedMul 32 n) 256
  let t ← checkedAdd (← checkedMul 2 n) 256
  ledger.reserve { w, t }

/-! ### The scan -/

def isOpening (b : UInt8) : Bool := b == 0x7b || b == 0x5b

def isClosing (b : UInt8) : Bool := b == 0x7d || b == 0x5d

def isQuote (b : UInt8) : Bool := b == 0x22

def isBackslash (b : UInt8) : Bool := b == 0x5c

/-- `t`, `f`, `n`, a minus sign or a digit. -/
def opensLiteral (b : UInt8) : Bool :=
  b == 0x74 || b == 0x66 || b == 0x6e || b == 0x2d || (0x30 ≤ b && b ≤ 0x39)

def endsLiteral (b : UInt8) : Bool :=
  b == 0x2c || isClosing b || b == 0x20 || b == 0x0a || b == 0x0d || b == 0x09

def maxString : Nat := 8388608

def maxNodes : Nat := 2000000

/-- The position behind a byte of a string. An escape takes the next byte with it, which may
lie past the end. -/
def behind (pos : Nat) (b : UInt8) : Nat := (if isBackslash b then pos + 1 else pos) + 1

/-- The inner loop of a string; gives the position of the closing quote. -/
def skipString (bytes : List UInt8) (start : Nat) :
    Nat → Nat → Option (Except OwnedPlanningReplayError Nat)
  | 0, _ => none
  | fuel + 1, pos =>
    if pos ≥ bytes.length then some (.error .invalidWitness)
    else do
      let b ← bytes[pos]?
      if isQuote b then return .ok pos
      else if behind pos b - start > maxString + 1 then return .error .limitExceeded
      else skipString bytes start fuel (behind pos b)

def skipLiteral (bytes : List UInt8) : Nat → Nat → Option Nat
  | 0, _ => none
  | fuel + 1, pos =>
    if pos + 1 < bytes.length then do
      let next ← bytes[pos + 1]?
      if endsLiteral next then return pos else skipLiteral bytes fuel (pos + 1)
    else some pos

/-- Where the scan stands after the token at a position. -/
structure Scanned where
  pos : Nat
  depth : Nat
  nodes : Nat

def scanToken (bytes : List UInt8) (at_ : Scanned) (b : UInt8) :
    Option (Except OwnedPlanningReplayError Scanned) :=
  if isOpening b then
    if at_.depth + 1 > 64 then some (.error .limitExceeded)
    else some (.ok { at_ with depth := at_.depth + 1, nodes := at_.nodes + 1 })
  else if isClosing b then
    if at_.depth = 0 then some (.error .invalidWitness)
    else some (.ok { at_ with depth := at_.depth - 1 })
  else if isQuote b then do
    match ← skipString bytes at_.pos bytes.length (at_.pos + 1) with
    | .error error => return .error error
    | .ok pos => return .ok { at_ with pos, nodes := at_.nodes + 1 }
  else if opensLiteral b then do
    let pos ← skipLiteral bytes bytes.length at_.pos
    return .ok { at_ with pos, nodes := at_.nodes + 1 }
  else some (.ok at_)

def scanFrom (bytes : List UInt8) : Nat → Scanned → Option (Except OwnedPlanningReplayError Scanned)
  | 0, _ => none
  | fuel + 1, at_ =>
    if at_.pos < bytes.length then do
      let b ← bytes[at_.pos]?
      match ← scanToken bytes at_ b with
      | .error error => return .error error
      | .ok after =>
        if after.nodes > maxNodes then return .error .limitExceeded
        else scanFrom bytes fuel { after with pos := after.pos + 1 }
    else some (.ok at_)

def predecode (bytes : List UInt8) (maxEncodedBytes : Nat) (ledger : Ledger) :
    Option (Except OwnedPlanningReplayError Ledger) := do
  if bytes.length > maxEncodedBytes then return .error .limitExceeded
  else
    match codecAdmit bytes.length ledger with
    | .error error => return .error error
    | .ok ledger =>
      match ← scanFrom bytes (bytes.length + 1) { pos := 0, depth := 0, nodes := 0 } with
      | .error error => return .error error
      | .ok scanned =>
        if scanned.depth ≠ 0 then return .error .invalidWitness
        else
          match checkedMul 64 scanned.nodes with
          | .error error => return .error error
          | .ok w => return ledger.reserve { w, t := 0 }

/-! ### Pieces of text -/

/-- The inside of a string: every backslash takes a byte with it, and no quote is left. -/
inductive StringBody : List UInt8 → Prop
  | nil : StringBody []
  | plain {b : UInt8} {rest : List UInt8} :
    isQuote b = false → isBackslash b = false → StringBody rest → StringBody (b :: rest)
  | escaped {b c : UInt8} {rest : List UInt8} :
    isBackslash b = true → StringBody rest → StringBody (b :: c :: rest)

inductive Piece where
  | opening
  | closing
  | string (body : List UInt8)
  | literal
  | other

/-- What a byte is where a piece starts. -/
inductive Kind where
  | opening | closing | quote | literal | other

def kind (b : UInt8) : Kind :=
  if isOpening b then .opening
  else if isClosing b then .closing
  else if isQuote b then .quote
  else if opensLiteral b then .literal
  else .other

/-- The pieces the scan takes a text for. A literal runs up to a comma, a closing bracket or
a blank, whatever is in it. -/
inductive Lexes : List UInt8 → List Piece → Prop
  | nil : Lexes [] []
  | opening {b : UInt8} {rest : List UInt8} {pieces : List Piece} :
    kind b = .opening → Lexes rest pieces → Lexes (b :: rest) (.opening :: pieces)
  | closing {b : UInt8} {rest : List UInt8} {pieces : List Piece} :
    kind b = .closing → Lexes rest pieces → Lexes (b :: rest) (.closing :: pieces)
  | string {q q' : UInt8} {body rest : List UInt8} {pieces : List Piece} :
    kind q = .quote → StringBody body → isQuote q' = true → Lexes rest pieces →
      Lexes (q :: (body ++ q' :: rest)) (.string body :: pieces)
  | literal {b : UInt8} {run rest : List UInt8} {pieces : List Piece} :
    kind b = .literal → (∀ c ∈ run, endsLiteral c = false) →
      (∀ c ∈ rest.head?, endsLiteral c = true) → Lexes rest pieces →
      Lexes (b :: (run ++ rest)) (.literal :: pieces)
  | other {b : UInt8} {rest : List UInt8} {pieces : List Piece} :
    kind b = .other → Lexes rest pieces → Lexes (b :: rest) (.other :: pieces)

def depthAfter : Nat → List Piece → Option Nat
  | depth, [] => some depth
  | depth, .opening :: rest => if depth + 1 > 64 then none else depthAfter (depth + 1) rest
  | depth, .closing :: rest => if depth = 0 then none else depthAfter (depth - 1) rest
  | depth, .string _ :: rest | depth, .literal :: rest | depth, .other :: rest =>
    depthAfter depth rest

def Piece.isNode : Piece → Bool
  | opening | string _ | literal => true
  | closing | other => false

def nodeCount (pieces : List Piece) : Nat := pieces.countP Piece.isNode

@[simp] theorem nodeCount_opening (pieces : List Piece) :
    nodeCount (.opening :: pieces) = nodeCount pieces + 1 := List.countP_cons_of_pos rfl

@[simp] theorem nodeCount_closing (pieces : List Piece) :
    nodeCount (.closing :: pieces) = nodeCount pieces := List.countP_cons_of_neg (by decide)

@[simp] theorem nodeCount_string (body : List UInt8) (pieces : List Piece) :
    nodeCount (.string body :: pieces) = nodeCount pieces + 1 := List.countP_cons_of_pos rfl

@[simp] theorem nodeCount_literal (pieces : List Piece) :
    nodeCount (.literal :: pieces) = nodeCount pieces + 1 := List.countP_cons_of_pos rfl

@[simp] theorem nodeCount_other (pieces : List Piece) :
    nodeCount (.other :: pieces) = nodeCount pieces := List.countP_cons_of_neg (by decide)

def ShortStrings (pieces : List Piece) : Prop :=
  ∀ body, .string body ∈ pieces → body.length ≤ maxString

/-! ### Strings -/

theorem getElem?_split (before rest : List UInt8) (b : UInt8) :
    (before ++ b :: rest)[before.length]? = some b := by
  simp

theorem isBackslash_of_isQuote {b : UInt8} (quote : isQuote b = true) : isBackslash b = false := by
  obtain rfl := beq_iff_eq.mp quote
  rfl

def Ends (holds : Nat → Prop) (rest : List UInt8) : Prop :=
  ∃ body q after, rest = body ++ q :: after ∧ StringBody body ∧ isQuote q = true ∧
    holds body.length

variable {holds : Nat → Prop}

theorem Ends.imp {holds' : Nat → Prop} {rest : List UInt8} (ends : Ends holds rest)
    (weaker : ∀ length, holds length → holds' length) : Ends holds' rest := by
  obtain ⟨body, q, after, whole, string, quoted, length⟩ := ends
  exact ⟨body, q, after, whole, string, quoted, weaker _ length⟩

theorem ends_nil : ¬ Ends holds [] := by
  rintro ⟨body, q, after, whole, -⟩
  exact absurd whole (by simp)

theorem ends_quote {b : UInt8} {rest : List UInt8} (quote : isQuote b = true) :
    Ends holds (b :: rest) ↔ holds 0 := by
  constructor
  · rintro ⟨body, q, after, whole, string, -, length⟩
    cases string with
    | nil => exact length
    | plain noQuote _ _ =>
      rw [List.cons_append, List.cons.injEq] at whole
      rw [← whole.1, quote] at noQuote
      cases noQuote
    | escaped backslash _ =>
      rw [List.cons_append, List.cons.injEq] at whole
      rw [← whole.1, isBackslash_of_isQuote quote] at backslash
      cases backslash
  · exact fun length => ⟨[], b, rest, rfl, .nil, quote, length⟩

theorem ends_plain {b : UInt8} {rest : List UInt8} (noQuote : isQuote b = false)
    (noBackslash : isBackslash b = false) :
    Ends holds (b :: rest) ↔ Ends (fun length => holds (length + 1)) rest := by
  constructor
  · rintro ⟨body, q, after, whole, string, quoted, length⟩
    cases string with
    | nil =>
      rw [List.nil_append, List.cons.injEq] at whole
      rw [whole.1, quoted] at noQuote
      cases noQuote
    | plain _ _ string =>
      simp only [List.cons_append, List.cons.injEq] at whole
      exact ⟨_, q, after, whole.2, string, quoted, length⟩
    | escaped backslash _ =>
      rw [List.cons_append, List.cons.injEq] at whole
      rw [← whole.1, noBackslash] at backslash
      cases backslash
  · rintro ⟨body, q, after, rfl, string, quoted, length⟩
    exact ⟨b :: body, q, after, rfl, .plain noQuote noBackslash string, quoted, length⟩

theorem ends_escaped {b : UInt8} {rest : List UInt8} (noQuote : isQuote b = false)
    (backslash : isBackslash b = true) :
    Ends holds (b :: rest) ↔
      ∃ c later, rest = c :: later ∧ Ends (fun length => holds (length + 2)) later := by
  constructor
  · rintro ⟨body, q, after, whole, string, quoted, length⟩
    cases string with
    | nil =>
      rw [List.nil_append, List.cons.injEq] at whole
      rw [whole.1, quoted] at noQuote
      cases noQuote
    | plain _ noBackslash _ =>
      rw [List.cons_append, List.cons.injEq] at whole
      rw [← whole.1, backslash] at noBackslash
      cases noBackslash
    | escaped _ string =>
      simp only [List.cons_append, List.cons.injEq] at whole
      exact ⟨_, _, whole.2, _, q, after, rfl, string, quoted, length⟩
  · rintro ⟨c, later, rfl, body, q, after, rfl, string, quoted, length⟩
    exact ⟨b :: c :: body, q, after, rfl, .escaped backslash string, quoted, length⟩

variable {bytes : List UInt8} {start fuel pos : Nat}

theorem skipString_past (past : bytes.length ≤ pos) (more : 0 < fuel) :
    skipString bytes start fuel pos = some (.error .invalidWitness) := by
  obtain ⟨fuel, rfl⟩ : ∃ n, fuel = n + 1 := ⟨fuel - 1, by omega⟩
  rw [skipString, if_pos past]

theorem lt_behind (pos : Nat) (b : UInt8) : pos < behind pos b := by
  rw [behind]
  split <;> omega

theorem skipString_isSome (enough : bytes.length < pos + fuel) (more : 0 < fuel) :
    (skipString bytes start fuel pos).isSome = true := by
  induction fuel generalizing pos with
  | zero => cases more
  | succ fuel ih =>
    rw [skipString]
    split
    · rfl
    next inside =>
      rw [List.getElem?_eq_getElem (by omega), Option.bind_eq_bind, Option.bind_some]
      split
      · rfl
      split
      · rfl
      · have moved := lt_behind pos bytes[pos]
        apply ih <;> omega

variable {before : List UInt8}

/-- The loop stops at the quote that ends the string, if that comes soon enough. -/
theorem skipString_ok_iff {rest : List UInt8} {last : Nat} (enough : rest.length < fuel)
    (later : start ≤ before.length) (within : before.length - start ≤ maxString + 1) :
    skipString (before ++ rest) start fuel before.length = some (.ok last) ↔
      Ends (fun length => last = before.length + length ∧ last - start ≤ maxString + 1) rest := by
  induction fuel generalizing before rest with
  | zero => exact absurd enough (Nat.not_lt_zero _)
  | succ fuel ih =>
    cases rest with
    | nil =>
      rw [skipString, if_pos (by simp)]
      exact iff_of_false nofun ends_nil
    | cons b rest =>
      rw [List.length_cons] at enough
      rw [skipString, if_neg (by simp), getElem?_split, Option.bind_eq_bind, Option.bind_some]
      split
      next quote =>
        rw [ends_quote quote]
        constructor
        · intro same
          cases same
          exact ⟨rfl, within⟩
        · rintro ⟨rfl, -⟩
          rfl
      next noQuote =>
        have noQuote : isQuote b = false := by simpa using noQuote
        by_cases backslash : isBackslash b = true
        · rw [ends_escaped noQuote backslash, behind, if_pos backslash]
          split
          next long =>
            apply iff_of_false nofun
            rintro ⟨c, later, -, body, q, after, -, -, -, rfl, short⟩
            omega
          next short =>
            cases rest with
            | nil =>
              -- The escape steps past the end, where the loop finds no quote.
              rw [skipString_past (by simp) (by simp at enough; omega)]
              exact iff_of_false nofun (by simp)
            | cons c rest =>
              have moved := @ih (before ++ [b, c]) rest (by simp at enough; omega)
                (by simp; omega) (by simp; omega)
              simp only [List.length_append, List.length_cons, List.length_nil, List.append_assoc,
                List.cons_append, List.nil_append] at moved
              rw [moved]
              constructor
              · intro string
                exact ⟨c, rest, rfl, string.imp fun length holds => by omega⟩
              · rintro ⟨c, rest, same, string⟩
                cases same
                exact string.imp fun length holds => by omega
        · have noBackslash : isBackslash b = false := by simpa using backslash
          rw [ends_plain noQuote noBackslash, behind, if_neg backslash]
          split
          next long =>
            apply iff_of_false nofun
            rintro ⟨body, q, after, -, -, -, rfl, short⟩
            omega
          next short =>
            have moved := @ih (before ++ [b]) rest (by omega) (by simp; omega) (by simp; omega)
            simp only [List.length_append, List.length_cons, List.length_nil, List.append_assoc,
              List.cons_append, List.nil_append] at moved
            rw [moved]
            exact ⟨fun string => string.imp fun length holds => by omega,
              fun string => string.imp fun length holds => by omega⟩

/-! ### Literals -/

/-- The loop stops at the last byte of the run. -/
theorem skipLiteral_eq {run rest : List UInt8} {b : UInt8}
    (plain : ∀ c ∈ run, endsLiteral c = false) (stops : ∀ c ∈ rest.head?, endsLiteral c = true)
    (enough : run.length < fuel) :
    skipLiteral (before ++ b :: (run ++ rest)) fuel before.length =
      some (before.length + run.length) := by
  induction run generalizing before b fuel with
  | nil =>
    obtain ⟨fuel, rfl⟩ : ∃ n, fuel = n + 1 := ⟨fuel - 1, by simp at enough; omega⟩
    rw [skipLiteral]
    split
    next more =>
      cases rest with
      | nil => simp at more
      | cons c rest =>
        have next : (before ++ b :: ([] ++ c :: rest))[before.length + 1]? = some c := by simp
        rw [next, Option.bind_eq_bind, Option.bind_some, if_pos (stops c rfl)]
        rfl
    · rfl
  | cons c run ih =>
    obtain ⟨fuel, rfl⟩ : ∃ n, fuel = n + 1 := ⟨fuel - 1, by simp at enough; omega⟩
    have next : (before ++ b :: (c :: run ++ rest))[before.length + 1]? = some c := by simp
    rw [skipLiteral, if_pos (by simp), next, Option.bind_eq_bind, Option.bind_some,
      if_neg (by simp [plain c (.head _)])]
    have moved := @ih fuel (before ++ [b]) c
      (fun d mem => plain d (.tail _ mem)) (by simp at enough; omega)
    simp only [List.length_append, List.length_cons, List.length_nil, List.append_assoc,
      List.cons_append, List.nil_append] at moved ⊢
    rw [moved]
    congr 1
    omega

theorem exists_run (rest : List UInt8) : ∃ run later, rest = run ++ later ∧
    (∀ c ∈ run, endsLiteral c = false) ∧ ∀ c ∈ later.head?, endsLiteral c = true := by
  refine ⟨rest.takeWhile fun c => !endsLiteral c, rest.dropWhile fun c => !endsLiteral c,
    List.takeWhile_append_dropWhile.symm, ?_, ?_⟩
  · intro c mem
    simpa using List.mem_takeWhile_imp mem
  · intro c mem
    have stopped := List.head?_dropWhile_not (fun c => !endsLiteral c) rest
    rw [Option.mem_def.mp mem] at stopped
    simpa using stopped

/-- Where a literal ends is fixed. -/
theorem run_unique {run run' rest rest' : List UInt8} (same : run ++ rest = run' ++ rest')
    (plain : ∀ c ∈ run, endsLiteral c = false) (stops : ∀ c ∈ rest.head?, endsLiteral c = true)
    (plain' : ∀ c ∈ run', endsLiteral c = false)
    (stops' : ∀ c ∈ rest'.head?, endsLiteral c = true) : run = run' ∧ rest = rest' := by
  induction run generalizing run' with
  | nil =>
    cases run' with
    | nil => exact ⟨rfl, same⟩
    | cons c run' =>
      rw [List.nil_append] at same
      have stop := stops c (by rw [same]; rfl)
      rw [plain' c (.head _)] at stop
      cases stop
  | cons c run ih =>
    cases run' with
    | nil =>
      rw [List.nil_append] at same
      have stop := stops' c (by rw [← same]; rfl)
      rw [plain c (.head _)] at stop
      cases stop
    | cons d run' =>
      rw [List.cons_append, List.cons_append, List.cons.injEq] at same
      obtain ⟨rfl, same⟩ := same
      obtain ⟨rfl, rfl⟩ := ih same (fun c mem => plain c (.tail _ mem))
        (fun c mem => plain' c (.tail _ mem))
      exact ⟨rfl, rfl⟩

/-! ### The whole scan -/

/-- From a depth and a number of nodes on, the text is within the bounds. -/
def Within (rest : List UInt8) (depth nodes depth' nodes' : Nat) : Prop :=
  ∃ pieces, Lexes rest pieces ∧ ShortStrings pieces ∧ depthAfter depth pieces = some depth' ∧
    nodes + nodeCount pieces = nodes' ∧ nodes' ≤ maxNodes

section Within

variable {b : UInt8} {rest : List UInt8} {depth nodes depth' nodes' : Nat}

theorem within_nil : Within [] depth nodes depth' nodes' ↔
    depth = depth' ∧ nodes = nodes' ∧ nodes' ≤ maxNodes := by
  constructor
  · rintro ⟨pieces, lexes, -, same, count, few⟩
    cases lexes
    exact ⟨Option.some.inj same, count, few⟩
  · rintro ⟨rfl, rfl, few⟩
    exact ⟨[], .nil, by simp [ShortStrings], rfl, rfl, few⟩

theorem Within.few (within : Within rest depth nodes depth' nodes') : nodes ≤ maxNodes := by
  obtain ⟨pieces, -, -, -, count, few⟩ := within
  omega

theorem within_opening (opens : kind b = .opening) :
    Within (b :: rest) depth nodes depth' nodes' ↔
      depth + 1 ≤ 64 ∧ Within rest (depth + 1) (nodes + 1) depth' nodes' := by
  constructor
  · rintro ⟨pieces, lexes, short, same, count, few⟩
    cases lexes with
    | opening _ later =>
      rw [depthAfter] at same
      split at same
      · cases same
      next shallow =>
        exact ⟨by omega, _, later, fun body mem => short body (.tail _ mem), same,
          by simp at count; omega, few⟩
    | _ => simp_all
  · rintro ⟨shallow, pieces, later, short, same, count, few⟩
    refine ⟨.opening :: pieces, .opening opens later, ?_, ?_, ?_, few⟩
    · simpa [ShortStrings] using short
    · rw [depthAfter, if_neg (by omega), same]
    · rw [nodeCount_opening]
      omega

theorem within_closing (closes : kind b = .closing) :
    Within (b :: rest) depth nodes depth' nodes' ↔
      depth ≠ 0 ∧ Within rest (depth - 1) nodes depth' nodes' := by
  constructor
  · rintro ⟨pieces, lexes, short, same, count, few⟩
    cases lexes with
    | closing _ later =>
      rw [depthAfter] at same
      split at same
      · cases same
      next inside =>
        exact ⟨inside, _, later, fun body mem => short body (.tail _ mem), same,
          by simpa using count, few⟩
    | _ => simp_all
  · rintro ⟨inside, pieces, later, short, same, count, few⟩
    refine ⟨.closing :: pieces, .closing closes later, ?_, ?_, ?_, few⟩
    · simpa [ShortStrings] using short
    · rw [depthAfter, if_neg inside, same]
    · simpa using count

theorem within_other (other : kind b = .other) :
    Within (b :: rest) depth nodes depth' nodes' ↔ Within rest depth nodes depth' nodes' := by
  constructor
  · rintro ⟨pieces, lexes, short, same, count, few⟩
    cases lexes with
    | other _ later =>
      exact ⟨_, later, fun body mem => short body (.tail _ mem), same,
        by simpa using count, few⟩
    | _ => simp_all
  · rintro ⟨pieces, later, short, same, count, few⟩
    refine ⟨.other :: pieces, .other other later, ?_, ?_, ?_, few⟩
    · simpa [ShortStrings] using short
    · rw [depthAfter, same]
    · simpa using count

theorem within_literal (starts : kind b = .literal) {run : List UInt8}
    (plain : ∀ c ∈ run, endsLiteral c = false) (stops : ∀ c ∈ rest.head?, endsLiteral c = true) :
    Within (b :: (run ++ rest)) depth nodes depth' nodes' ↔
      Within rest depth (nodes + 1) depth' nodes' := by
  constructor
  · rintro ⟨pieces, lexes, short, same, count, few⟩
    generalize whole : run ++ rest = text at lexes
    cases lexes with
    | literal _ plain' stops' later =>
      obtain ⟨rfl, rfl⟩ := run_unique whole plain stops plain' stops'
      exact ⟨_, later, fun body mem => short body (.tail _ mem), same,
        by simp at count; omega, few⟩
    | _ => simp_all
  · rintro ⟨pieces, later, short, same, count, few⟩
    refine ⟨.literal :: pieces, .literal starts plain stops later, ?_, ?_, ?_, few⟩
    · simpa [ShortStrings] using short
    · rw [depthAfter, same]
    · rw [nodeCount_literal]
      omega

theorem within_string (starts : kind b = .quote) :
    Within (b :: rest) depth nodes depth' nodes' ↔
      ∃ body q after, rest = body ++ q :: after ∧ StringBody body ∧ isQuote q = true ∧
        body.length ≤ maxString ∧ Within after depth (nodes + 1) depth' nodes' := by
  constructor
  · rintro ⟨pieces, lexes, short, same, count, few⟩
    cases lexes with
    | string _ string quoted later =>
      exact ⟨_, _, _, rfl, string, quoted, short _ (.head _), _, later,
        fun body mem => short body (.tail _ mem), same,
        by simp at count; omega, few⟩
    | _ => simp_all
  · rintro ⟨body, q, after, rfl, string, quoted, small, pieces, later, short, same, count, few⟩
    refine ⟨.string body :: pieces, .string starts string quoted later, ?_, ?_, ?_, few⟩
    · intro body' mem
      rcases List.mem_cons.mp mem with same | inside
      · cases same
        exact small
      · exact short body' inside
    · rw [depthAfter, same]
    · rw [nodeCount_string]
      omega

end Within

/-- What a kind says about the tests of the scan. -/
theorem kind_cases (b : UInt8) :
    (kind b = .opening ∧ isOpening b = true) ∨
    (kind b = .closing ∧ isOpening b = false ∧ isClosing b = true) ∨
    (kind b = .quote ∧ isOpening b = false ∧ isClosing b = false ∧ isQuote b = true) ∨
    (kind b = .literal ∧ isOpening b = false ∧ isClosing b = false ∧ isQuote b = false ∧
      opensLiteral b = true) ∨
    (kind b = .other ∧ isOpening b = false ∧ isClosing b = false ∧ isQuote b = false ∧
      opensLiteral b = false) := by
  unfold kind
  cases isOpening b <;> cases isClosing b <;> cases isQuote b <;> cases opensLiteral b <;> simp

theorem scanFrom_ok_iff {rest : List UInt8} {depth nodes depth' nodes' : Nat}
    (enough : rest.length < fuel) (few : nodes ≤ maxNodes) :
    scanFrom (before ++ rest) fuel { pos := before.length, depth, nodes } =
        some (.ok { pos, depth := depth', nodes := nodes' }) ↔
      pos = (before ++ rest).length ∧ Within rest depth nodes depth' nodes' := by
  induction fuel generalizing before rest depth nodes with
  | zero => exact absurd enough (Nat.not_lt_zero _)
  | succ fuel ih =>
    cases rest with
    | nil =>
      rw [scanFrom, if_neg (by simp), within_nil, List.append_nil]
      simp only [Option.some.injEq, Except.ok.injEq, Scanned.mk.injEq]
      exact ⟨fun ⟨at_, depths, count⟩ => ⟨at_.symm, depths, count, count ▸ few⟩,
        fun ⟨at_, depths, count, _⟩ => ⟨at_.symm, depths, count⟩⟩
    | cons b rest =>
      rw [List.length_cons] at enough
      -- What follows a piece.
      have onward (piece after : List UInt8) (whole : b :: rest = piece ++ after)
          (shorter : after.length < fuel) (depth nodes : Nat) :
          (if nodes > maxNodes then some (.error .limitExceeded)
            else scanFrom (before ++ b :: rest) fuel
              { pos := before.length + piece.length, depth, nodes }) =
              some (.ok { pos, depth := depth', nodes := nodes' }) ↔
            pos = (before ++ b :: rest).length ∧ Within after depth nodes depth' nodes' := by
        split
        next many =>
          apply iff_of_false nofun
          rintro ⟨-, within⟩
          exact absurd within.few (Nat.not_le.mpr many)
        next some =>
          have moved := @ih (before ++ piece) after depth nodes shorter (Nat.not_lt.mp some)
          rw [List.append_assoc, ← whole, List.length_append] at moved
          exact moved
      rw [scanFrom, if_pos (by simp), getElem?_split, Option.bind_eq_bind, Option.bind_some]
      rcases kind_cases b with ⟨kind, opening⟩ | ⟨kind, o, closing⟩ | ⟨kind, o, c, quote⟩ |
        ⟨kind, o, c, q, literal⟩ | ⟨kind, o, c, q, l⟩
      · rw [scanToken, if_pos opening, within_opening kind]
        dsimp only
        split
        next deep =>
          apply iff_of_false nofun
          rintro ⟨-, shallow, -⟩
          omega
        next shallow =>
          have within := onward [b] rest rfl (by omega) (depth + 1) (nodes + 1)
          refine Iff.trans within ?_
          exact ⟨fun ⟨at_, more⟩ => ⟨at_, by omega, more⟩, fun ⟨at_, _, more⟩ => ⟨at_, more⟩⟩
      · rw [scanToken, if_neg (by simp [o]), if_pos closing, within_closing kind]
        dsimp only
        split
        next outside =>
          apply iff_of_false nofun
          rintro ⟨-, inside, -⟩
          exact inside outside
        next inside =>
          have within := onward [b] rest rfl (by omega) (depth - 1) nodes
          refine Iff.trans within ?_
          exact ⟨fun ⟨at_, more⟩ => ⟨at_, inside, more⟩, fun ⟨at_, _, more⟩ => ⟨at_, more⟩⟩
      · rw [scanToken, if_neg (by simp [o]), if_neg (by simp [c]), if_pos quote, within_string kind]
        dsimp only
        have size : (before ++ [b]).length = before.length + 1 := by simp
        have string (last : Nat) := @skipString_ok_iff before.length
          (before ++ b :: rest).length (before ++ [b]) rest last (by simp; omega) (by omega) (by omega)
        rw [size, List.append_assoc, List.singleton_append] at string
        obtain ⟨result, found⟩ := Option.isSome_iff_exists.mp
          (@skipString_isSome (before ++ b :: rest) before.length (before ++ b :: rest).length
            (before.length + 1) (by omega) (by rw [List.length_append, List.length_cons]; omega))
        rw [found] at string ⊢
        cases result with
        | error error =>
          apply iff_of_false nofun
          rintro ⟨-, body, q, after, whole, isBody, quoted, small, -⟩
          exact absurd ((string _).mpr ⟨body, q, after, whole, isBody, quoted, rfl, by omega⟩) nofun
        | ok last =>
          obtain ⟨body, q, after, rfl, isBody, quoted, rfl, short⟩ := (string last).mp rfl
          have whole : b :: (body ++ q :: after) = (b :: (body ++ [q])) ++ after := by simp
          have within := onward _ after whole (by simp at enough; omega) depth (nodes + 1)
          have position : before.length + (b :: (body ++ [q])).length =
              before.length + 1 + body.length + 1 := by
            simp only [List.length_cons, List.length_append, List.length_nil]
            omega
          rw [position] at within
          refine Iff.trans within ⟨?_, ?_⟩
          · rintro ⟨at_, more⟩
            exact ⟨at_, body, q, after, rfl, isBody, quoted, by omega, more⟩
          · rintro ⟨at_, body', q', after', same, isBody', quoted', small, more⟩
            -- The quote that the loop found is the one that ends the string.
            have found' := (string _).mpr
              ⟨body', q', after', same, isBody', quoted', rfl, by omega⟩
            simp only [Option.some.injEq, Except.ok.injEq] at found'
            obtain ⟨rfl, rest⟩ := List.append_inj same (by omega)
            cases rest
            exact ⟨at_, more⟩
      · rw [scanToken, if_neg (by simp [o]), if_neg (by simp [c]), if_neg (by simp [q]),
          if_pos literal]
        obtain ⟨run, after, rfl, plain, stops⟩ := exists_run rest
        rw [within_literal kind plain stops, skipLiteral_eq plain stops (by simp; omega)]
        have whole : b :: (run ++ after) = (b :: run) ++ after := rfl
        have within := onward _ after whole (by simp at enough; omega) depth (nodes + 1)
        have position : before.length + (b :: run).length = before.length + run.length + 1 := by
          rw [List.length_cons]
          omega
        rw [position] at within
        exact within
      · rw [scanToken, if_neg (by simp [o]), if_neg (by simp [c]), if_neg (by simp [q]),
          if_neg (by simp [l]), within_other kind]
        exact onward [b] rest rfl (by omega) depth nodes

theorem skipLiteral_isSome (inside : pos < bytes.length) (enough : bytes.length < pos + fuel + 1) :
    (skipLiteral bytes fuel pos).isSome = true := by
  induction fuel generalizing pos with
  | zero => omega
  | succ fuel ih =>
    rw [skipLiteral]
    split
    next more =>
      rw [List.getElem?_eq_getElem more, Option.bind_eq_bind, Option.bind_some]
      split
      · rfl
      · exact ih more (by omega)
    · rfl

/-- A string or a literal ends behind its start. -/
theorem le_skipString {last : Nat} (found : skipString bytes start fuel pos = some (.ok last)) :
    pos ≤ last := by
  induction fuel generalizing pos with
  | zero => cases found
  | succ fuel ih =>
    rw [skipString] at found
    split at found
    · cases found
    next inside =>
      rw [List.getElem?_eq_getElem (by omega), Option.bind_eq_bind, Option.bind_some] at found
      split at found
      · cases found
        exact Nat.le_refl _
      split at found
      · cases found
      · exact Nat.le_trans (Nat.le_of_lt (lt_behind _ _)) (ih found)

theorem le_skipLiteral {last : Nat} (found : skipLiteral bytes fuel pos = some last) :
    pos ≤ last := by
  induction fuel generalizing pos with
  | zero => cases found
  | succ fuel ih =>
    rw [skipLiteral] at found
    split at found
    next more =>
      rw [List.getElem?_eq_getElem more, Option.bind_eq_bind, Option.bind_some] at found
      split at found
      · cases found
        exact Nat.le_refl _
      · exact Nat.le_of_succ_le (ih found)
    · cases found
      exact Nat.le_refl _

/-- Every token is read to its end, which does not lie in front of it. -/
theorem scanToken_spec {at_ : Scanned} {b : UInt8} (inside : at_.pos < bytes.length) :
    ∃ result, scanToken bytes at_ b = some result ∧ ∀ after, result = .ok after →
      at_.pos ≤ after.pos := by
  rw [scanToken]
  split
  · split
    · exact ⟨_, rfl, nofun⟩
    · exact ⟨_, rfl, fun after same => by cases same; exact Nat.le_refl _⟩
  split
  · split
    · exact ⟨_, rfl, nofun⟩
    · exact ⟨_, rfl, fun after same => by cases same; exact Nat.le_refl _⟩
  split
  · obtain ⟨result, found⟩ := Option.isSome_iff_exists.mp
      (@skipString_isSome bytes at_.pos bytes.length (at_.pos + 1) (by omega) (by omega))
    rw [found]
    cases result with
    | error error => exact ⟨_, rfl, nofun⟩
    | ok last =>
      exact ⟨_, rfl, fun after same => by cases same; exact Nat.le_of_succ_le (le_skipString found)⟩
  split
  · obtain ⟨last, found⟩ := Option.isSome_iff_exists.mp
      (@skipLiteral_isSome bytes bytes.length at_.pos inside (by omega))
    rw [found]
    exact ⟨_, rfl, fun after same => by cases same; exact le_skipLiteral found⟩
  · exact ⟨_, rfl, fun after same => by cases same; exact Nat.le_refl _⟩

/-- The scan always comes to an end inside the text. -/
theorem scanFrom_isSome {at_ : Scanned} (enough : bytes.length < at_.pos + fuel) (more : 0 < fuel) :
    (scanFrom bytes fuel at_).isSome = true := by
  induction fuel generalizing at_ with
  | zero => cases more
  | succ fuel ih =>
    rw [scanFrom]
    split
    next inside =>
      obtain ⟨result, found, later⟩ := @scanToken_spec bytes at_ bytes[at_.pos] inside
      rw [List.getElem?_eq_getElem inside, Option.bind_eq_bind, Option.bind_some, found]
      cases result with
      | error error => rfl
      | ok after =>
        have moved := later after rfl
        simp only [Option.bind_eq_bind, Option.bind_some]
        split
        · rfl
        · apply ih
          · dsimp only
            omega
          · omega
    · rfl

theorem predecode_isSome (bytes : List UInt8) (maxEncodedBytes : Nat) (ledger : Ledger) :
    (predecode bytes maxEncodedBytes ledger).isSome = true := by
  rw [predecode]
  split
  · rfl
  split
  · rfl
  obtain ⟨result, found⟩ := Option.isSome_iff_exists.mp
    (@scanFrom_isSome bytes (bytes.length + 1) { pos := 0, depth := 0, nodes := 0 }
      (by simp) (by omega))
  rw [found]
  cases result with
  | error error => rfl
  | ok scanned =>
    dsimp only [Option.bind_eq_bind, Option.bind_some]
    split
    · rfl
    split <;> rfl

/-! ### Admission -/

def Admits (ledger : Ledger) (length nodes : Nat) : Prop :=
  ledger.used.w + (32 * length + 256) + 64 * nodes ≤ workCeiling ∧
    ledger.used.t + (2 * length + 256) ≤ textCeiling

theorem reserve_ok_iff {ledger after : Ledger} {cost : Cost} :
    ledger.reserve cost = .ok after ↔
      ledger.used.w + cost.w ≤ workCeiling ∧ ledger.used.t + cost.t ≤ textCeiling ∧
        after = { used := { w := ledger.used.w + cost.w, t := ledger.used.t + cost.t } } := by
  have work : workCeiling < 2 ^ 64 := by decide
  have text : textCeiling < 2 ^ 64 := by decide
  simp only [Ledger.reserve, checkedAdd]
  split
  next =>
    split
    next =>
      simp only [bind, Except.bind, pure, Except.pure, throw, throwThe, MonadExceptOf.throw]
      split
      next much =>
        apply iff_of_false nofun
        rintro ⟨w, t, -⟩
        omega
      next fits =>
        rw [not_or, Nat.not_lt, Nat.not_lt] at fits
        rw [Except.ok.injEq]
        exact ⟨fun same => ⟨fits.1, fits.2, same.symm⟩, fun ⟨_, _, same⟩ => same.symm⟩
    next =>
      apply iff_of_false nofun
      rintro ⟨w, t, -⟩
      omega
  next =>
    apply iff_of_false nofun
    rintro ⟨w, t, -⟩
    omega

theorem codecAdmit_ok_iff {ledger after : Ledger} {n : Nat} :
    codecAdmit n ledger = .ok after ↔
      ledger.used.w + (32 * n + 256) ≤ workCeiling ∧ ledger.used.t + (2 * n + 256) ≤ textCeiling ∧
        after = { used :=
          { w := ledger.used.w + (32 * n + 256), t := ledger.used.t + (2 * n + 256) } } := by
  have work : workCeiling < 2 ^ 64 := by decide
  by_cases small : 32 * n + 256 < 2 ^ 64
  · have first : checkedMul 32 n = .ok (32 * n) := if_pos (by omega)
    have second : checkedMul 2 n = .ok (2 * n) := if_pos (by omega)
    have third : checkedAdd (32 * n) 256 = .ok (32 * n + 256) := if_pos small
    have fourth : checkedAdd (2 * n) 256 = .ok (2 * n + 256) := if_pos (by omega)
    have same : codecAdmit n ledger =
        ledger.reserve { w := 32 * n + 256, t := 2 * n + 256 } := by
      rw [codecAdmit, first, second]
      change (checkedAdd (32 * n) 256 >>= fun w => checkedAdd (2 * n) 256 >>= fun t =>
        ledger.reserve { w, t }) = _
      rw [third, fourth]
      rfl
    rw [same]
    exact reserve_ok_iff
  · apply iff_of_false
    · intro admitted
      rw [codecAdmit, checkedMul] at admitted
      split at admitted
      · have much : checkedAdd (32 * n) 256 = .error .limitExceeded := if_neg small
        change (checkedAdd (32 * n) 256 >>= _) = _ at admitted
        rw [much] at admitted
        cases admitted
      · cases admitted
    · rintro ⟨w, -⟩
      omega

/-- The scan succeeds exactly on the texts within the bounds that the ledger admits. -/
theorem predecode_ok_iff {maxEncodedBytes : Nat} {ledger : Ledger} :
    (∃ after, predecode bytes maxEncodedBytes ledger = some (.ok after)) ↔
      bytes.length ≤ maxEncodedBytes ∧ ∃ nodes, Within bytes 0 0 0 nodes ∧
        Admits ledger bytes.length nodes := by
  have whole (pos depth nodes : Nat) := @scanFrom_ok_iff (bytes.length + 1) pos [] bytes 0 0 depth
    nodes (by omega) (by omega)
  rw [List.nil_append, List.length_nil] at whole
  rw [predecode]
  split
  next long =>
    apply iff_of_false (by rintro ⟨after, same⟩; cases same)
    rintro ⟨short, -⟩
    omega
  next short =>
    cases admitted : codecAdmit bytes.length ledger with
    | error error =>
      apply iff_of_false (by rintro ⟨after, same⟩; cases same)
      rintro ⟨-, nodes, -, work, text⟩
      have enough : ledger.used.w + (32 * bytes.length + 256) ≤ workCeiling :=
        Nat.le_trans (Nat.le_add_right _ _) work
      have fits := codecAdmit_ok_iff.mpr ⟨enough, text, rfl⟩
      rw [admitted] at fits
      cases fits
    | ok charged =>
      obtain ⟨-, -, rfl⟩ := codecAdmit_ok_iff.mp admitted
      obtain ⟨result, found⟩ := Option.isSome_iff_exists.mp
        (@scanFrom_isSome bytes (bytes.length + 1) { pos := 0, depth := 0, nodes := 0 }
          (by simp) (by omega))
      simp only [found, Option.bind_eq_bind, Option.bind_some]
      cases result with
      | error error =>
        apply iff_of_false (by rintro ⟨after, same⟩; cases same)
        rintro ⟨-, nodes, within, -⟩
        have scanned := (whole bytes.length 0 nodes).mpr ⟨rfl, within⟩
        rw [found] at scanned
        cases scanned
      | ok scanned =>
        obtain ⟨pos, depth, nodes⟩ := scanned
        obtain ⟨-, within⟩ := (whole pos depth nodes).mp found
        have few : checkedMul 64 nodes = .ok (64 * nodes) := by
          obtain ⟨pieces, -, -, -, -, few⟩ := within
          rw [maxNodes] at few
          exact if_pos (by omega)
        dsimp only
        split
        next unclosed =>
          apply iff_of_false (by rintro ⟨after, same⟩; cases same)
          rintro ⟨-, nodes', within', -⟩
          have scanned := (whole bytes.length 0 nodes').mpr ⟨rfl, within'⟩
          rw [found] at scanned
          cases scanned
          exact unclosed rfl
        next closed =>
          rw [not_not] at closed
          subst closed
          rw [few]
          constructor
          · rintro ⟨after, reserved⟩
            obtain ⟨work, text, -⟩ := reserve_ok_iff.mp (Option.some.inj reserved)
            exact ⟨Nat.not_lt.mp short, nodes, within, work, text⟩
          · rintro ⟨-, nodes', within', work, text⟩
            have scanned := (whole bytes.length 0 nodes').mpr ⟨rfl, within'⟩
            rw [found] at scanned
            cases scanned
            exact ⟨_, congrArg some (reserve_ok_iff.mpr ⟨work, text, rfl⟩)⟩

end GraphqlOrm.Replay
