import GraphqlOrm.Query.StatementLexing

/-!
# PostgreSQL statements at the driver

`normalize_postgres_statement`: one pass over the bytes of a statement finds its parameters,
which then get numbers from a start on. On the first anonymous placeholder the statement is
given to `normalize_sql_placeholders` instead. Taking slices of the text at offsets that fall
inside a character stops the program, and so does a placeholder number beyond `usize`; here both
are `none`.
-/
namespace GraphqlOrm.Query

open Schema Text

/-! ### Bytes -/

/-- The byte of an ASCII character. -/
def byte (c : Char) : UInt8 := UInt8.ofNat c.toNat

/-- `u8::is_ascii_digit`. -/
def isDigitByte (b : UInt8) : Bool := byte '0' ≤ b && b ≤ byte '9'

/-- `u8::is_ascii_alphabetic`. -/
def isAlphaByte (b : UInt8) : Bool :=
  (byte 'a' ≤ b && b ≤ byte 'z') || (byte 'A' ≤ b && b ≤ byte 'Z')

/-- `u8::is_ascii_alphanumeric`. -/
def isAlphanumByte (b : UInt8) : Bool := isAlphaByte b || isDigitByte b

def postgresIdentifierByte (b : UInt8) : Bool :=
  isAlphanumByte b || b = byte '_' || b = byte '$' || 0x80 ≤ b

def tagStartByte (b : UInt8) : Bool := isAlphaByte b || b = byte '_' || 0x80 ≤ b

def tagByte (b : UInt8) : Bool := isAlphanumByte b || b = byte '_' || 0x80 ≤ b

/-! ### Inner loops -/

/-- What is left after a quoted part, from the byte after its opening quote on. -/
def skipQuoted (quote : UInt8) (escaped : Bool) : List UInt8 → List UInt8
  | [] => []
  | [_] => []
  | b :: c :: rest =>
    if escaped ∧ b = byte '\\' then skipQuoted quote escaped rest
    else if b = quote then
      if c = quote then skipQuoted quote escaped rest else c :: rest
    else skipQuoted quote escaped (c :: rest)

def skipLine (rest : List UInt8) : List UInt8 :=
  rest.dropWhile fun b => ¬(b = byte '\n' ∨ b = byte '\r')

def skipBlock : Nat → List UInt8 → List UInt8
  | 0, rest => rest
  | _ + 1, [] => []
  | _ + 1, [_] => []
  | depth + 1, b :: c :: rest =>
    if b = byte '/' ∧ c = byte '*' then skipBlock (depth + 2) rest
    else if b = byte '*' ∧ c = byte '/' then skipBlock depth rest
    else skipBlock (depth + 1) (c :: rest)

/-- `str::find` of a text: the byte offset of the first place where it stands. -/
def find (needle : List Char) : List Char → Option Nat
  | [] => if needle = [] then some 0 else none
  | c :: rest =>
    if needle.isPrefixOf (c :: rest) then some 0 else (find needle rest).map (c.utf8Size + ·)

def leadingTag (rest : List UInt8) : List UInt8 :=
  if rest.head?.any tagStartByte then rest.takeWhile tagByte else []

/-- Where the scan goes on after a dollar sign that no digit follows: after a dollar-quoted part,
if the sign opens one. `length` is the number of all bytes, `rest` what follows the sign. -/
def skipDollar (sql : List Char) (length start : Nat) (rest : List UInt8) : Option Nat :=
  if (rest.drop (leadingTag rest).length).head? = some (byte '$') then do
    let i := start + 1 + (leadingTag rest).length + 1
    let delimiter ← slice sql start i
    let (_, after) ← splitAtByte sql i
    return match find delimiter after with
      | some offset => i + offset + byteLength delimiter
      | none => length
  else some (start + 1)

/-! ### The scan -/

/-- What the scan finds: the places of the parameters, unless it meets an anonymous placeholder. -/
inductive Scanned where
  | parameters (places : List (Nat × Nat))
  | anonymous

def Scanned.push (place : Nat × Nat) : Scanned → Scanned
  | parameters places => .parameters (place :: places)
  | anonymous => .anonymous

def escapesAt (bytes : List UInt8) (i : Nat) : Bool :=
  0 < i && bytes[i - 1]?.any (fun b => b = byte 'e' || b = byte 'E') &&
    (i == 1 || !bytes[i - 2]?.any postgresIdentifierByte)

def identifierBefore (bytes : List UInt8) (i : Nat) : Bool :=
  !(i == 0 || !bytes[i - 1]?.any postgresIdentifierByte)

theorem skipQuoted_length (quote : UInt8) (escaped : Bool) (rest : List UInt8) :
    (skipQuoted quote escaped rest).length ≤ rest.length := by
  fun_induction skipQuoted quote escaped rest <;> simp_all <;> omega

theorem skipLine_length (rest : List UInt8) : (skipLine rest).length ≤ rest.length :=
  (List.dropWhile_suffix _).length_le

theorem skipBlock_length (depth : Nat) (rest : List UInt8) :
    (skipBlock depth rest).length ≤ rest.length := by
  fun_induction skipBlock depth rest <;> simp_all <;> omega

theorem skipDollar_lt {sql : List Char} {length start next : Nat} {rest : List UInt8}
    (inside : start < length) (skipped : skipDollar sql length start rest = some next) :
    start < next := by
  unfold skipDollar at skipped
  split at skipped
  · simp only [Option.bind_eq_bind, Option.bind_eq_some_iff, Option.pure_def,
      Option.some.injEq] at skipped
    obtain ⟨delimiter, -, after, -, rfl⟩ := skipped
    split <;> omega
  · cases skipped
    omega

def scan (sql : List Char) (bytes : List UInt8) (i : Nat) : Option Scanned :=
  match at_ : bytes.drop i with
  | [] => some (.parameters [])
  | b :: rest =>
    if b = byte '\'' ∨ b = byte '"' then
      scan sql bytes
        (bytes.length - (skipQuoted b (b = byte '\'' && escapesAt bytes i) rest).length)
    else if b = byte '-' ∧ rest.head? = some (byte '-') then
      scan sql bytes (bytes.length - (skipLine rest.tail).length)
    else if b = byte '/' ∧ rest.head? = some (byte '*') then
      scan sql bytes (bytes.length - (skipBlock 1 rest.tail).length)
    else if b = byte '$' ∧ identifierBefore bytes i = false then
      if rest.head?.any isDigitByte then
        let stop := i + 1 + (rest.takeWhile isDigitByte).length
        (scan sql bytes stop).map (.push (i, stop))
      else
        match next_ : skipDollar sql bytes.length i rest with
        | none => none
        | some next => scan sql bytes next
    else if b = byte '?' then some .anonymous
    else if b = byte '@' ∧ rest.head?.any (fun c => c = byte 'p' || c = byte 'P') then
      some .anonymous
    else scan sql bytes (i + 1)
termination_by bytes.length - i
decreasing_by
  all_goals
    have here := congrArg List.length at_
    simp only [List.length_drop, List.length_cons] at here
  · have := skipQuoted_length b (b = byte '\'' && escapesAt bytes i) rest
    omega
  · have := skipLine_length rest.tail
    have := @List.length_tail _ rest
    omega
  · have := skipBlock_length 1 rest.tail
    have := @List.length_tail _ rest
    omega
  · omega
  · have := skipDollar_lt (by omega) next_
    omega
  · omega

/-! ### The numbers -/

/-- `str::parse::<usize>` of digits. -/
def parseUsize (digits : List Char) : Option Nat :=
  let value := Nat.ofDigitChars 10 digits 0
  if digits ≠ [] ∧ value < 2 ^ 64 then some value else none

/-- The number of a parameter after rebasing. Malformed and overflowing numbers have none. -/
def rebasedIndex (offset : Nat) (digits : List Char) : Option Nat :=
  ((parseUsize digits).filter (0 < ·)).bind fun n => if n + offset < 2 ^ 64 then some (n + offset) else none

def writeParameters (sql : List Char) (offset : Nat) : Nat → List (Nat × Nat) → Option (List Char)
  | previous, [] => (splitAtByte sql previous).map Prod.snd
  | previous, (start, stop) :: places => do
    let before ← slice sql previous start
    let digits ← slice sql (start + 1) stop
    let written ← match rebasedIndex offset digits with
      | some index => some (DatabaseBackend.postgres.placeholder index).toList
      | none => slice sql start stop
    let after ← writeParameters sql offset stop places
    return before ++ written ++ after

def encode (cs : List Char) : List UInt8 := cs.flatMap String.utf8EncodeChar

def normalizePostgresStatement (sql : String) (startIndex : Nat) : Option String :=
  (scan sql.toList (encode sql.toList) 0).bind fun
    | .anonymous =>
      -- Each placeholder written there adds one to the `usize` that numbers the next.
      if startIndex + emitted .postgres sql < 2 ^ 64 then
        some (normalizeSqlPlaceholders .postgres sql startIndex)
      else none
    | .parameters places =>
      let offset := startIndex - 1
      if offset = 0 then some sql
      else (writeParameters sql.toList offset 0 places).map String.ofList

end GraphqlOrm.Query
