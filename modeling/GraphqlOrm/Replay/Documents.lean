import GraphqlOrm.Replay.Predecode

/-!
# JSON documents pass the scan

The grammar of JSON over bytes, with the depth and the nodes of a document counted along.

## Main result

`predecode_exact`: the scan stops on every text, lets exactly the texts through whose pieces
are within its bounds and its budget, and every JSON document within them is such a text.
-/
namespace GraphqlOrm.Replay

/-! ### The grammar -/

def isDigit (b : UInt8) : Bool := 0x30 ≤ b && b ≤ 0x39

def isBlank (b : UInt8) : Bool := b == 0x20 || b == 0x09 || b == 0x0a || b == 0x0d

def isHex (b : UInt8) : Bool := isDigit b || (0x41 ≤ b && b ≤ 0x46) || (0x61 ≤ b && b ≤ 0x66)

def Digits (run : List UInt8) : Prop := run ≠ [] ∧ ∀ b ∈ run, isDigit b = true

def Blanks (run : List UInt8) : Prop := ∀ b ∈ run, isBlank b = true

/-- A number: a sign, an integer without leading zeros, a fraction and an exponent. -/
def NumberText (text : List UInt8) : Prop :=
  ∃ sign integer fraction exponent, text = sign ++ integer ++ fraction ++ exponent ∧
    (sign = [] ∨ sign = [0x2d]) ∧ Digits integer ∧
    (integer.head? = some 0x30 → integer = [0x30]) ∧
    (fraction = [] ∨ ∃ digits, fraction = 0x2e :: digits ∧ Digits digits) ∧
    (exponent = [] ∨ ∃ e sign digits, exponent = e :: (sign ++ digits) ∧ (e = 0x65 ∨ e = 0x45) ∧
      (sign = [] ∨ sign = [0x2b] ∨ sign = [0x2d]) ∧ Digits digits)

/-- `true`, `false` and `null`. -/
def words : List (List UInt8) :=
  [[0x74, 0x72, 0x75, 0x65], [0x66, 0x61, 0x6c, 0x73, 0x65], [0x6e, 0x75, 0x6c, 0x6c]]

def isEscape (b : UInt8) : Bool :=
  b == 0x22 || b == 0x5c || b == 0x2f || b == 0x62 || b == 0x66 || b == 0x6e || b == 0x72 ||
    b == 0x74

inductive JsonString : List UInt8 → Prop
  | nil : JsonString []
  | plain {b : UInt8} {rest : List UInt8} :
    isQuote b = false → isBackslash b = false → 0x20 ≤ b → JsonString rest →
      JsonString (b :: rest)
  | escape {b : UInt8} {rest : List UInt8} :
    isEscape b = true → JsonString rest → JsonString (0x5c :: b :: rest)
  | unicode {a b c d : UInt8} {rest : List UInt8} :
    isHex a = true → isHex b = true → isHex c = true → isHex d = true → JsonString rest →
      JsonString (0x5c :: 0x75 :: a :: b :: c :: d :: rest)

inductive Part where
  | value | elements | members

/-- A part of a document whose strings have at most a number of bytes, nested at most so
deep, with so many strings, numbers, words and brackets. -/
inductive Document (limit : Nat) : Part → Nat → Nat → List UInt8 → Prop
  | word {depth : Nat} {text : List UInt8} : text ∈ words → Document limit .value depth 1 text
  | number {depth : Nat} {text : List UInt8} :
    NumberText text → Document limit .value depth 1 text
  | string {depth : Nat} {body : List UInt8} :
    JsonString body → body.length ≤ limit →
      Document limit .value depth 1 (0x22 :: (body ++ [0x22]))
  | emptyArray {depth : Nat} {blanks : List UInt8} :
    Blanks blanks → Document limit .value (depth + 1) 1 (0x5b :: (blanks ++ [0x5d]))
  | emptyObject {depth : Nat} {blanks : List UInt8} :
    Blanks blanks → Document limit .value (depth + 1) 1 (0x7b :: (blanks ++ [0x7d]))
  | array {depth nodes : Nat} {text : List UInt8} :
    Document limit .elements depth nodes text →
      Document limit .value (depth + 1) (nodes + 1) (0x5b :: (text ++ [0x5d]))
  | object {depth nodes : Nat} {text : List UInt8} :
    Document limit .members depth nodes text →
      Document limit .value (depth + 1) (nodes + 1) (0x7b :: (text ++ [0x7d]))
  | spaced {depth nodes : Nat} {before text after : List UInt8} :
    Blanks before → Document limit .value depth nodes text → Blanks after →
      Document limit .value depth nodes (before ++ text ++ after)
  | element {depth nodes : Nat} {text : List UInt8} :
    Document limit .value depth nodes text → Document limit .elements depth nodes text
  | elements {depth nodes nodes' : Nat} {text text' : List UInt8} :
    Document limit .value depth nodes text → Document limit .elements depth nodes' text' →
      Document limit .elements depth (nodes + nodes') (text ++ 0x2c :: text')
  | member {depth nodes : Nat} {before key between text : List UInt8} :
    Blanks before → JsonString key → key.length ≤ limit → Blanks between →
      Document limit .value depth nodes text →
      Document limit .members depth (nodes + 1)
        (before ++ 0x22 :: (key ++ 0x22 :: (between ++ 0x3a :: text)))
  | members {depth nodes nodes' : Nat} {text text' : List UInt8} :
    Document limit .members depth nodes text → Document limit .members depth nodes' text' →
      Document limit .members depth (nodes + nodes') (text ++ 0x2c :: text')

/-! ### Bytes of the grammar -/

variable {text : List UInt8}

theorem JsonString.stringBody (string : JsonString text) : StringBody text := by
  have hex {b : UInt8} (digit : isHex b = true) : isQuote b = false ∧ isBackslash b = false := by
    constructor
    · by_contra quote
      obtain rfl : b = 0x22 := by simpa [isQuote] using quote
      cases digit
    · by_contra backslash
      obtain rfl : b = 0x5c := by simpa [isBackslash] using backslash
      cases digit
  induction string with
  | nil => exact .nil
  | plain noQuote noBackslash _ _ ih => exact .plain noQuote noBackslash ih
  | escape _ _ ih => exact .escaped rfl ih
  | unicode a b c d _ ih =>
    exact .escaped rfl (.plain (hex a).1 (hex a).2 (.plain (hex b).1 (hex b).2
      (.plain (hex c).1 (hex c).2 (.plain (hex d).1 (hex d).2 ih))))

def Literal (text : List UInt8) : Prop :=
  ∃ b run, text = b :: run ∧ kind b = .literal ∧ ∀ c ∈ run, endsLiteral c = false

theorem kind_digit {b : UInt8} (digit : isDigit b = true) : kind b = .literal := by
  have other {c : UInt8} (noDigit : isDigit c = false) : (b == c) = false := by
    by_contra same
    obtain rfl : b = c := by simpa using same
    rw [noDigit] at digit
    cases digit
  have starts : opensLiteral b = true := by
    simp only [opensLiteral, isDigit] at digit ⊢
    simp [digit]
  simp [kind, isOpening, isClosing, isQuote, starts, @other 0x7b rfl, @other 0x5b rfl,
    @other 0x7d rfl, @other 0x5d rfl, @other 0x22 rfl]

theorem endsLiteral_digit {b : UInt8} (digit : isDigit b = true) : endsLiteral b = false := by
  have other {c : UInt8} (noDigit : isDigit c = false) : (b == c) = false := by
    by_contra same
    obtain rfl : b = c := by simpa using same
    rw [noDigit] at digit
    cases digit
  simp [endsLiteral, isClosing, @other 0x2c rfl, @other 0x7d rfl, @other 0x5d rfl, @other 0x20 rfl,
    @other 0x0a rfl, @other 0x0d rfl, @other 0x09 rfl]

theorem literal_word (word : text ∈ words) : Literal text := by
  simp only [words, List.mem_cons, List.not_mem_nil, or_false] at word
  rcases word with rfl | rfl | rfl
  · exact ⟨0x74, _, rfl, rfl, by decide +kernel⟩
  · exact ⟨0x66, _, rfl, rfl, by decide +kernel⟩
  · exact ⟨0x6e, _, rfl, rfl, by decide +kernel⟩

theorem literal_number (number : NumberText text) : Literal text := by
  obtain ⟨sign, integer, fraction, exponent, rfl, sign', ⟨filled, digits⟩, -, fraction',
    exponent'⟩ := number
  -- No byte behind the sign ends a literal.
  have inside : ∀ c ∈ integer ++ fraction ++ exponent, endsLiteral c = false := by
    intro c mem
    rcases List.mem_append.mp mem with mem | mem
    · rcases List.mem_append.mp mem with mem | mem
      · exact endsLiteral_digit (digits c mem)
      · rcases fraction' with rfl | ⟨places, rfl, -, digits⟩
        · cases mem
        · rcases List.mem_cons.mp mem with rfl | mem
          · rfl
          · exact endsLiteral_digit (digits c mem)
    · rcases exponent' with rfl | ⟨e, sign, places, rfl, letter, sign', -, digits⟩
      · cases mem
      · rcases List.mem_cons.mp mem with rfl | mem
        · rcases letter with rfl | rfl <;> rfl
        · rcases List.mem_append.mp mem with mem | mem
          · rcases sign' with rfl | rfl | rfl
            · cases mem
            · obtain rfl := List.mem_singleton.mp mem
              rfl
            · obtain rfl := List.mem_singleton.mp mem
              rfl
          · exact endsLiteral_digit (digits c mem)
  rcases sign' with rfl | rfl
  · cases integer with
    | nil => exact absurd rfl filled
    | cons b integer =>
      refine ⟨b, integer ++ fraction ++ exponent, by simp, kind_digit (digits b (.head _)),
        fun c mem => inside c ?_⟩
      rw [List.cons_append, List.cons_append]
      exact List.mem_cons_of_mem _ mem
  · exact ⟨0x2d, integer ++ fraction ++ exponent, by simp, rfl, inside⟩

/-! ### Documents are within the bounds -/

def Stops (rest : List UInt8) : Prop := ∀ c ∈ rest.head?, endsLiteral c = true

theorem stops_cons {b : UInt8} (ends : endsLiteral b = true) (rest : List UInt8) :
    Stops (b :: rest) := by
  intro c mem
  cases mem
  exact ends

theorem endsLiteral_blank {b : UInt8} (blank : isBlank b = true) :
    endsLiteral b = true ∧ kind b = .other := by
  simp only [isBlank, Bool.or_eq_true, beq_iff_eq] at blank
  rcases blank with ((rfl | rfl) | rfl) | rfl <;> exact ⟨rfl, rfl⟩

variable {rest : List UInt8}

theorem Blanks.stops {blanks : List UInt8} (blank : Blanks blanks) (stops : Stops rest) :
    Stops (blanks ++ rest) := by
  cases blanks with
  | nil => exact stops
  | cons b blanks => exact stops_cons (endsLiteral_blank (blank b (.head _))).1 _

section Documents

variable {depth nodes depth' nodes' : Nat}

theorem Blanks.within {blanks : List UInt8} (blank : Blanks blanks)
    (within : Within rest depth nodes depth' nodes') :
    Within (blanks ++ rest) depth nodes depth' nodes' := by
  induction blanks with
  | nil => exact within
  | cons b blanks ih =>
    rw [List.cons_append, within_other (endsLiteral_blank (blank b (.head _))).2]
    exact ih fun c mem => blank c (.tail _ mem)

theorem Literal.within (literal : Literal text) (stops : Stops rest)
    (within : Within rest depth (nodes + 1) depth' nodes') :
    Within (text ++ rest) depth nodes depth' nodes' := by
  obtain ⟨b, run, rfl, starts, plain⟩ := literal
  rw [List.cons_append, within_literal starts plain stops]
  exact within

theorem JsonString.within {body : List UInt8} (string : JsonString body)
    (short : body.length ≤ maxString) (within : Within rest depth (nodes + 1) depth' nodes') :
    Within (0x22 :: (body ++ 0x22 :: rest)) depth nodes depth' nodes' := by
  rw [within_string rfl]
  exact ⟨body, 0x22, rest, rfl, string.stringBody, rfl, short, within⟩

/-- A part of a document in front of a text within the bounds. -/
theorem Document.within {part : Part} {deep count : Nat}
    (document : Document maxString part deep count text) (stops : Stops rest)
    (fits : depth + deep ≤ 64) (within : Within rest depth (nodes + count) depth' nodes') :
    Within (text ++ rest) depth nodes depth' nodes' := by
  -- Brackets around a text that is within the bounds one level deeper.
  have bracketed {b c : UInt8} (opening : kind b = .opening) (closing : kind c = .closing)
      {depth nodes count : Nat} {inside rest : List UInt8} (shallow : depth + 1 ≤ 64)
      (within : Within rest depth (nodes + 1 + count) depth' nodes')
      (inner : Within (c :: rest) (depth + 1) (nodes + 1 + count) depth' nodes' →
        Within (inside ++ c :: rest) (depth + 1) (nodes + 1) depth' nodes') :
      Within (b :: (inside ++ [c]) ++ rest) depth nodes depth' nodes' := by
    rw [List.cons_append, within_opening opening, List.append_assoc, List.singleton_append]
    refine ⟨shallow, inner ?_⟩
    rw [within_closing closing]
    exact ⟨Nat.succ_ne_zero _, within⟩
  induction document generalizing depth nodes rest with
  | word word => exact (literal_word word).within stops within
  | number number => exact (literal_number number).within stops within
  | string string short =>
    simpa using string.within short within
  | emptyArray blank | emptyObject blank =>
    exact @bracketed _ _ rfl rfl _ _ 0 _ _ (by omega) within fun closed => blank.within closed
  | @array deep count text _ ih | @object deep count text _ ih =>
    apply bracketed rfl rfl (by omega) (by rw [Nat.add_right_comm, Nat.add_assoc]; exact within)
    exact fun closed => ih (stops_cons rfl _) (by omega) closed
  | spaced before _ after ih =>
    rw [List.append_assoc, List.append_assoc]
    exact before.within (ih (after.stops stops) fits (after.within within))
  | element _ ih => exact ih stops fits within
  | elements _ _ ih ih' | members _ _ ih ih' =>
    rw [List.append_assoc, List.cons_append]
    apply ih (stops_cons rfl _) fits
    rw [within_other rfl]
    exact ih' stops fits (by rw [Nat.add_assoc]; exact within)
  | member before key short between _ ih =>
    rw [List.append_assoc, List.cons_append, List.append_assoc, List.cons_append, List.append_assoc,
      List.cons_append]
    apply before.within
    apply key.within short
    apply between.within
    rw [within_other rfl]
    exact ih stops fits (by rw [Nat.add_assoc, Nat.add_comm 1]; exact within)

end Documents

/-! ### The scan -/

def maxEncoded : Nat := 67108864

/-- The scan always stops without reading past the end. It succeeds exactly on the texts that
are short enough, whose pieces nest to a depth of at most 64 and close what they open, whose
strings and nodes are within the bounds, and that the ledger admits. Every JSON document
within these bounds is such a text. -/
theorem predecode_exact :
    (∀ bytes maxEncodedBytes ledger, (predecode bytes maxEncodedBytes ledger).isSome = true) ∧
    (∀ bytes maxEncodedBytes ledger,
      (∃ after, predecode bytes maxEncodedBytes ledger = some (.ok after)) ↔
        bytes.length ≤ maxEncodedBytes ∧ ∃ pieces, Lexes bytes pieces ∧ ShortStrings pieces ∧
          depthAfter 0 pieces = some 0 ∧ nodeCount pieces ≤ maxNodes ∧
          Admits ledger bytes.length (nodeCount pieces)) ∧
    ∀ bytes nodes maxEncodedBytes ledger, Document maxString .value 64 nodes bytes →
      nodes ≤ maxNodes → bytes.length ≤ maxEncodedBytes → Admits ledger bytes.length nodes →
      ∃ after, predecode bytes maxEncodedBytes ledger = some (.ok after) := by
  refine ⟨predecode_isSome, ?_, ?_⟩
  · intro bytes maxEncodedBytes ledger
    rw [predecode_ok_iff]
    constructor
    · rintro ⟨short, nodes, ⟨pieces, lexes, strings, closed, rfl, few⟩, admits⟩
      rw [Nat.zero_add] at few admits
      exact ⟨short, pieces, lexes, strings, closed, few, admits⟩
    · rintro ⟨short, pieces, lexes, strings, closed, few, admits⟩
      exact ⟨short, _, ⟨pieces, lexes, strings, closed, Nat.zero_add _, few⟩, admits⟩
  · intro bytes nodes maxEncodedBytes ledger document few short admits
    rw [predecode_ok_iff]
    refine ⟨short, nodes, ?_, admits⟩
    have stops : Stops [] := fun c mem => absurd mem (by simp)
    have within := document.within stops (by omega : 0 + 64 ≤ 64)
      (within_nil.mpr ⟨rfl, Nat.zero_add nodes, few⟩)
    rwa [List.append_nil] at within

theorem blanks_nil : Blanks [] := fun _ mem => absurd mem List.not_mem_nil

theorem numberText_one : NumberText [0x31] :=
  ⟨[], [0x31], [], [], rfl, .inl rfl, ⟨by simp, by decide +kernel⟩, by simp, .inl rfl, .inl rfl⟩

/-- `{"id": [1, "a"]}` -/
def idDocument : List UInt8 :=
  [0x7b, 0x22, 0x69, 0x64, 0x22, 0x3a, 0x20, 0x5b, 0x31, 0x2c, 0x20, 0x22, 0x61, 0x22, 0x5d, 0x7d]

theorem document_idDocument : Document maxString .value 64 5 idDocument := by
  have blank : Blanks [0x20] := by simp [Blanks, isBlank]
  have letter {b : UInt8} (plain : isQuote b = false ∧ isBackslash b = false ∧ 0x20 ≤ b)
      {rest : List UInt8} (string : JsonString rest) : JsonString (b :: rest) :=
    .plain plain.1 plain.2.1 plain.2.2 string
  have text : Document maxString .value 62 1 (0x22 :: ([0x61] ++ [0x22])) :=
    .string (letter (by decide) .nil) (by decide)
  have spaced : Document maxString .value 62 1 ([0x20] ++ (0x22 :: ([0x61] ++ [0x22])) ++ []) :=
    .spaced blank text blanks_nil
  have list : Document maxString .value 63 3
      (0x5b :: ([0x31] ++ 0x2c :: ([0x20] ++ (0x22 :: ([0x61] ++ [0x22])) ++ []) ++ [0x5d])) :=
    .array (.elements (.number numberText_one) (.element spaced))
  have value : Document maxString .value 63 3 ([0x20] ++ [0x5b, 0x31, 0x2c, 0x20, 0x22, 0x61, 0x22,
      0x5d] ++ []) := .spaced blank list blanks_nil
  have mem : Document maxString .members 63 4 ([] ++ 0x22 :: ([0x69, 0x64] ++ 0x22 :: ([] ++ 0x3a ::
      ([0x20] ++ [0x5b, 0x31, 0x2c, 0x20, 0x22, 0x61, 0x22, 0x5d] ++ [])))) :=
    .member blanks_nil (letter (by decide) (letter (by decide) .nil)) (by decide) blanks_nil value
  exact .object mem

/-- A whole document passes the scan of a fresh ledger. -/
theorem predecode_exact_document :
    ∃ after, predecode idDocument maxEncoded Ledger.default = some (.ok after) :=
  predecode_exact.2.2 idDocument 5 maxEncoded Ledger.default document_idDocument (by decide)
    (by decide) ⟨by decide, by decide⟩

def blanksAndOne (count : Nat) : List UInt8 := List.replicate count 0x20 ++ [0x31] ++ []

theorem document_blanksAndOne (count : Nat) :
    Document maxString .value 64 1 (blanksAndOne count) := by
  apply Document.spaced
  · intro b mem
    rw [List.eq_of_mem_replicate mem]
    rfl
  · exact .number numberText_one
  · exact blanks_nil

theorem length_blanksAndOne (count : Nat) : (blanksAndOne count).length = count + 1 := by
  simp [blanksAndOne]

theorem predecode_blanksAndOne {count : Nat} (many : workCeiling < 32 * count) {limit : Nat}
    {ledger after : Ledger} :
    predecode (blanksAndOne count) limit ledger ≠ some (.ok after) := by
  intro passes
  obtain ⟨-, nodes, -, work, -⟩ := predecode_ok_iff.mp ⟨after, passes⟩
  rw [length_blanksAndOne] at work
  omega

/-- A bracket right behind a digit is not counted, so that an unclosed one passes; and a
document of one number, with more blanks in front than the work of the ledger pays for, is
refused. -/
theorem predecode_counterexamples :
    ((∃ after, predecode [0x31, 0x5b] maxEncoded Ledger.default = some (.ok after)) ∧
      [0x31, 0x5b].countP isQuote = 0 ∧ [0x31, 0x5b].countP isOpening = 1 ∧
      [0x31, 0x5b].countP isClosing = 0) ∧
    ∃ bytes, Document maxString .value 64 1 bytes ∧ bytes.length ≤ maxEncoded ∧
      ∀ after, predecode bytes maxEncoded Ledger.default ≠ some (.ok after) := by
  refine ⟨⟨?_, rfl, rfl, rfl⟩, blanksAndOne 600000, document_blanksAndOne _, ?_, ?_⟩
  · have literal : Literal [0x31, 0x5b] := ⟨0x31, [0x5b], rfl, rfl, by decide +kernel⟩
    have within : Within [0x31, 0x5b] 0 0 0 1 :=
      literal.within (fun c mem => absurd mem (by simp))
        (within_nil.mpr ⟨rfl, rfl, by decide⟩)
    have work : 4096 + (32 * 2 + 256) + 64 * 1 ≤ workCeiling := by decide
    have text : 256 + (2 * 2 + 256) ≤ textCeiling := by decide
    exact predecode_ok_iff.mpr ⟨by decide, 1, within, work, text⟩
  · rw [length_blanksAndOne]
    decide
  · exact fun after => predecode_blanksAndOne (by decide)

end GraphqlOrm.Replay
