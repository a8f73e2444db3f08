import GraphqlOrm.Foundation.Lexical
import GraphqlOrm.Introspect.SqliteChecks

/-!
# What the scan sees

The scan decides at the first character of a token, with the rest of the text in
view. The lexical states decide at its end, one character at a time. Both agree: text
that is read outside every token is passed over, an open token swallows the rest, and
the word CHECK is met exactly where the scan takes a constraint.
-/
namespace GraphqlOrm.Introspect

open Schema Lexical

def checkWord : List Char := "check".toList

def read (state : State) (text : List Char) : State := run identifierByte checkWord state text

@[simp] theorem read_nil (state : State) : read state [] = state := rfl

@[simp] theorem read_cons (state : State) (c : Char) (text : List Char) :
    read state (c :: text) = read (step identifierByte checkWord state c) text := rfl

theorem read_append (state : State) (text more : List Char) :
    read state (text ++ more) = read (read state text) more :=
  run_append state text more

/-! ### Skipping -/

attribute [local simp] scan

theorem scan_skip (token rest before : List Char) (found : List CheckConstraintModel) :
    scan (token ++ rest) before token.length found = scan rest (token.reverse ++ before) 0 found := by
  induction token generalizing before with
  | nil => rfl
  | cons c more ih =>
    rw [List.cons_append, List.length_cons, scan, ih]
    simp

theorem scan_all (text before : List Char) (found : List CheckConstraintModel) :
    scan text before text.length found = .ok found := by
  have skipped := scan_skip text [] before found
  rwa [List.append_nil, scan] at skipped

/-- Constraints that were found stay found. -/
theorem scan_grows {text before : List Char} {skip : Nat} {found result : List CheckConstraintModel}
    (done : scan text before skip found = .ok result) : found.length ≤ result.length := by
  induction text generalizing before skip found with
  | nil =>
    rw [scan, Except.ok.injEq] at done
    exact le_of_eq (congrArg List.length done)
  | cons c rest ih =>
    cases skip with
    | succ skip => exact ih done
    | zero =>
      rw [scan] at done
      split at done
      · exact ih done
      split at done
      · exact ih done
      split at done
      · exact ih done
      split at done
      · exact ih done
      split at done
      · split at done
        · cases done
        next constraint length _ =>
          have grown := ih done
          rw [List.length_append] at grown
          omega
      · exact ih done

/-! ### Characters -/

theorem isQuote_iff {c : Char} : isQuote c = true ↔ ∃ quote : Quote, c = quote.char := by
  constructor
  · intro found
    simp only [isQuote, Bool.or_eq_true, beq_iff_eq] at found
    rcases found with (rfl | rfl) | rfl
    · exact ⟨.single, rfl⟩
    · exact ⟨.double, rfl⟩
    · exact ⟨.back, rfl⟩
  · rintro ⟨quote, rfl⟩
    cases quote <;> rfl

theorem identifierByte_of_toLower {c : Char} (letter : c.toLower ∈ "check".toList) :
    identifierByte c = true := by
  by_cases upper : c.val ≥ 'A'.val ∧ c.val ≤ 'Z'.val
  · have capital : c.isUpper = true := decide_eq_true upper
    have alpha : c.isAlpha = true := Bool.or_eq_true_iff.mpr (.inl capital)
    simp [identifierByte, Char.isAlphanum, alpha]
  · have same : c.toLower = c := dif_neg upper
    rw [same] at letter
    have all : "check".toList.all identifierByte = true := by decide
    exact List.all_eq_true.mp all c letter

theorem identifierByte_plain {c : Char} (letter : identifierByte c = true) :
    isQuote c = false ∧ c ≠ '[' ∧ c ≠ '-' ∧ c ≠ '/' := by
  constructor
  · rw [Bool.eq_false_iff]
    intro found
    obtain ⟨quote, rfl⟩ := isQuote_iff.mp found
    cases quote <;> cases letter
  · refine ⟨?_, ?_, ?_⟩ <;> rintro rfl <;> cases letter

theorem start_word {c : Char} (letter : identifierByte c = true) :
    start identifierByte c = .word [c] := by
  obtain ⟨noQuote, noBracket, noDash, noSlash⟩ := identifierByte_plain letter
  have none : quote? c = none := by
    rw [Option.eq_none_iff_forall_ne_some]
    intro quote found
    rw [isQuote_iff.mpr ⟨quote, quote?_eq_some.mp found⟩] at noQuote
    cases noQuote
  rw [start, none]
  simp [noBracket, noDash, noSlash, letter]

/-! ### The keyword -/

/-- The keyword is a word of its own. -/
theorem keywordAt_iff {before text : List Char} :
    keywordAt before text = true ↔
      (text.takeWhile identifierByte).map Char.toLower = "check".toList ∧
        ∀ c ∈ before.head?, identifierByte c = false := by
  have clear {cs : List Char} :
      (!cs.head?.any identifierByte) = true ↔ ∀ c ∈ cs.head?, identifierByte c = false := by
    cases cs <;> simp
  simp only [keywordAt, Bool.and_eq_true, beq_iff_eq, clear]
  constructor
  · rintro ⟨⟨letters, free⟩, ends⟩
    have word : ∀ c ∈ text.take 5, identifierByte c = true := fun c mem =>
      identifierByte_of_toLower (letters ▸ List.mem_map_of_mem mem)
    have run : text.takeWhile identifierByte = text.take 5 := by
      conv_lhs => rw [← List.take_append_drop 5 text]
      rw [List.takeWhile_append_of_pos word]
      cases behind : text.drop 5 with
      | nil => simp
      | cons c rest =>
        rw [behind] at ends
        simp [ends c rfl]
    exact ⟨run ▸ letters, free⟩
  · rintro ⟨letters, free⟩
    have length : (text.takeWhile identifierByte).length = 5 := by
      simpa using congrArg List.length letters
    have whole := List.takeWhile_append_dropWhile (p := identifierByte) (l := text)
    have first : text.take 5 = text.takeWhile identifierByte := by
      conv_lhs => rw [← whole, ← length, List.take_left]
    have behind : text.drop 5 = text.dropWhile identifierByte := by
      conv_lhs => rw [← whole, ← length, List.drop_left]
    refine ⟨⟨first ▸ letters, free⟩, ?_⟩
    rw [behind]
    intro c mem
    have stop := List.head?_dropWhile_not identifierByte text
    rw [Option.mem_def.mp mem] at stop
    simpa using stop

/-! ### Tokens -/

def Boundary (before text : List Char) : Prop :=
  (∀ c ∈ before.head?, identifierByte c = false) ∨ ∀ c ∈ text.head?, identifierByte c = false

theorem boundary_start (text : List Char) : Boundary [] text := .inl (by simp)

/-- The length measures the token whose inside the state is: up to where the reader
is outside again, or to the end of the text. -/
inductive Spans (length : List Char → Nat) (inside : State) : List Char → Prop where
  | closed (token rest : List Char) (left : read inside (token ++ rest) = read .outside rest)
      (boundary : ∀ before, Boundary (token.reverse ++ before) rest)
      (measured : ∀ tail, length (token ++ rest ++ tail) = token.length) :
      Spans length inside (token ++ rest)
  | running {text : List Char} (unfinished : (read inside text).Open)
      (measured : length text = text.length) : Spans length inside text

variable {length : List Char → Nat}

/-- Characters that do not leave the token. -/
theorem Spans.extend {inside : State} {text : List Char} (spans : Spans length inside text)
    (first : List Char) (stays : read inside (first ++ text) = read inside text)
    (longer : ∀ tail, length (first ++ text ++ tail) = length (text ++ tail) + first.length) :
    Spans length inside (first ++ text) := by
  cases spans with
  | closed token rest left boundary measured =>
    rw [← List.append_assoc] at stays longer ⊢
    apply Spans.closed
    · rw [stays, left]
    · intro before
      have same := boundary (first.reverse ++ before)
      rwa [List.reverse_append, List.append_assoc]
    · intro tail
      rw [longer tail, measured tail, List.length_append, Nat.add_comm]
  | running unfinished measured =>
    apply Spans.running
    · rwa [stays]
    · have whole := longer []
      rw [List.append_nil, List.append_nil, measured] at whole
      rw [whole, List.length_append, Nat.add_comm]

theorem quotedLength_spans (quote : Quote) (text : List Char) :
    Spans (quotedLength quote.char) (.quoted quote) text := by
  induction text using quotedLength.induct quote.char with
  | case1 => exact .running trivial rfl
  | case2 c =>
    apply Spans.running
    · simp only [read_cons, read_nil, step]
      split <;> trivial
    · rfl
  | case3 rest ih =>
    apply ih.extend [quote.char, quote.char]
    · simp [step]
    · intro tail
      simp [quotedLength]
  | case4 next rest other =>
    -- A single delimiter closes, and the character behind it starts afresh.
    apply Spans.closed [quote.char] (next :: rest)
    · simp [step, other]
    · intro before
      left
      cases quote <;> simp [Quote.char, identifierByte]
    · intro tail
      simp [quotedLength, other]
  | case5 c next rest other ih =>
    apply ih.extend [c]
    · simp [step, other]
    · intro tail
      simp [quotedLength, other]

theorem bracketLength_spans (text : List Char) : Spans bracketLength .bracketed text := by
  induction text with
  | nil => exact .running trivial rfl
  | cons c rest ih =>
    rcases eq_or_ne c ']' with rfl | other
    · apply Spans.closed [']'] rest
      · simp [step]
      · exact fun before => .inl (by simp [identifierByte])
      · intro tail
        simp [bracketLength]
    · apply ih.extend [c]
      · simp [step, other]
      · intro tail
        simp [bracketLength, other]

theorem lineLength_spans (text : List Char) : Spans lineLength .lineComment text := by
  induction text with
  | nil => exact .running trivial rfl
  | cons c rest ih =>
    rcases eq_or_ne c '\n' with rfl | other
    · -- The end of the line belongs to the text behind the comment.
      apply Spans.closed [] ('\n' :: rest)
      · simp [step]
        rfl
      · exact fun before => .inr (by simp [identifierByte])
      · intro tail
        simp [lineLength]
    · apply ih.extend [c]
      · simp [step, other]
      · intro tail
        simp [lineLength, other]

theorem commentLength_spans (text : List Char) : Spans commentLength .blockComment text := by
  induction text using commentLength.induct with
  | case1 => exact .running trivial rfl
  | case2 c =>
    apply Spans.running
    · simp only [read_cons, read_nil, step]
      split <;> trivial
    · rfl
  | case3 c next rest ends =>
    obtain ⟨rfl, rfl⟩ := ends
    apply Spans.closed ['*', '/'] rest
    · simp [step]
    · exact fun before => .inl (by simp [identifierByte])
    · intro tail
      simp [commentLength]
  | case4 c next rest continues ih =>
    apply ih.extend [c]
    · -- A star that no slash follows is like any other character.
      rcases eq_or_ne c '*' with rfl | other
      · have noSlash : next ≠ '/' := fun same => continues ⟨rfl, same⟩
        simp [step, noSlash]
      · simp [step, other]
    · intro tail
      simp only [List.cons_append, List.nil_append, commentLength, if_neg continues]
      rfl

/-! ### Single steps of the scan -/

section Steps

variable {c : Char} {rest before : List Char} {found : List CheckConstraintModel}

theorem scan_quote (quote : Quote) :
    scan (quote.char :: rest) before 0 found =
      scan rest (quote.char :: before) (quotedLength quote.char rest) found := by
  rw [scan, if_pos (isQuote_iff.mpr ⟨quote, rfl⟩)]

theorem scan_bracket :
    scan ('[' :: rest) before 0 found = scan rest ('[' :: before) (bracketLength rest) found := by
  rw [scan]
  rfl

theorem scan_line :
    scan ('-' :: '-' :: rest) before 0 found =
      scan rest ('-' :: '-' :: before) (lineLength rest) found := by
  rw [scan]
  rfl

theorem scan_comment :
    scan ('/' :: '*' :: rest) before 0 found =
      scan rest ('*' :: '/' :: before) (commentLength rest) found := by
  rw [scan]
  rfl

/-- A character at which no token of its own starts. -/
theorem scan_plain (noQuote : isQuote c = false) (noBracket : c ≠ '[')
    (noLine : ¬(c = '-' ∧ rest.head? = some '-')) (noComment : ¬(c = '/' ∧ rest.head? = some '*'))
    (noKeyword : keywordAt before (c :: rest) = false) :
    scan (c :: rest) before 0 found = scan rest (c :: before) 0 found := by
  rw [scan, if_neg (by simp [noQuote]), if_neg noBracket, if_neg noLine, if_neg noComment,
    if_neg (by simp [noKeyword])]

/-- A keyword starts with a letter. -/
theorem keywordAt_symbol (symbol : identifierByte c = false) :
    keywordAt before (c :: rest) = false := by
  rw [Bool.eq_false_iff]
  intro found
  have letters := (keywordAt_iff.mp found).1
  rw [List.takeWhile_cons, symbol] at letters
  cases letters

/-- Inside a word no keyword starts. -/
theorem scan_word {word : List Char} (letters : ∀ c ∈ word, identifierByte c = true)
    (inside : ∃ c ∈ before.head?, identifierByte c = true) :
    scan (word ++ rest) before 0 found = scan rest (word.reverse ++ before) 0 found := by
  induction word generalizing before with
  | nil => rfl
  | cons c more ih =>
    have letter := letters c (.head _)
    obtain ⟨noQuote, noBracket, noDash, noSlash⟩ := identifierByte_plain letter
    have noKeyword : keywordAt before (c :: (more ++ rest)) = false := by
      rw [Bool.eq_false_iff]
      intro found
      obtain ⟨d, first, here⟩ := inside
      rw [(keywordAt_iff.mp found).2 d first] at here
      cases here
    rw [List.cons_append, scan_plain noQuote noBracket (fun dash => noDash dash.1)
      (fun slash => noSlash slash.1) noKeyword,
      ih (fun d mem => letters d (.tail _ mem)) ⟨c, rfl, letter⟩]
    simp

end Steps

/-! ### Reading and scanning -/

/-- What the scan of a text does, by the lexical state in which the text ends. -/
def Reads (before : List Char) (found : List CheckConstraintModel) (text : List Char) :
    State → Prop
  | .outside =>
    ∀ tail, scan (text ++ tail) before 0 found = scan tail (text.reverse ++ before) 0 found
  | .met => ∀ result, scan text before 0 found = .ok result → found.length < result.length
  | .word _ | .dash | .slash => True
  | .quoted _ | .closing _ | .bracketed | .lineComment | .blockComment | .blockStar =>
    scan text before 0 found = .ok found

section Reads

variable {before : List Char} {found : List CheckConstraintModel}

theorem Reads.of_open {text : List Char} {state : State} (unfinished : state.Open)
    (swallowed : scan text before 0 found = .ok found) : Reads before found text state := by
  cases state with
  | quoted | closing | bracketed | lineComment | blockComment | blockStar => exact swallowed
  | outside | word | dash | slash | met => exact unfinished.elim

theorem Reads.swallowed {text : List Char} {state : State} (reads : Reads before found text state)
    (unfinished : state.Open) : scan text before 0 found = .ok found := by
  cases state with
  | quoted | closing | bracketed | lineComment | blockComment | blockStar => exact reads
  | outside | word | dash | slash | met => exact unfinished.elim

/-- A token that is passed over leaves the rest to decide. -/
theorem Reads.pass (token : List Char) {rest : List Char} {state : State}
    (reads : Reads (token.reverse ++ before) found rest state)
    (passed : ∀ tail, scan (token ++ rest ++ tail) before 0 found =
      scan (rest ++ tail) (token.reverse ++ before) 0 found) :
    Reads before found (token ++ rest) state := by
  have whole := passed []
  rw [List.append_nil, List.append_nil] at whole
  cases state with
  | outside =>
    intro tail
    rw [passed tail, reads tail, List.reverse_append, List.append_assoc]
  | met =>
    intro result done
    exact reads result (whole ▸ done)
  | word | dash | slash => trivial
  | quoted | closing | bracketed | lineComment | blockComment | blockStar => exact whole.trans reads

def Later (before : List Char) (found : List CheckConstraintModel) (text : List Char) : Prop :=
  ∀ token rest, text = token ++ rest → token ≠ [] → Boundary (token.reverse ++ before) rest →
    Reads (token.reverse ++ before) found rest (read .outside rest)

/-- A token with an inside: it is closed and passed over, or it swallows the text. -/
theorem Reads.token (opening : List Char) {text : List Char} {inside : State}
    (later : Later before found (opening ++ text)) (nonempty : opening ≠ [])
    (spans : Spans length inside text) (opens : read .outside (opening ++ text) = read inside text)
    (jumps : ∀ rest, scan (opening ++ rest) before 0 found =
      scan rest (opening.reverse ++ before) (length rest) found) :
    Reads before found (opening ++ text) (read .outside (opening ++ text)) := by
  cases spans with
  | closed token rest left boundary measured =>
    rw [opens, left, ← List.append_assoc]
    have within := boundary (opening.reverse ++ before)
    rw [← List.append_assoc, ← List.reverse_append] at within
    have reads := later (opening ++ token) rest (by rw [List.append_assoc]) (by simp [nonempty]) within
    apply Reads.pass (opening ++ token) reads
    intro tail
    rw [List.append_assoc, List.append_assoc, jumps, ← List.append_assoc token, measured,
      List.append_assoc token, scan_skip, List.reverse_append, List.append_assoc]
  | running unfinished measured =>
    rw [opens]
    apply Reads.of_open unfinished
    rw [jumps, measured, scan_all]

/-- A symbol that opens a comment together with a second one. -/
theorem Reads.comment {c : Char} (second : Char) {rest : List Char} {pending inside : State}
    (later : Later before found (c :: rest)) (symbol : identifierByte c = false)
    (spans : ∀ text, Spans length inside text) (opens : start identifierByte c = pending)
    (idle : ∀ text, Reads before found text pending)
    (decides : ∀ d, step identifierByte checkWord pending d =
      if d = second then inside else start identifierByte d)
    (jumps : ∀ rest, scan (c :: second :: rest) before 0 found =
      scan rest (second :: c :: before) (length rest) found)
    (plain : ∀ rest, rest.head? ≠ some second →
      scan (c :: rest) before 0 found = scan rest (c :: before) 0 found) :
    Reads before found (c :: rest) (read .outside (c :: rest)) := by
  cases rest with
  | nil =>
    rw [read_cons, step, opens]
    exact idle [c]
  | cons d more =>
    rcases eq_or_ne d second with rfl | other
    · apply Reads.token [c, d] later (by simp) (spans more)
      · simp [opens, decides]
      · exact jumps
    · have outside : read .outside (c :: d :: more) = read .outside (d :: more) := by
        simp [opens, decides, other]
      rw [outside]
      have reads := later [c] (d :: more) rfl (by simp) (.inl (by simp [symbol]))
      apply Reads.pass [c] reads
      intro tail
      exact plain (d :: more ++ tail) (by simp [other])

/-- A whole word, which is passed over unless it is the keyword. -/
theorem Reads.word {c : Char} {rest : List Char} (later : Later before found (c :: rest))
    (boundary : Boundary before (c :: rest)) (letter : identifierByte c = true) :
    Reads before found (c :: rest) (read .outside (c :: rest)) := by
  have free : ∀ d ∈ before.head?, identifierByte d = false := by
    rcases boundary with free | symbol
    · exact free
    · rw [symbol c rfl] at letter
      cases letter
  have split : c :: rest = (c :: rest.takeWhile identifierByte) ++ rest.dropWhile identifierByte := by
    rw [List.cons_append, List.takeWhile_append_dropWhile]
  have letters : ∀ d ∈ rest.takeWhile identifierByte, identifierByte d = true :=
    List.all_eq_true.mp (List.all_takeWhile)
  have stops := List.head?_dropWhile_not identifierByte rest
  generalize rest.takeWhile identifierByte = word at split letters
  generalize rest.dropWhile identifierByte = behind at split stops
  rw [split] at later ⊢
  have inWord : read .outside (c :: word) = .word (c :: word).reverse := by
    rw [read_cons, step, start_word letter, read, run_word letters, List.reverse_cons]
  rw [read_append, inWord]
  cases behind with
  | nil => trivial
  | cons d more =>
    have symbol : identifierByte d = false := by simpa using stops
    have whole (tail : List Char) :
        ((c :: word) ++ (d :: more ++ tail)).takeWhile identifierByte = c :: word := by
      rw [List.takeWhile_append_of_pos (List.forall_mem_cons.mpr ⟨letter, letters⟩)]
      simp [symbol]
    obtain ⟨noQuote, noBracket, noDash, noSlash⟩ := identifierByte_plain letter
    rw [read_cons, step, if_neg (by simp [symbol]), List.reverse_reverse]
    split
    next keyword =>
      have alone := whole []
      rw [List.append_nil, List.cons_append] at alone
      have found' : keywordAt before (c :: (word ++ d :: more)) = true :=
        keywordAt_iff.mpr ⟨alone ▸ keyword, free⟩
      rw [read, run_met]
      intro result done
      rw [List.cons_append, scan, if_neg (by simp [noQuote]), if_neg noBracket,
        if_neg (fun dash => noDash dash.1), if_neg (fun slash => noSlash slash.1),
        if_pos found'] at done
      split at done
      · cases done
      next constraint length _ =>
        have grown := scan_grows done
        rw [List.length_append] at grown
        exact grown
    next other =>
      have reads := later (c :: word) (d :: more) rfl (by simp) (.inr (by simp [symbol]))
      have outside : read (start identifierByte d) more = read .outside (d :: more) := rfl
      rw [outside]
      apply Reads.pass (c :: word) reads
      intro tail
      have noKeyword : keywordAt before (c :: (word ++ (d :: more ++ tail))) = false := by
        rw [Bool.eq_false_iff]
        intro found'
        have letters' := (keywordAt_iff.mp found').1
        rw [← List.cons_append, whole] at letters'
        exact other letters'
      rw [List.append_assoc, List.cons_append, scan_plain noQuote noBracket
        (fun dash => noDash dash.1) (fun slash => noSlash slash.1) noKeyword,
        scan_word letters ⟨c, rfl, letter⟩]
      simp

end Reads

/-- The scan sees what the lexical states tell, wherever no word is cut. -/
theorem scan_reads (text before : List Char) (found : List CheckConstraintModel)
    (boundary : Boundary before text) : Reads before found text (read .outside text) := by
  induction size : text.length using Nat.strong_induction_on generalizing text before found with
  | _ n ih =>
    subst size
    have later : Later before found text := by
      intro token rest whole nonempty within
      apply ih rest.length _ _ _ _ within rfl
      have positive := List.length_pos_iff.mpr nonempty
      rw [whole, List.length_append]
      omega
    cases text with
    | nil => exact fun tail => rfl
    | cons c rest =>
      cases opening : quote? c with
      | some quote =>
        obtain rfl := quote?_eq_some.mp opening
        apply Reads.token [quote.char] later (by simp) (quotedLength_spans quote rest)
        · simp [step, start, opening]
        · exact fun tail => scan_quote quote
      | none =>
        have noQuote : isQuote c = false := by
          rw [Bool.eq_false_iff]
          intro found
          obtain ⟨quote, rfl⟩ := isQuote_iff.mp found
          rw [quote?_eq_some.mpr rfl] at opening
          cases opening
        rcases eq_or_ne c '[' with rfl | noBracket
        · apply Reads.token ['['] later (by simp) (bracketLength_spans rest)
          · rfl
          · exact fun tail => scan_bracket
        rcases eq_or_ne c '-' with rfl | noDash
        · apply Reads.comment '-' later rfl lineLength_spans rfl (fun _ => trivial)
            (fun d => rfl) (fun _ => scan_line)
          intro tail other
          exact scan_plain noQuote noBracket (fun dash => other dash.2) (by simp)
            (keywordAt_symbol rfl)
        rcases eq_or_ne c '/' with rfl | noSlash
        · apply Reads.comment '*' later rfl commentLength_spans rfl (fun _ => trivial)
            (fun d => rfl) (fun _ => scan_comment)
          intro tail other
          exact scan_plain noQuote noBracket (by simp) (fun slash => other slash.2)
            (keywordAt_symbol rfl)
        rcases Bool.eq_false_or_eq_true (identifierByte c) with letter | symbol
        · exact Reads.word later boundary letter
        · have outside : read .outside (c :: rest) = read .outside rest := by
            simp [step, start, opening, noBracket, noDash, noSlash, symbol]
          rw [outside]
          have reads := later [c] rest rfl (by simp) (.inl (by simp [symbol]))
          apply Reads.pass [c] reads
          intro tail
          exact scan_plain noQuote noBracket (fun dash => noDash dash.1)
            (fun slash => noSlash slash.1) (keywordAt_symbol symbol)

section Results

variable {text before : List Char} {found : List CheckConstraintModel}

/-- Closed text is passed over. -/
theorem scan_outside (boundary : Boundary before text) (ends : read .outside text = .outside)
    (tail : List Char) :
    scan (text ++ tail) before 0 found = scan tail (text.reverse ++ before) 0 found := by
  have reads := scan_reads text before found boundary
  rw [ends] at reads
  exact reads tail

/-- The keyword yields a constraint or an error. -/
theorem scan_met {result : List CheckConstraintModel} (boundary : Boundary before text)
    (ends : read .outside text = .met) (done : scan text before 0 found = .ok result) :
    found.length < result.length := by
  have reads := scan_reads text before found boundary
  rw [ends] at reads
  exact reads result done

/-- An open token swallows the rest. -/
theorem scan_open (boundary : Boundary before text) (ends : (read .outside text).Open) :
    scan text before 0 found = .ok found :=
  (scan_reads text before found boundary).swallowed ends

end Results

end GraphqlOrm.Introspect
