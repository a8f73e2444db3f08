import GraphqlOrm.Foundation.Bytes
import GraphqlOrm.Foundation.Records
import GraphqlOrm.Foundation.Slices
import GraphqlOrm.Schema.Compare

/-!
# Tokens of check expressions

Check expressions are compared as lists of texts. Here the tokens keep their kinds, and
the texts are what they are spelled as, so that it can be said which different tokens
look alike.
-/
namespace GraphqlOrm.Schema

open Text

inductive SqlToken where
  | text (body : String)
  | quoted (identifier : String)
  | word (written : String)
  | number (run : String)
  | symbol (sign : String)
deriving DecidableEq

def SqlToken.spelled : SqlToken → String
  | text body => taggedToken "string" (bytesAsChars body.toList)
  | quoted identifier =>
    if identifier.toList.all isPlainIdentifierChar then identifier
    else taggedToken "quoted_identifier" identifier
  | word written => lower written
  | number run => run
  | symbol sign => sign

/-! ### Reading tokens -/

def isWordStart (c : Char) : Bool := c.isAlpha || c == '_'

def isWordChar (c : Char) : Bool := c.isAlphanum || c == '_' || c == '.' || c == '$'

/-- The characters of a run of numbers; signs and exponents belong to it. -/
def isNumberChar (c : Char) : Bool :=
  c.isDigit || c == '.' || c == 'e' || c == 'E' || c == '+' || c == '-'

/-- One token from its first character on, given where a run of numbers ends. -/
def readToken (numberRun : List Char → List Char × List Char) (c : Char) (rest : List Char) :
    Option (SqlToken × List Char) :=
  if c = '\'' then
    (delimited '\'' rest).map fun (body, left) => (.text (String.ofList body), left)
  else if c = '"' ∨ c = '`' ∨ c = '[' then
    (delimited (if c = '[' then ']' else c) rest).map fun (body, left) =>
      (.quoted (String.ofList body), left)
  else if isWordStart c then
    some (.word (String.ofList (c :: (rest.span isWordChar).1)), (rest.span isWordChar).2)
  else if c.isDigit ∨ ((c = '-' ∨ c = '+') ∧ (rest.head?.any Char.isDigit)) then
    some (.number (String.ofList (c :: (numberRun rest).1)), (numberRun rest).2)
  else if c = '>' ∨ c = '<' ∨ c = '=' ∨ c = '!' then
    match rest with
    | next :: after =>
      if next = '=' ∨ (c = '<' ∧ next = '>') then some (.symbol (String.ofList [c, next]), after)
      else some (.symbol (String.ofList [c]), rest)
    | [] => some (.symbol (String.ofList [c]), [])
  else if c = '(' ∨ c = ')' ∨ c = ',' then some (.symbol (String.ofList [c]), rest)
  else none

/-- The scan of the source, with kinds. -/
def scanTokens : Nat → List Char → Option (List SqlToken)
  | 0, cs => if cs.isEmpty then some [] else none
  | _ + 1, [] => some []
  | fuel + 1, c :: rest =>
    if isAsciiWhitespace c then scanTokens fuel rest
    else do
      let (token, left) ← readToken (List.span isNumberChar) c rest
      return token :: (← scanTokens fuel left)

@[simp] theorem scanTokens_nil (fuel : Nat) : scanTokens fuel [] = some [] := by
  cases fuel <;> rfl

@[simp] theorem scanCheckTokens_nil (fuel : Nat) : scanCheckTokens fuel [] = some [] := by
  cases fuel <;> rfl

/-- The source compares the spellings of the tokens. -/
theorem scanCheckTokens_eq (fuel : Nat) (cs : List Char) :
    scanCheckTokens fuel cs = (scanTokens fuel cs).map (List.map SqlToken.spelled) := by
  induction fuel generalizing cs with
  | zero =>
    rw [scanCheckTokens, scanTokens]
    split <;> rfl
  | succ fuel ih =>
    cases cs with
    | nil => rfl
    | cons c rest =>
      rw [scanCheckTokens.eq_def, scanTokens]
      simp only
      -- The two scans branch alike; in every branch they read on with what is left.
      have onward (token : SqlToken) (left : List Char) :
          ((scanCheckTokens fuel left).bind fun tokens => some (token.spelled :: tokens)) =
            ((scanTokens fuel left).bind fun tokens => some (token :: tokens)).map
              (List.map SqlToken.spelled) := by
        rw [ih]
        cases scanTokens fuel left <;> rfl
      split
      · exact ih rest
      unfold readToken
      split
      · cases delimited '\'' rest with
        | none => rfl
        | some read =>
          have next := onward (.text (String.ofList read.1)) read.2
          rw [SqlToken.spelled, String.toList_ofList] at next
          exact next
      split
      · cases delimited (if c = '[' then ']' else c) rest with
        | none => rfl
        | some read =>
          have next := onward (.quoted (String.ofList read.1)) read.2
          rw [SqlToken.spelled, String.toList_ofList] at next
          refine Eq.trans ?_ next
          cases plain : read.1.all isPlainIdentifierChar <;>
            simp [-List.all_eq_true, plain]
      split
      next first =>
        have start : isWordStart c = true := by simpa [isWordStart] using first
        rw [if_pos start]
        exact onward (.word (String.ofList (c :: (rest.span isWordChar).1))) _
      next first =>
        have start : ¬ isWordStart c = true := by simpa [isWordStart] using first
        rw [if_neg start]
        split
        · exact onward (.number (String.ofList (c :: (rest.span isNumberChar).1))) _
        split
        · cases rest with
          | nil => simp [SqlToken.spelled]
          | cons next after =>
            simp only
            split
            · exact onward (.symbol (String.ofList [c, next])) after
            · exact onward (.symbol (String.ofList [c])) (next :: after)
        split
        · exact onward (.symbol (String.ofList [c])) rest
        · rfl

/-! ### What tokens look like -/

def symbols : List String := [">", "<", "=", "!", ">=", "<=", "==", "!=", "<>", "(", ")", ","]

def SqlToken.Proper : SqlToken → Prop
  | text _ | quoted _ => True
  | word written => ∃ first rest, written.toList = first :: rest ∧ isWordStart first = true ∧
      rest.all isWordChar = true
  | number run => ∃ first rest, run.toList = first :: rest ∧
      (first.isDigit = true ∨ first = '-' ∨ first = '+') ∧ rest.all isNumberChar = true
  | symbol sign => sign ∈ symbols

theorem all_span (p : Char → Bool) (cs : List Char) : (cs.span p).1.all p = true := by
  rw [List.span_eq_takeWhile_dropWhile]
  exact List.all_takeWhile

theorem readToken_proper {numberRun : List Char → List Char × List Char}
    (numeric : ∀ cs, (numberRun cs).1.all isNumberChar = true) {c : Char} {rest left : List Char}
    {token : SqlToken} (read : readToken numberRun c rest = some (token, left)) : token.Proper := by
  unfold readToken at read
  split at read
  · obtain ⟨found, -, same⟩ := Option.map_eq_some_iff.mp read
    obtain ⟨rfl, -⟩ := Prod.mk.inj same
    trivial
  split at read
  · obtain ⟨found, -, same⟩ := Option.map_eq_some_iff.mp read
    obtain ⟨rfl, -⟩ := Prod.mk.inj same
    trivial
  split at read
  next start =>
    obtain ⟨rfl, -⟩ := Prod.mk.inj (Option.some.inj read)
    exact ⟨c, _, String.toList_ofList, start, all_span isWordChar rest⟩
  split at read
  next start =>
    obtain ⟨rfl, -⟩ := Prod.mk.inj (Option.some.inj read)
    exact ⟨c, _, String.toList_ofList, start.imp_right And.left, numeric rest⟩
  split at read
  next sign =>
    have single : String.ofList [c] ∈ symbols := by
      rcases sign with rfl | rfl | rfl | rfl <;> decide
    split at read
    next next after =>
      split at read
      next double =>
        obtain ⟨rfl, -⟩ := Prod.mk.inj (Option.some.inj read)
        rcases double with rfl | ⟨rfl, rfl⟩
        · rcases sign with rfl | rfl | rfl | rfl <;> change String.ofList _ ∈ symbols <;> decide
        · change String.ofList _ ∈ symbols
          decide
      · obtain ⟨rfl, -⟩ := Prod.mk.inj (Option.some.inj read)
        exact single
    · obtain ⟨rfl, -⟩ := Prod.mk.inj (Option.some.inj read)
      exact single
  split at read
  next sign =>
    obtain ⟨rfl, -⟩ := Prod.mk.inj (Option.some.inj read)
    change String.ofList [c] ∈ symbols
    rcases sign with rfl | rfl | rfl <;> decide
  · cases read

theorem scanTokens_proper {fuel : Nat} {cs : List Char} {tokens : List SqlToken}
    (scanned : scanTokens fuel cs = some tokens) : ∀ token ∈ tokens, token.Proper := by
  induction fuel generalizing cs tokens with
  | zero =>
    rw [scanTokens] at scanned
    split at scanned
    · obtain rfl := Option.some.inj scanned
      exact fun _ mem => absurd mem List.not_mem_nil
    · cases scanned
  | succ fuel ih =>
    cases cs with
    | nil =>
      obtain rfl := Option.some.inj scanned
      exact fun _ mem => absurd mem List.not_mem_nil
    | cons c rest =>
      rw [scanTokens] at scanned
      split at scanned
      · exact ih scanned
      · obtain ⟨⟨token, left⟩, read, scanned⟩ := Option.bind_eq_some_iff.mp scanned
        obtain ⟨others, onward, same⟩ := Option.bind_eq_some_iff.mp scanned
        obtain rfl := Option.some.inj same
        rintro other (_ | ⟨_, mem⟩)
        · exact readToken_proper (all_span isNumberChar) read
        · exact ih onward other mem

/-! ### Which spellings collide -/

/-- The first character of a spelling, by kind: a letter, a digit or a sign, or another. -/
theorem spelled_word {written : String} (proper : (SqlToken.word written).Proper) :
    ∃ first rest, (lower written).toList = first :: rest ∧ (first.isLower = true ∨ first = '_') ∧
      ':' ∉ first :: rest := by
  obtain ⟨first, rest, whole, start, others⟩ := proper
  have lowered : (lower written).toList = first.toLower :: rest.map Char.toLower := by
    rw [lower, String.toList_ofList, whole, List.map_cons]
  have head : first.toLower.isLower = true ∨ first.toLower = '_' := by
    rw [isWordStart, Bool.or_eq_true, beq_iff_eq] at start
    rcases start with letter | rfl
    · exact .inl (isLower_toLower letter)
    · exact .inr rfl
  refine ⟨_, _, lowered, head, fun colon => ?_⟩
  rcases List.mem_cons.mp colon with same | mem
  · rw [← same] at head
    exact absurd head (by decide)
  · obtain ⟨c, inside, colon⟩ := List.mem_map.mp mem
    have kind := List.all_eq_true.mp others c inside
    -- No character of a word becomes a colon in lower case.
    cases letter : c.isAlpha with
    | true =>
      have small := isLower_toLower letter
      rw [colon] at small
      exact absurd small (by decide)
    | false =>
      rw [toLower_eq_self letter] at colon
      rw [colon] at kind
      exact absurd kind (by decide)

theorem spelled_number {run : String} (proper : (SqlToken.number run).Proper) :
    ∃ first rest, run.toList = first :: rest ∧ (first.isDigit = true ∨ first = '-' ∨ first = '+') ∧
      ':' ∉ first :: rest := by
  obtain ⟨first, rest, whole, start, others⟩ := proper
  refine ⟨first, rest, whole, start, ?_⟩
  rintro (_ | ⟨_, mem⟩)
  · exact absurd start (by decide)
  · exact absurd (List.all_eq_true.mp others ':' mem) (by decide)

theorem spelled_symbol {sign : String} (proper : (SqlToken.symbol sign).Proper) :
    ∃ first rest, sign.toList = first :: rest ∧ first ∈ ['>', '<', '=', '!', '(', ')', ','] ∧
      ':' ∉ first :: rest := by
  simp only [SqlToken.Proper, symbols, List.mem_cons, List.not_mem_nil, or_false] at proper
  rcases proper with rfl | rfl | rfl | rfl | rfl | rfl | rfl | rfl | rfl | rfl | rfl | rfl <;>
    exact ⟨_, _, rfl, by decide, by decide⟩

theorem toList_taggedToken (tag value : String) :
    (taggedToken tag value).toList =
      (tag.toList ++ [':']) ++ ((Nat.repr value.utf8ByteSize).toList ++ ':' :: value.toList) := by
  simp [taggedToken]

/-- The length in front of a tagged text ends at its colon. -/
theorem taggedToken_injective {tag value value' : String}
    (same : taggedToken tag value = taggedToken tag value') : value = value' := by
  have lists := congrArg String.toList same
  rw [toList_taggedToken, toList_taggedToken] at lists
  have digits (n : Nat) : ∀ c ∈ (Nat.repr n).toList, ¬ c = ':' := by
    rintro c mem rfl
    rw [Nat.toList_repr] at mem
    exact absurd (Nat.isDigit_of_mem_toDigits (by decide) (by decide) mem) (by decide)
  obtain ⟨-, rest⟩ := @append_cut _ (· = ':') _ _ _ _ (digits _) (digits _) (by simp) (by simp)
    (List.append_cancel_left lists)
  exact String.toList_injective (List.cons.inj rest).2

theorem colon_mem_taggedToken (tag value : String) : ':' ∈ (taggedToken tag value).toList := by
  rw [toList_taggedToken]
  simp

theorem bytesAsChars_injective {body body' : List Char}
    (same : bytesAsChars body = bytesAsChars body') : body = body' := by
  have code (b : UInt8) : (Char.ofNat b.toNat).toNat = b.toNat := by
    have small := b.toNat_lt
    have valid : b.toNat.isValidChar := .inl (by omega)
    rw [Char.ofNat, dif_pos valid]
    rfl
  have injective : Function.Injective fun b : UInt8 => Char.ofNat b.toNat := by
    intro b b' equal
    have numbers := congrArg Char.toNat equal
    simp only [code] at numbers
    exact UInt8.toNat_inj.mp numbers
  have lists := congrArg String.toList same
  simp only [bytesAsChars, String.toList_ofList, ← List.map_flatMap] at lists
  have bytes := List.map_injective_iff.mpr injective lists
  exact String.ofList_injective (Bytes.utf8_injective (by simpa [Bytes.utf8] using bytes))

/-- The same SQL token, where a quoted identifier may stand for a word that is none of the
given keywords. -/
def SqlToken.Alike (keyword : String → Prop) : SqlToken → SqlToken → Prop
  | text body, text body' => body = body'
  | quoted identifier, quoted identifier' => identifier = identifier'
  | word written, word written' => lower written = lower written'
  | number run, number run' => run = run'
  | symbol sign, symbol sign' => sign = sign'
  | quoted identifier, word written => identifier = lower written ∧ ¬ keyword (lower written)
  | word written, quoted identifier => lower written = identifier ∧ ¬ keyword (lower written)
  | _, _ => False

theorem SqlToken.Alike.symm {keyword : String → Prop} {a b : SqlToken} (alike : a.Alike keyword b) :
    b.Alike keyword a := by
  cases a <;> cases b <;> first | exact Eq.symm alike | exact ⟨alike.1.symm, alike.2⟩ | exact alike

def SqlToken.Mistaken (keyword : String → Prop) : SqlToken → SqlToken → Prop
  | quoted _, number _ => True
  | number _, quoted _ => True
  | quoted _, word written => keyword (lower written)
  | word written, quoted _ => keyword (lower written)
  | _, _ => False

/-- The spelling of a quoted identifier is tagged unless all of it is plain. -/
theorem spelled_quoted (identifier : String) :
    (SqlToken.quoted identifier).spelled = identifier ∧
        identifier.toList.all isPlainIdentifierChar = true ∨
      (SqlToken.quoted identifier).spelled = taggedToken "quoted_identifier" identifier := by
  rw [SqlToken.spelled]
  split
  next plain => exact .inl ⟨rfl, plain⟩
  next => exact .inr rfl

variable {keyword : String → Prop} {a b : SqlToken}

/-- A text without a colon is no tagged one. -/
theorem not_tagged {first : Char} {rest : List Char} {spelling tag value : String}
    (whole : spelling.toList = first :: rest) (free : ':' ∉ first :: rest) :
    spelling ≠ taggedToken tag value := by
  intro same
  apply free
  rw [← whole, same]
  exact colon_mem_taggedToken tag value

/-- The spelling of a string literal is that of no other token. -/
theorem text_alone {body : String} (proper : b.Proper)
    (same : (SqlToken.text body).spelled = b.spelled) : b = .text body := by
  cases b with
  | text body' =>
    have bodies := bytesAsChars_injective (taggedToken_injective same)
    rw [String.toList_inj.mp bodies]
  | quoted identifier =>
    rcases spelled_quoted identifier with ⟨spelled, plain⟩ | tagged
    · have colon := colon_mem_taggedToken "string" (bytesAsChars body.toList)
      rw [show taggedToken "string" (bytesAsChars body.toList) = identifier from same.trans spelled]
        at colon
      exact absurd (List.all_eq_true.mp plain ':' colon) (by decide)
    · have lists := congrArg String.toList (same.trans tagged)
      rw [SqlToken.spelled, toList_taggedToken, toList_taggedToken] at lists
      have first : some 's' = some 'q' := congrArg List.head? lists
      exact absurd first (by decide)
  | word written =>
    obtain ⟨first, rest, whole, -, free⟩ := spelled_word proper
    exact absurd same.symm (not_tagged whole free)
  | number run =>
    obtain ⟨first, rest, whole, -, free⟩ := spelled_number proper
    exact absurd same.symm (not_tagged whole free)
  | symbol sign =>
    obtain ⟨first, rest, whole, -, free⟩ := spelled_symbol proper
    exact absurd same.symm (not_tagged whole free)

/-- The spelling of a symbol is that of no other token. -/
theorem symbol_alone {sign : String} (own : (SqlToken.symbol sign).Proper) (proper : b.Proper)
    (same : (SqlToken.symbol sign).spelled = b.spelled) : b = .symbol sign := by
  obtain ⟨first, rest, whole, start, free⟩ := spelled_symbol own
  have heads {other : Char} {others : List Char} {spelling : String}
      (chars : spelling.toList = other :: others) (equal : sign = spelling) : other = first := by
    rw [← equal, whole] at chars
    exact (List.cons.inj chars).1.symm
  cases b with
  | text body => exact absurd same (not_tagged whole free)
  | quoted identifier =>
    rcases spelled_quoted identifier with ⟨spelled, plain⟩ | tagged
    · have equal : sign = identifier := same.trans spelled
      rw [← equal, whole, List.all_cons, Bool.and_eq_true] at plain
      simp only [List.mem_cons, List.not_mem_nil, or_false] at start
      rcases start with rfl | rfl | rfl | rfl | rfl | rfl | rfl <;> exact absurd plain.1 (by decide)
    · exact absurd (same.trans tagged) (not_tagged whole free)
  | word written =>
    obtain ⟨other, others, chars, letter, -⟩ := spelled_word proper
    obtain rfl := heads chars same
    simp only [List.mem_cons, List.not_mem_nil, or_false] at start
    rcases start with rfl | rfl | rfl | rfl | rfl | rfl | rfl <;> exact absurd letter (by decide)
  | number run =>
    obtain ⟨other, others, chars, digit, -⟩ := spelled_number proper
    obtain rfl := heads chars same
    simp only [List.mem_cons, List.not_mem_nil, or_false] at start
    rcases start with rfl | rfl | rfl | rfl | rfl | rfl | rfl <;> exact absurd digit (by decide)
  | symbol sign' => rw [show sign = sign' from same]

/-- Words begin with letters and numbers do not. -/
theorem word_number_apart {written run : String} (proper : (SqlToken.word written).Proper)
    (proper' : (SqlToken.number run).Proper) : lower written ≠ run := by
  intro same
  obtain ⟨first, rest, whole, letter, -⟩ := spelled_word proper
  obtain ⟨other, others, chars, digit, -⟩ := spelled_number proper'
  rw [← same, whole] at chars
  obtain ⟨rfl, -⟩ := List.cons.inj chars
  rcases digit with number | rfl | rfl
  · rcases letter with small | rfl
    · simp only [Char.isDigit, Bool.and_eq_true, decide_eq_true_eq, UInt32.le_iff_toNat_le,
        ge_iff_le] at number
      have low : 97 ≤ first.val.toNat := ((isLower_iff first).mp small).1
      have high : first.val.toNat ≤ 57 := number.2
      omega
    · exact absurd number (by decide)
  · exact absurd letter (by decide)
  · exact absurd letter (by decide)

/-- A quoted identifier that is spelled like a word or a number is plain. -/
theorem quoted_plain {identifier spelling : String} {first : Char} {rest : List Char}
    (whole : spelling.toList = first :: rest) (free : ':' ∉ first :: rest)
    (same : (SqlToken.quoted identifier).spelled = spelling) : identifier = spelling := by
  rcases spelled_quoted identifier with ⟨spelled, -⟩ | tagged
  · exact spelled.symm.trans same
  · exact absurd (same.symm.trans tagged) (not_tagged whole free)

theorem quoted_injective {identifier identifier' : String}
    (same : (SqlToken.quoted identifier).spelled = (SqlToken.quoted identifier').spelled) :
    identifier = identifier' := by
  have apart {plain tagged : String} (all : plain.toList.all isPlainIdentifierChar = true) :
      plain ≠ taggedToken "quoted_identifier" tagged := by
    rintro rfl
    exact absurd (List.all_eq_true.mp all ':' (colon_mem_taggedToken _ _)) (by decide)
  rcases spelled_quoted identifier with ⟨spelled, plain⟩ | tagged <;>
    rcases spelled_quoted identifier' with ⟨spelled', plain'⟩ | tagged'
  · rw [← spelled, same, spelled']
  · exact absurd (spelled.symm.trans (same.trans tagged')) (apart plain)
  · exact absurd (spelled'.symm.trans (same.symm.trans tagged)) (apart plain')
  · exact taggedToken_injective (tagged.symm.trans (same.trans tagged'))

/-- Tokens of one spelling are the same SQL token unless a quoted identifier stands against
a keyword or a number. -/
theorem alike_iff (keyword : String → Prop) (proper : a.Proper) (proper' : b.Proper)
    (same : a.spelled = b.spelled) : a.Alike keyword b ↔ ¬ a.Mistaken keyword b := by
  cases a with
  | text body =>
    rw [text_alone proper' same]
    simp [SqlToken.Alike, SqlToken.Mistaken]
  | symbol sign =>
    rw [symbol_alone proper proper' same]
    simp [SqlToken.Alike, SqlToken.Mistaken]
  | quoted identifier =>
    cases b with
    | text body => cases text_alone proper same.symm
    | symbol sign => cases symbol_alone proper' proper same.symm
    | quoted identifier' => simp [SqlToken.Alike, SqlToken.Mistaken, quoted_injective same]
    | word written =>
      obtain ⟨first, rest, whole, -, free⟩ := spelled_word proper'
      simp [SqlToken.Alike, SqlToken.Mistaken, quoted_plain whole free same]
    | number run => simp [SqlToken.Alike, SqlToken.Mistaken]
  | word written =>
    cases b with
    | text body => cases text_alone proper same.symm
    | symbol sign => cases symbol_alone proper' proper same.symm
    | quoted identifier =>
      obtain ⟨first, rest, whole, -, free⟩ := spelled_word proper
      simp [SqlToken.Alike, SqlToken.Mistaken, quoted_plain whole free same.symm]
    | word written' =>
      have words : lower written = lower written' := same
      simp [SqlToken.Alike, SqlToken.Mistaken, words]
    | number run => exact absurd same (word_number_apart proper proper')
  | number run =>
    cases b with
    | text body => cases text_alone proper same.symm
    | symbol sign => cases symbol_alone proper' proper same.symm
    | quoted identifier => simp [SqlToken.Alike, SqlToken.Mistaken]
    | word written => exact absurd same.symm (word_number_apart proper' proper)
    | number run' =>
      have runs : run = run' := same
      simp [SqlToken.Alike, SqlToken.Mistaken, runs]

end GraphqlOrm.Schema
