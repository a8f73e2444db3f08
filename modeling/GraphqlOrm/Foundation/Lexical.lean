import Mathlib.Data.List.Basic

/-!
# Lexical states of SQL text

Reading SQL from left to right one character at a time: quoted text, bracketed
names, comments, words and single symbols. One word is watched for, and meeting it
is final. Which characters make up words is left open.
-/
namespace Lexical

inductive Quote where
  | single | double | back
deriving DecidableEq

def Quote.char : Quote → Char
  | single => '\''
  | double => '"'
  | back => '`'

def quote? (c : Char) : Option Quote :=
  if c = '\'' then some .single else if c = '"' then some .double
  else if c = '`' then some .back else none

theorem quote?_eq_some {c : Char} {quote : Quote} : quote? c = some quote ↔ c = quote.char := by
  constructor
  · intro found
    simp only [quote?] at found
    split at found
    · cases found; assumption
    split at found
    · cases found; assumption
    split at found
    · cases found; assumption
    · cases found
  · rintro rfl
    cases quote <;> rfl

/-- Where the reader stands. A word is kept with its last character first; `dash`
and `slash` may open a comment, and `closing` may turn out to be a doubled
delimiter. -/
inductive State where
  | outside
  | word (reversed : List Char)
  | dash
  | slash
  | quoted (quote : Quote)
  | closing (quote : Quote)
  | bracketed
  | lineComment
  | blockComment
  | blockStar
  | met
deriving DecidableEq

/-- The text read so far ends inside a token with an inside, or with its last
character. -/
def State.Open : State → Prop
  | quoted _ | closing _ | bracketed | lineComment | blockComment | blockStar => True
  | outside | word _ | dash | slash | met => False

def State.Running : State → Prop
  | quoted _ | bracketed | lineComment | blockComment => True
  | outside | word _ | dash | slash | closing _ | blockStar | met => False

variable (wordChar : Char → Bool) (keyword : List Char)

def start (c : Char) : State :=
  match quote? c with
  | some quote => .quoted quote
  | none =>
    if c = '[' then .bracketed
    else if c = '-' then .dash
    else if c = '/' then .slash
    else if wordChar c then .word [c]
    else .outside

def step : State → Char → State
  | .outside, c => start wordChar c
  | .word reversed, c =>
    if wordChar c then .word (c :: reversed)
    else if reversed.reverse.map Char.toLower = keyword then .met
    else start wordChar c
  | .dash, c => if c = '-' then .lineComment else start wordChar c
  | .slash, c => if c = '*' then .blockComment else start wordChar c
  | .quoted quote, c => if c = quote.char then .closing quote else .quoted quote
  | .closing quote, c => if c = quote.char then .quoted quote else start wordChar c
  | .bracketed, c => if c = ']' then .outside else .bracketed
  | .lineComment, c => if c = '\n' then .outside else .lineComment
  | .blockComment, c => if c = '*' then .blockStar else .blockComment
  | .blockStar, c => if c = '/' then .outside else if c = '*' then .blockStar else .blockComment
  | .met, _ => .met

def run (state : State) (text : List Char) : State := text.foldl (step wordChar keyword) state

/-- Every token of the text is closed, and the watched word is not among them. -/
def Closed (text : List Char) : Prop := run wordChar keyword .outside (text ++ [' ']) = .outside

instance (text : List Char) : Decidable (Closed wordChar keyword text) :=
  inferInstanceAs (Decidable (_ = _))

/-! ### Reading on -/

variable {wordChar keyword}

@[simp] theorem run_nil (state : State) : run wordChar keyword state [] = state := rfl

@[simp] theorem run_cons (state : State) (c : Char) (text : List Char) :
    run wordChar keyword state (c :: text) =
      run wordChar keyword (step wordChar keyword state c) text := rfl

@[simp] theorem step_outside (c : Char) :
    step wordChar keyword .outside c = start wordChar c := rfl

theorem run_append (state : State) (text more : List Char) :
    run wordChar keyword state (text ++ more) =
      run wordChar keyword (run wordChar keyword state text) more :=
  List.foldl_append

/-- The watched word stays met. -/
@[simp] theorem run_met (text : List Char) : run wordChar keyword .met text = .met := by
  induction text with
  | nil => rfl
  | cons c rest ih => exact ih

theorem run_word {word : List Char} (letters : ∀ c ∈ word, wordChar c = true)
    (reversed : List Char) :
    run wordChar keyword (.word reversed) word = .word (word.reverse ++ reversed) := by
  induction word generalizing reversed with
  | nil => rfl
  | cons c rest ih =>
    rw [run_cons, step, if_pos (letters c (.head _)),
      ih fun d mem => letters d (.tail _ mem), List.reverse_cons,
      List.append_assoc, List.singleton_append]

/-- Text without the delimiter stays inside the quotes. -/
theorem run_quoted {quote : Quote} {text : List Char} (absent : quote.char ∉ text) :
    run wordChar keyword (.quoted quote) text = .quoted quote := by
  induction text with
  | nil => rfl
  | cons c rest ih =>
    rw [List.mem_cons, not_or] at absent
    rw [run_cons, step, if_neg (Ne.symm absent.1)]
    exact ih absent.2

/-! ### Neutral characters -/

/-- A character that opens nothing and belongs to no word, like a space. -/
structure Neutral (wordChar : Char → Bool) (c : Char) : Prop where
  opensNothing : start wordChar c = .outside
  noWord : wordChar c = false
  noStar : c ≠ '*'
  noBracket : c ≠ ']'
  noNewline : c ≠ '\n'

namespace Neutral

variable {c d : Char}

section

variable (neutral : Neutral wordChar c)
include neutral

theorem no_quote (quote : Quote) : c ≠ quote.char := by
  intro same
  have opens := neutral.opensNothing
  rw [start, quote?_eq_some.mpr same] at opens
  cases opens

theorem no_dash : c ≠ '-' := by
  rintro rfl
  cases neutral.opensNothing

theorem no_slash : c ≠ '/' := by
  rintro rfl
  cases neutral.opensNothing

/-- All neutral characters are read alike. -/
theorem step_eq (other : Neutral wordChar d) (state : State) :
    step wordChar keyword state c = step wordChar keyword state d := by
  cases state with
  | quoted quote | closing quote =>
    simp [step, neutral.no_quote, other.no_quote, neutral.opensNothing, other.opensNothing]
  | outside | word _ | dash | slash | bracketed | lineComment | blockComment | blockStar | met =>
    simp [step, neutral.no_dash, other.no_dash, neutral.no_slash, other.no_slash,
      neutral.opensNothing, other.opensNothing, neutral.noWord, other.noWord, neutral.noStar,
      other.noStar, neutral.noBracket, other.noBracket, neutral.noNewline, other.noNewline]

/-- After a neutral character every token has ended or runs on. -/
theorem step_settled (state : State) :
    step wordChar keyword state c = .outside ∨ step wordChar keyword state c = .met ∨
      (step wordChar keyword state c).Running := by
  cases state with
  | quoted quote | closing quote =>
    simp [step, neutral.no_quote, neutral.opensNothing, State.Running]
  | word reversed =>
    simp only [step, neutral.noWord, neutral.opensNothing, Bool.false_eq_true, ↓reduceIte]
    split
    · exact .inr (.inl rfl)
    · exact .inl rfl
  | outside | dash | slash | bracketed | lineComment | blockComment | blockStar | met =>
    simp [step, neutral.no_dash, neutral.no_slash, neutral.opensNothing, neutral.noStar,
      neutral.noBracket, neutral.noNewline, State.Running]

/-- A second neutral character changes nothing. -/
theorem step_step (other : Neutral wordChar d) (state : State) :
    step wordChar keyword (step wordChar keyword state c) d = step wordChar keyword state c := by
  have settled : step wordChar keyword state c = .outside ∨ _ := neutral.step_settled state
  rcases settled with outside | met | running
  · rw [outside]
    exact other.opensNothing
  · rw [met]
    rfl
  · generalize step wordChar keyword state c = reached at running
    cases reached with
    | quoted quote => simp [step, other.no_quote]
    | bracketed | lineComment | blockComment =>
      simp [step, other.noBracket, other.noNewline, other.noStar]
    | outside | word | dash | slash | closing | blockStar | met => exact running.elim

end

end Neutral

end Lexical
