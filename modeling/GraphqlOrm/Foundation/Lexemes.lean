import GraphqlOrm.Foundation.Slices

/-!
# Words and marks

A text is read as words and single marks, with blanks between. A word goes on as long as
neither a blank nor a mark stands in it, so every text has one such reading.
-/
namespace Lexemes

inductive Lexeme where
  | mark (c : Char)
  | word (cs : List Char)
deriving DecidableEq

variable (blank mark : Char → Bool)

def isLetter (c : Char) : Bool := !blank c && !mark c

def startsWord (cs : List Char) : Bool := cs.head?.any (isLetter blank mark)

/-- A letter in front of what was read, in the word that follows it or in one of its own. -/
def glue (c : Char) (joined : Bool) : List Lexeme → List Lexeme
  | .word w :: rest => if joined then .word (c :: w) :: rest else .word [c] :: .word w :: rest
  | read => .word [c] :: read

def lexemes : List Char → List Lexeme
  | [] => []
  | c :: cs =>
    if blank c then lexemes cs
    else if mark c then .mark c :: lexemes cs
    else glue c (startsWord blank mark cs) (lexemes cs)

variable {blank mark} {c : Char} {cs front back : List Char}

/-! ### Reading from the left -/

theorem glue_false (read : List Lexeme) : glue c false read = .word [c] :: read := by
  cases read with
  | nil => rfl
  | cons next rest => cases next <;> rfl

variable {read : List Lexeme}

theorem glue_append (joined : Bool) (read' : List Lexeme) (apart : read = [] → joined = false) :
    glue c joined (read ++ read') = glue c joined read ++ read' := by
  cases read with
  | nil => rw [apart rfl, glue_false, glue_false, List.nil_append, List.cons_append, List.nil_append]
  | cons next rest =>
    cases next with
    | mark d => rfl
    | word w => cases joined <;> rfl

theorem isLetter_iff : isLetter blank mark c = true ↔ blank c = false ∧ mark c = false := by
  simp [isLetter]

theorem lexemes_blank_cons (isBlank : blank c = true) :
    lexemes blank mark (c :: cs) = lexemes blank mark cs := by
  rw [lexemes, if_pos isBlank]

theorem lexemes_mark_cons (notBlank : blank c = false) (isMark : mark c = true) :
    lexemes blank mark (c :: cs) = .mark c :: lexemes blank mark cs := by
  rw [lexemes, if_neg (by simp [notBlank]), if_pos isMark]

theorem lexemes_letter_cons (letter : isLetter blank mark c = true) :
    lexemes blank mark (c :: cs) = glue c (startsWord blank mark cs) (lexemes blank mark cs) := by
  obtain ⟨notBlank, notMark⟩ := isLetter_iff.mp letter
  rw [lexemes, if_neg (by simp [notBlank]), if_neg (by simp [notMark])]

/-- A character is a blank, a mark or a letter. -/
theorem char_cases (blank mark : Char → Bool) (c : Char) :
    blank c = true ∨ (blank c = false ∧ mark c = true) ∨ isLetter blank mark c = true := by
  cases isBlank : blank c with
  | true => exact .inl rfl
  | false =>
    cases isMark : mark c with
    | true => exact .inr (.inl ⟨rfl, rfl⟩)
    | false => exact .inr (.inr (isLetter_iff.mpr ⟨isBlank, isMark⟩))

theorem glue_ne_nil (joined : Bool) (read : List Lexeme) : glue c joined read ≠ [] := by
  cases read with
  | nil => simp [glue]
  | cons next rest => cases next <;> cases joined <;> simp [glue]

theorem lexemes_eq_nil : lexemes blank mark cs = [] ↔ ∀ c ∈ cs, blank c = true := by
  induction cs with
  | nil => simp [lexemes]
  | cons c cs ih =>
    rcases char_cases blank mark c with isBlank | ⟨notBlank, isMark⟩ | letter
    · rw [lexemes_blank_cons isBlank, ih]
      simp [isBlank]
    · rw [lexemes_mark_cons notBlank isMark]
      simp [notBlank]
    · rw [lexemes_letter_cons letter]
      simp [glue_ne_nil, (isLetter_iff.mp letter).1]

theorem startsWord_of_lexemes (unread : lexemes blank mark cs = []) :
    startsWord blank mark cs = false := by
  cases cs with
  | nil => rfl
  | cons c cs =>
    have isBlank := lexemes_eq_nil.mp unread c (.head _)
    simp [startsWord, isLetter, isBlank]

/-- Readings concatenate where no word goes on. -/
theorem lexemes_append (ends : startsWord blank mark back = false) :
    lexemes blank mark (front ++ back) = lexemes blank mark front ++ lexemes blank mark back := by
  induction front with
  | nil => rfl
  | cons c front ih =>
    rw [List.cons_append]
    rcases char_cases blank mark c with isBlank | ⟨notBlank, isMark⟩ | letter
    · rw [lexemes_blank_cons isBlank, lexemes_blank_cons isBlank, ih]
    · rw [lexemes_mark_cons notBlank isMark, lexemes_mark_cons notBlank isMark, ih, List.cons_append]
    · have next : startsWord blank mark (front ++ back) = startsWord blank mark front := by
        cases front with
        | nil => exact ends
        | cons d front => rfl
      rw [lexemes_letter_cons letter, lexemes_letter_cons letter, ih, next]
      exact glue_append _ _ startsWord_of_lexemes

theorem lexemes_append_mark (notBlank : blank c = false) (isMark : mark c = true) :
    lexemes blank mark (front ++ c :: back) =
      lexemes blank mark front ++ .mark c :: lexemes blank mark back := by
  have ends : startsWord blank mark (c :: back) = false := by
    simp [startsWord, isLetter, isMark]
  rw [lexemes_append ends, lexemes_mark_cons notBlank isMark]

/-- Blanks around a text are not read. -/
theorem lexemes_trimList (cs : List Char) :
    lexemes blank mark (Text.trimList blank cs) = lexemes blank mark cs := by
  obtain ⟨before, after, whole, isBlank, isBlank'⟩ := Text.exists_trimList (p := blank) cs
  have dropped : lexemes blank mark after = [] := lexemes_eq_nil.mpr isBlank'
  have dropped' : lexemes blank mark before = [] := lexemes_eq_nil.mpr isBlank
  conv_rhs => rw [whole, lexemes_append (startsWord_of_lexemes dropped), dropped, List.append_nil]
  generalize Text.trimList blank cs = kept
  clear whole
  induction before with
  | nil => rfl
  | cons c before ih =>
    have blanks := List.forall_mem_cons.mp isBlank
    rw [List.cons_append, lexemes_blank_cons blanks.1]
    exact ih blanks.2 (lexemes_eq_nil.mpr blanks.2)

/-! ### Words -/

theorem lexemes_word (letters : ∀ d ∈ c :: cs, isLetter blank mark d = true) :
    lexemes blank mark (c :: cs) = [.word (c :: cs)] := by
  induction cs generalizing c with
  | nil => rw [lexemes_letter_cons (letters c (.head _))]; rfl
  | cons d cs ih =>
    obtain ⟨first, rest⟩ := List.forall_mem_cons.mp letters
    have next : startsWord blank mark (d :: cs) = true := by
      simp [startsWord, rest d (.head _)]
    rw [lexemes_letter_cons first, ih rest, next]
    rfl

/-- A text that is read as one word is that word and blanks around it. -/
theorem exists_of_word {w : List Char} (read : lexemes blank mark cs = [.word w]) :
    ∃ before after : List Char, cs = before ++ w ++ after ∧ w ≠ [] ∧
      (∀ c ∈ before, blank c = true) ∧ ∀ c ∈ after, blank c = true := by
  induction cs generalizing w with
  | nil => cases read
  | cons c cs ih =>
    rcases char_cases blank mark c with isBlank | ⟨notBlank, isMark⟩ | letter
    · rw [lexemes_blank_cons isBlank] at read
      obtain ⟨before, after, rfl, content, front, back⟩ := ih read
      exact ⟨c :: before, after, rfl, content, List.forall_mem_cons.mpr ⟨isBlank, front⟩, back⟩
    · rw [lexemes_mark_cons notBlank isMark] at read
      cases read
    · rw [lexemes_letter_cons letter] at read
      cases rest : lexemes blank mark cs with
      | nil =>
        rw [rest] at read
        cases read
        exact ⟨[], cs, rfl, by simp, by simp, lexemes_eq_nil.mp rest⟩
      | cons next later =>
        rw [rest] at read
        cases next with
        | mark d => cases read
        | word v =>
          cases joined : startsWord blank mark cs with
          | false => rw [joined] at read; cases read
          | true =>
            rw [joined] at read
            cases read
            obtain ⟨before, after, rfl, content, front, back⟩ := ih rest
            -- The word that follows begins right after the letter.
            cases before with
            | nil => exact ⟨[], after, rfl, by simp, by simp, back⟩
            | cons d before =>
              have isBlank := front d (.head _)
              simp [startsWord, isLetter, isBlank] at joined

/-! ### The ends of a text -/

/-- A text that starts with a letter is read as a word first. -/
theorem head_letter (letter : isLetter blank mark c = true) :
    ∃ w rest, lexemes blank mark (c :: cs) = .word w :: rest := by
  rw [lexemes_letter_cons letter]
  cases lexemes blank mark cs with
  | nil => exact ⟨_, _, rfl⟩
  | cons next rest =>
    cases next with
    | mark d => exact ⟨_, _, rfl⟩
    | word w => cases startsWord blank mark cs <;> exact ⟨_, _, rfl⟩

/-- A text that ends with a letter is read as a word last. -/
theorem last_letter (letter : isLetter blank mark c = true) :
    ∃ read w, lexemes blank mark (cs ++ [c]) = read ++ [.word w] := by
  induction cs with
  | nil => exact ⟨[], [c], lexemes_word (by simp [letter])⟩
  | cons d cs ih =>
    obtain ⟨read, w, later⟩ := ih
    rw [List.cons_append]
    rcases char_cases blank mark d with isBlank | ⟨notBlank, isMark⟩ | letter'
    · exact ⟨read, w, by rw [lexemes_blank_cons isBlank, later]⟩
    · exact ⟨.mark d :: read, w, by rw [lexemes_mark_cons notBlank isMark, later]; rfl⟩
    · rw [lexemes_letter_cons letter', later]
      cases read with
      | nil =>
        cases startsWord blank mark (cs ++ [c]) with
        | false => exact ⟨[.word [d]], w, rfl⟩
        | true => exact ⟨[], d :: w, rfl⟩
      | cons next read =>
        rw [glue_append _ _ (by simp)]
        exact ⟨_, w, rfl⟩

/-- A mark that is read last ends the text. -/
theorem exists_of_last_mark {d : Char} (ends : ∀ c ∈ cs.getLast?, blank c = false)
    (found : lexemes blank mark cs = read ++ [.mark d]) :
    ∃ front, cs = front ++ [d] ∧ lexemes blank mark front = read := by
  rcases List.eq_nil_or_concat cs with rfl | ⟨front, c, rfl⟩
  · simp [lexemes] at found
  · rw [List.concat_eq_append] at found ends ⊢
    have notBlank := ends c (by simp)
    cases isMark : mark c with
    | true =>
      rw [lexemes_append_mark notBlank isMark, lexemes] at found
      obtain ⟨same, last⟩ := List.append_inj' found rfl
      cases last
      exact ⟨front, rfl, same⟩
    | false =>
      obtain ⟨read', w, found'⟩ := @last_letter blank mark c front (isLetter_iff.mpr ⟨notBlank, isMark⟩)
      have last := congrArg List.getLast? (found'.symm.trans found)
      rw [List.getLast?_concat, List.getLast?_concat] at last
      cases last

/-- A mark that is read first starts the text. -/
theorem exists_of_head_mark {d : Char} (starts : ∀ c ∈ cs.head?, blank c = false)
    (found : lexemes blank mark cs = .mark d :: read) :
    ∃ back, cs = d :: back ∧ lexemes blank mark back = read := by
  cases cs with
  | nil => cases found
  | cons c back =>
    have notBlank := starts c rfl
    cases isMark : mark c with
    | true =>
      rw [lexemes_mark_cons notBlank isMark] at found
      cases found
      exact ⟨back, rfl, rfl⟩
    | false =>
      obtain ⟨w, rest, found'⟩ := @head_letter blank mark c back (isLetter_iff.mpr ⟨notBlank, isMark⟩)
      rw [found'] at found
      cases found

end Lexemes
