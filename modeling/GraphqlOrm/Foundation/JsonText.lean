import GraphqlOrm.Foundation.Json

/-!
# JSON documents as they are written

A writer puts each text between quotes, with every quote inside it behind a
backslash. Where all texts can be decoded, reading gives the decoded document. Where
one cannot, the lexer takes the inside of the following texts for their outside, up to
the end, so nothing is read at all: no other document can come out.
-/
namespace Json

open Text

/-! ### Writing -/

def quoted (content : List Char) : List Char := '"' :: (content ++ ['"'])

def Token.chars : Token (List Char) → List Char
  | .openObject => ['\x7b']
  | .closeObject => ['\x7d']
  | .openArray => ['[']
  | .closeArray => [']']
  | .comma => [',']
  | .colon => [':']
  | .word w => w.toList
  | .text content => quoted content

/-- The document without spaces; each text holds what stands between its quotes. -/
def Value.print (v : Value (List Char)) : String := String.ofList (v.tokens.flatMap Token.chars)

theorem print_array (vs : List (Value (List Char))) :
    (Value.array vs).print = "[" ++ join "," (vs.map Value.print) ++ "]" := by
  have joined := toList_join ',' (vs.map Value.print)
  rw [← String.toList_inj]
  simp_all [Value.print, Value.tokens, elementTokens_eq, flatMap_intercalate, Token.chars,
    Function.comp_def]

theorem print_object (ms : List (List Char × Value (List Char))) :
    (Value.object ms).print =
      "\x7b" ++ join "," (ms.map fun (key, v) => String.ofList (quoted key) ++ ":" ++ v.print) ++
        "\x7d" := by
  have joined := toList_join ',' (ms.map fun (key, v) => String.ofList (quoted key) ++ ":" ++ v.print)
  rw [← String.toList_inj]
  simp_all [Value.print, Value.tokens, memberTokens_eq, flatMap_intercalate, Token.chars,
    Function.comp_def]

/-! ### Runs of the lexer -/

theorem run_append (s : State) (cs ds : List Char) :
    run s (cs ++ ds) = (run s cs).bind fun t => run t ds := by
  simp only [run, List.foldlM_append]
  rfl

@[simp] theorem run_nil (s : State) : run s [] = some s := rfl

@[simp] theorem run_cons (s : State) (c : Char) (cs : List Char) :
    run s (c :: cs) = (step s c).bind fun t => run t cs := by
  simp only [run, List.foldlM_cons]
  rfl

@[simp] theorem step_outside (tokens : List (Token String)) (word : List Char) (c : Char) :
    step ⟨tokens, .outside word⟩ c = stepOutside tokens word c := rfl

@[simp] theorem step_text (tokens : List (Token String)) (seen : List Char) (c : Char) :
    step ⟨tokens, .text seen⟩ c = stepText tokens seen c := rfl

def State.after (earlier : List (Token String)) (s : State) : State :=
  ⟨earlier ++ s.tokens, s.mode⟩

theorem flush_append (earlier tokens : List (Token String)) (word : List Char) :
    flush (earlier ++ tokens) word = earlier ++ flush tokens word := by
  simp only [flush]
  split <;> simp

/-- The lexer never looks back at its tokens. -/
theorem step_after (earlier : List (Token String)) (s : State) (c : Char) :
    step (s.after earlier) c = (step s c).map (State.after earlier) := by
  obtain ⟨tokens, mode⟩ := s
  cases mode with
  | outside word =>
    simp only [State.after, step, stepOutside, flush_append]
    split
    · rfl
    split
    · rfl
    cases punctuation (σ := String) c with
    | some token => simp [State.after]
    | none => by_cases inWord : isWordChar c = true <;> simp [inWord, State.after]
  | text seen =>
    simp only [State.after, step, stepText]
    split
    · simp [State.after]
    split
    · rfl
    split <;> rfl
  | escape seen | unicode seen high digits | paired seen high | pairedEscape seen high =>
    simp [State.after, step, Function.comp_def]

theorem run_after (earlier : List (Token String)) (s : State) (cs : List Char) :
    run (s.after earlier) cs = (run s cs).map (State.after earlier) := by
  induction cs generalizing s with
  | nil => rfl
  | cons c cs ih =>
    rw [run_cons, run_cons, step_after]
    cases step s c with
    | none => rfl
    | some t => exact ih t

/-! ### Decoding a text -/

def decode (content : List Char) : Option (List Char) :=
  match run ⟨[], .text []⟩ content with
  | some ⟨[], .text value⟩ => some value
  | _ => none

variable {content value : List Char}

theorem run_of_decode (decoded : decode content = some value) (tokens : List (Token String)) :
    run ⟨tokens, .text []⟩ content = some ⟨tokens, .text value⟩ := by
  have start : (⟨tokens, .text []⟩ : State) = State.after tokens ⟨[], .text []⟩ := by
    simp [State.after]
  rw [decode] at decoded
  split at decoded
  next text ended =>
    cases decoded
    rw [start, run_after, ended]
    simp [State.after]
  · cases decoded

variable {tokens : List (Token String)}

theorem decode_of_run (ended : run ⟨tokens, .text []⟩ content = some ⟨tokens, .text value⟩) :
    decode content = some value := by
  have start : (⟨tokens, .text []⟩ : State) = State.after tokens ⟨[], .text []⟩ := by
    simp [State.after]
  rw [start, run_after, Option.map_eq_some_iff] at ended
  obtain ⟨⟨own, mode⟩, reached, same⟩ := ended
  simp only [State.after, State.mk.injEq, List.append_right_eq_self] at same
  rw [decode, reached]
  obtain ⟨rfl, rfl⟩ := same
  rfl

variable {cs : List Char}

/-- Decoding a content that is a sequence of encoded characters. -/
theorem decode_flatMap {f : Char → List Char}
    (each : ∀ c ∈ cs, ∀ seen, run ⟨[], .text seen⟩ (f c) = some ⟨[], .text (seen ++ [c])⟩) :
    decode (cs.flatMap f) = some cs := by
  have ended (seen : List Char) :
      run ⟨[], .text seen⟩ (cs.flatMap f) = some ⟨[], .text (seen ++ cs)⟩ := by
    induction cs generalizing seen with
    | nil => simp
    | cons c cs ih =>
      rw [List.flatMap_cons, run_append, each c (.head _), Option.bind_some,
        ih fun d mem => each d (List.mem_cons_of_mem c mem), List.append_assoc]
      rfl
  exact decode_of_run (ended [])

theorem hexValue_hexDigit {n : Nat} (small : n < 16) : hexValue (hexDigit n) = some n := by
  interval_cases n <;> decide

/-- A character is written as a short escape, by its code, or as itself. -/
theorem jsonChar_cases (c : Char) :
    (∃ d, simpleEscape d = some c ∧ jsonChar c = ['\\', d]) ∨
      (c.toNat < 32 ∧ jsonChar c =
        ['\\', 'u', '0', '0', hexDigit (c.toNat / 16), hexDigit (c.toNat % 16)]) ∨
      (c ≠ '"' ∧ c ≠ '\\' ∧ ¬c.val < 0x20 ∧ jsonChar c = [c]) := by
  have short {c d : Char} (simple : simpleEscape d = some c) :
      ∃ e, simpleEscape e = some c ∧ ['\\', d] = ['\\', e] := ⟨d, simple, rfl⟩
  unfold jsonChar
  repeat' split
  · next same => exact .inl (short (by rw [same]; rfl))
  · next same => exact .inl (short (by rw [same]; rfl))
  · next same => exact .inl (short (by rw [same]; rfl))
  · next same => exact .inl (short (by rw [same]; rfl))
  · next same => exact .inl (short (by rw [same]; rfl))
  · next same => exact .inl (short (by rw [same]; rfl))
  · next same => exact .inl (short (by rw [same]; rfl))
  · next control => exact .inr (.inl ⟨control, rfl⟩)
  · next quote backslash _ _ _ _ _ high => exact .inr (.inr ⟨quote, backslash, high, rfl⟩)

theorem run_jsonChar (c : Char) (seen : List Char) :
    run ⟨[], .text seen⟩ (jsonChar c) = some ⟨[], .text (seen ++ [c])⟩ := by
  rcases jsonChar_cases c with ⟨d, simple, shape⟩ | ⟨bound, shape⟩ | ⟨quote, backslash, high, shape⟩
  · have other : d ≠ 'u' := by
      rintro rfl
      cases simple
    simp [shape, step, stepText, stepEscape, other, simple]
  · have high : hexValue (hexDigit (c.toNat / 16)) = some (c.toNat / 16) :=
      hexValue_hexDigit (by omega)
    have low : hexValue (hexDigit (c.toNat % 16)) = some (c.toNat % 16) :=
      hexValue_hexDigit (by omega)
    have zero : hexValue '0' = some 0 := rfl
    have whole : c.toNat / 16 * 16 + c.toNat % 16 = c.toNat := by omega
    have scalar : ¬(0xD800 ≤ c.toNat ∧ c.toNat < 0xDC00) ∧
        ¬(0xDC00 ≤ c.toNat ∧ c.toNat < 0xE000) := by omega
    simp [shape, run, step, stepText, stepEscape, codeUnit, zero, high, low, whole, scalar,
      Option.bind, bind]
  · simp [shape, stepText, quote, backslash, high]

/-- A text written with every necessary escape is decoded to itself. -/
theorem decode_jsonChar (s : String) : decode (s.toList.flatMap jsonChar) = some s.toList :=
  decode_flatMap fun c _ seen => run_jsonChar c seen

/-! ### Texts that end too early or too late -/

/-- Every quote stands right behind a backslash. -/
inductive Guarded : List Char → Prop
  | nil : Guarded []
  | escaped {rest : List Char} : Guarded rest → Guarded ('\\' :: '"' :: rest)
  | cons {c : Char} {rest : List Char} : c ≠ '"' → Guarded rest → Guarded (c :: rest)

theorem Guarded.append {ds : List Char} (left : Guarded cs) (right : Guarded ds) :
    Guarded (cs ++ ds) := by
  induction left with
  | nil => exact right
  | escaped _ ih => exact .escaped ih
  | cons other _ ih => exact .cons other ih

theorem Guarded.flatMap {α : Type} {f : α → List Char} (each : ∀ a, Guarded (f a)) (xs : List α) :
    Guarded (xs.flatMap f) := by
  induction xs with
  | nil => exact .nil
  | cons x xs ih => exact (each x).append ih

theorem guarded_jsonChar (c : Char) : Guarded (jsonChar c) := by
  have digit {n : Nat} (small : n < 16) : hexDigit n ≠ '"' := by
    interval_cases n <;> decide
  rcases jsonChar_cases c with ⟨d, simple, shape⟩ | ⟨bound, shape⟩ | ⟨quote, _, _, shape⟩
  · rw [shape]
    rcases eq_or_ne d '"' with rfl | other
    · exact .escaped .nil
    · exact .cons (by decide) (.cons other .nil)
  · rw [shape]
    exact .cons (by decide) (.cons (by decide) (.cons (by decide) (.cons (by decide)
      (.cons (digit (by omega)) (.cons (digit (by omega)) .nil)))))
  · rw [shape]
    exact .cons quote .nil

/-- The lexer stopped, or it is inside a text where the writer is outside. -/
def Astray (reached : Option State) : Prop := ∀ s ∈ reached, ∃ seen, s.mode = .text seen

theorem astray_none : Astray none := by simp [Astray]

theorem astray_text (tokens : List (Token String)) (seen : List Char) :
    Astray (some ⟨tokens, .text seen⟩) := by
  simp [Astray]

/-- Outside a text, the rest of a content either stops the lexer at a backslash or is
followed by a quote that opens a text. -/
theorem astray_outside (guarded : Guarded content) (tokens : List (Token String)) (word : List Char) :
    Astray (run ⟨tokens, .outside word⟩ (content ++ ['"'])) := by
  induction guarded generalizing tokens word with
  | nil => exact astray_text _ _
  | escaped _ _ =>
    have stops : stepOutside tokens word '\\' = none := by
      simp [stepOutside, isSpace, punctuation, isWordChar]
    rw [List.cons_append, run_cons, step_outside, stops]
    exact astray_none
  | @cons c rest other _ ih =>
    rw [List.cons_append, run_cons, step_outside, stepOutside, if_neg other]
    split
    · exact ih _ _
    cases punctuation (σ := String) c with
    | some token => exact ih _ _
    | none =>
      by_cases inWord : isWordChar c = true
      · simp only [inWord, ↓reduceIte]
        exact ih _ _
      · simp only [inWord, Bool.false_eq_true, ↓reduceIte]
        exact astray_none

def Mode.Inside : Mode → Prop
  | .outside _ => False
  | _ => True

def Mode.seen : Mode → List Char
  | .outside _ => []
  | .text seen => seen
  | .escape seen => seen
  | .unicode seen _ _ => seen
  | .paired seen _ => seen
  | .pairedEscape seen _ => seen

/-- The mode after a character inside a text, which gains at most one character. -/
structure Mode.Grows (mode next : Mode) : Prop where
  inside : next.Inside
  grown : next.seen.length ≤ mode.seen.length + 1

variable {mode : Mode}

theorem codeUnit_grows {seen : List Char} {high : Option Nat} {digits : List Nat} {unit : Nat}
    (reached : codeUnit seen high unit = some mode) : Mode.Grows (.unicode seen high digits) mode := by
  cases high with
  | none =>
    simp only [codeUnit] at reached
    split at reached
    · cases reached
      exact ⟨trivial, by simp [Mode.seen]⟩
    split at reached
    · cases reached
    · cases reached
      exact ⟨trivial, by simp [Mode.seen]⟩
  | some lead =>
    simp only [codeUnit] at reached
    split at reached
    · cases reached
      exact ⟨trivial, by simp [Mode.seen]⟩
    · cases reached

variable {c : Char}

theorem stepEscape_grows {next : Mode} (reached : stepEscape mode c = some next) :
    mode.Grows next := by
  cases mode with
  | outside word | text seen => cases reached
  | escape seen =>
    simp only [stepEscape] at reached
    split at reached
    · cases reached
      exact ⟨trivial, by simp [Mode.seen]⟩
    · obtain ⟨d, _, rfl⟩ := Option.map_eq_some_iff.mp reached
      exact ⟨trivial, by simp [Mode.seen]⟩
  | unicode seen high digits =>
    obtain ⟨digit, _, closed⟩ := Option.bind_eq_some_iff.mp reached
    simp only at closed
    split at closed
    · cases closed
      exact ⟨trivial, by simp [Mode.seen]⟩
    · exact codeUnit_grows closed
  | paired seen high | pairedEscape seen high =>
    simp only [stepEscape, Option.ite_none_right_eq_some] at reached
    obtain ⟨_, ⟨⟩⟩ := reached
    exact ⟨trivial, by simp [Mode.seen]⟩

/-- Inside a text every character but a quote leaves the tokens alone. -/
theorem step_inside (inside : mode.Inside) (other : c ≠ '"') :
    step ⟨tokens, mode⟩ c = none ∨
      ∃ next : Mode, mode.Grows next ∧ step ⟨tokens, mode⟩ c = some ⟨tokens, next⟩ := by
  have within {mode : Mode} (same : step ⟨tokens, mode⟩ c =
      (stepEscape mode c).map fun next => ⟨tokens, next⟩) :
      step ⟨tokens, mode⟩ c = none ∨
        ∃ next : Mode, mode.Grows next ∧ step ⟨tokens, mode⟩ c = some ⟨tokens, next⟩ := by
    rw [same]
    cases reached : stepEscape mode c with
    | none => exact .inl rfl
    | some next => exact .inr ⟨next, stepEscape_grows reached, rfl⟩
  cases mode with
  | outside word => cases inside
  | text seen =>
    simp only [step_text, stepText, if_neg other]
    split
    · exact .inr ⟨.escape seen, ⟨trivial, by simp [Mode.seen]⟩, rfl⟩
    split
    · exact .inl rfl
    · exact .inr ⟨.text (seen ++ [c]), ⟨trivial, by simp [Mode.seen]⟩, rfl⟩
  | escape seen | unicode seen high digits | paired seen high | pairedEscape seen high =>
    exact within rfl

/-- Tokens are never taken back. -/
theorem step_tokens {s t : State} (moved : step s c = some t) :
    s.tokens.length ≤ t.tokens.length := by
  obtain ⟨tokens, mode⟩ := s
  have flushed (word : List Char) : tokens.length ≤ (flush tokens word).length := by
    simp only [flush]
    split <;> simp
  have within (same : step ⟨tokens, mode⟩ c =
      (stepEscape mode c).map fun next => ⟨tokens, next⟩) : tokens.length ≤ t.tokens.length := by
    rw [same, Option.map_eq_some_iff] at moved
    obtain ⟨next, _, rfl⟩ := moved
    exact Nat.le_refl _
  cases mode with
  | outside word =>
    simp only [step_outside, stepOutside] at moved
    split at moved
    · cases moved
      exact flushed word
    split at moved
    · cases moved
      exact flushed word
    split at moved
    · cases moved
      rw [List.length_append]
      exact Nat.le_add_right_of_le (flushed word)
    · split at moved
      · cases moved
        exact Nat.le_refl _
      · cases moved
  | text seen =>
    simp only [step_text, stepText] at moved
    split at moved
    · cases moved
      simp
    split at moved
    · cases moved
      simp
    split at moved
    · cases moved
    · cases moved
      simp
  | escape seen | unicode seen high digits | paired seen high | pairedEscape seen high =>
    exact within rfl

theorem run_tokens {s t : State} (reached : run s cs = some t) :
    s.tokens.length ≤ t.tokens.length := by
  induction cs generalizing s with
  | nil =>
    cases reached
    exact Nat.le_refl _
  | cons c cs ih =>
    rw [run_cons, Option.bind_eq_some_iff] at reached
    obtain ⟨next, moved, rest⟩ := reached
    exact (step_tokens moved).trans (ih rest)

/-- A content is read as one text up to its end, or the lexer goes astray. -/
theorem run_content (guarded : Guarded content) (tokens : List (Token String))
    (inside : mode.Inside) :
    (∃ value, run ⟨tokens, mode⟩ content = some ⟨tokens, .text value⟩) ∨
      Astray (run ⟨tokens, mode⟩ (content ++ ['"'])) := by
  induction guarded generalizing mode with
  | nil =>
    cases mode with
    | outside word => cases inside
    | text seen => exact .inl ⟨seen, rfl⟩
    | escape seen => exact .inr (astray_text _ _)
    | unicode seen high digits | paired seen high | pairedEscape seen high => exact .inr astray_none
  | @escaped rest guarded ih =>
    cases mode with
    | outside word => cases inside
    | text seen => exact ih (show (Mode.text (seen ++ ['"'])).Inside from trivial)
    | escape seen =>
      -- The backslash was the second of a pair, so the quote ends the text.
      exact .inr (astray_outside guarded (tokens ++ [.text _]) [])
    | unicode seen high digits | paired seen high | pairedEscape seen high => exact .inr astray_none
  | @cons c rest other guarded ih =>
    rw [List.cons_append, run_cons, run_cons]
    rcases step_inside inside other with stopped | ⟨next, inner, moved⟩
    · rw [stopped]
      exact .inr astray_none
    · rw [moved]
      exact ih inner.inside

/-! ### Reading tokens one after the other -/

def Plain (cs : List Char) : Prop := ∀ c ∈ cs, c ≠ '"' ∧ c ≠ '\\'

def Token.Sound : Token (List Char) → Prop
  | .word w => w ≠ "" ∧ w.toList.all isWordChar = true
  | .text content => Guarded content
  | _ => True

theorem wordChar_plain (inWord : isWordChar c = true) : c ≠ '"' ∧ c ≠ '\\' := by
  constructor
  · rintro rfl
    exact absurd inWord (by decide)
  · rintro rfl
    exact absurd inWord (by decide)

theorem Token.chars_cases {token : Token (List Char)} (sound : token.Sound) :
    Plain token.chars ∨ ∃ content, token = .text content ∧ Guarded content := by
  cases token with
  | word w =>
    refine .inl fun c mem => wordChar_plain ?_
    exact List.all_eq_true.mp sound.2 c mem
  | text content => exact .inr ⟨content, rfl, sound⟩
  | _ => exact .inl (by simp [Plain, Token.chars])

/-- Inside a text, plain characters are part of it. -/
theorem astray_plain (plain : Plain cs) (tokens : List (Token String)) (seen : List Char) :
    Astray (run ⟨tokens, .text seen⟩ cs) := by
  induction cs generalizing seen with
  | nil => exact astray_text _ _
  | cons c cs ih =>
    obtain ⟨quote, backslash⟩ := plain c (.head _)
    rw [run_cons, step_text, stepText, if_neg quote, if_neg backslash]
    split
    · exact astray_none
    · exact ih (fun d mem => plain d (List.mem_cons_of_mem c mem)) _

/-- Inside a text, a text closes it and opens another. -/
theorem astray_quoted (guarded : Guarded content) (tokens : List (Token String)) (seen : List Char) :
    Astray (run ⟨tokens, .text seen⟩ (quoted content)) := by
  rw [quoted, run_cons, step_text, stepText, if_pos rfl]
  exact astray_outside guarded _ _

/-- Once astray, always astray. -/
theorem Astray.run {s : State} (lost : Astray (some s)) {tokens : List (Token (List Char))}
    (sound : ∀ token ∈ tokens, token.Sound) :
    Astray (run s (tokens.flatMap Token.chars)) := by
  induction tokens generalizing s with
  | nil => exact lost
  | cons token rest ih =>
    obtain ⟨earlier, mode⟩ := s
    obtain ⟨seen, rfl⟩ := lost _ rfl
    have more := fun t mem => sound t (List.mem_cons_of_mem token mem)
    have next : Astray (Json.run ⟨earlier, .text seen⟩ token.chars) := by
      rcases Token.chars_cases (sound token (.head _)) with plain | ⟨content, rfl, guarded⟩
      · exact astray_plain plain _ _
      · exact astray_quoted guarded _ _
    rw [List.flatMap_cons, run_append]
    cases reached : Json.run ⟨earlier, .text seen⟩ token.chars with
    | none => exact astray_none
    | some t => exact ih (reached ▸ next) more

/-- Outside, plain characters lead nowhere but outside. -/
theorem run_outside (plain : Plain cs) (tokens : List (Token String)) (word : List Char) :
    ∀ s ∈ run ⟨tokens, .outside word⟩ cs, ∃ rest, s.mode = .outside rest := by
  induction cs generalizing tokens word with
  | nil => simp
  | cons c cs ih =>
    have more := fun d mem => plain d (List.mem_cons_of_mem c mem)
    rw [run_cons, step_outside, stepOutside, if_neg (plain c (.head _)).1]
    split
    · exact ih more _ _
    cases punctuation (σ := String) c with
    | some token => exact ih more _ _
    | none =>
      by_cases inWord : isWordChar c = true
      · simp only [inWord, ↓reduceIte]
        exact ih more _ _
      · simp [inWord]

theorem run_quoted (decoded : decode content = some value) (tokens : List (Token String))
    (word : List Char) :
    run ⟨tokens, .outside word⟩ (quoted content) =
      some ⟨flush tokens word ++ [.text (String.ofList value)], .outside []⟩ := by
  rw [quoted, run_cons, step_outside, stepOutside, if_pos rfl, Option.bind_some, run_append,
    run_of_decode decoded]
  rfl

theorem astray_undecoded (guarded : Guarded content) (undecoded : decode content = none)
    (tokens : List (Token String)) (word : List Char) :
    Astray (run ⟨tokens, .outside word⟩ (quoted content)) := by
  rw [quoted, run_cons, step_outside, stepOutside, if_pos rfl, Option.bind_some]
  rcases run_content guarded (flush tokens word) (show (Mode.text []).Inside from trivial) with
    ⟨value, ended⟩ | lost
  · rw [decode_of_run ended] at undecoded
    cases undecoded
  · exact lost

/-- One text that cannot be decoded leads the lexer astray. -/
theorem astray_of_undecoded {tokens : List (Token (List Char))}
    (sound : ∀ token ∈ tokens, token.Sound) (mem : .text content ∈ tokens)
    (undecoded : decode content = none) (earlier : List (Token String)) (word : List Char) :
    Astray (run ⟨earlier, .outside word⟩ (tokens.flatMap Token.chars)) := by
  induction tokens generalizing earlier word with
  | nil => cases mem
  | cons token rest ih =>
    have more := fun t mem => sound t (List.mem_cons_of_mem token mem)
    rw [List.flatMap_cons, run_append]
    have lost {guarded : List Char} (own : Guarded guarded) (fails : decode guarded = none)
        (shape : token = .text guarded) :
        Astray ((run ⟨earlier, .outside word⟩ token.chars).bind fun t =>
          run t (rest.flatMap Token.chars)) := by
      subst shape
      have here := astray_undecoded own fails earlier word
      rw [Token.chars]
      cases reached : run ⟨earlier, .outside word⟩ (quoted guarded) with
      | none => exact astray_none
      | some t => exact Astray.run (reached ▸ here) more
    rcases List.mem_cons.mp mem with rfl | later
    · exact lost (sound _ (.head _)) undecoded rfl
    rcases Token.chars_cases (sound token (.head _)) with plain | ⟨other, rfl, guarded⟩
    · have outside := run_outside plain earlier word
      cases reached : run ⟨earlier, .outside word⟩ token.chars with
      | none => exact astray_none
      | some t =>
        obtain ⟨tokens, mode⟩ := t
        obtain ⟨word', rfl⟩ := outside _ reached
        exact ih more later _ _
    · cases decoded : decode other with
      | none => exact lost guarded decoded rfl
      | some value =>
        rw [Token.chars, run_quoted decoded]
        exact ih more later _ _

/-! ### Reading a document -/

/-- From outside, the characters are read as the tokens; the last one may be a word
that has not ended yet. -/
def Reads (cs : List Char) (tokens : List (Token String)) : Prop :=
  ∀ earlier, ∃ complete word, run ⟨earlier, .outside []⟩ cs = some ⟨complete, .outside word⟩ ∧
    flush complete word = earlier ++ tokens

theorem Reads.nil : Reads [] [] := fun earlier => ⟨earlier, [], rfl, by simp [flush]⟩

/-- Punctuation ends a word. -/
theorem Reads.punctuation {ds : List Char} {more : List (Token String)} {token : Token String}
    (first : Reads cs tokens) (then_ : Reads ds more) (mark : Json.punctuation c = some token) :
    Reads (cs ++ c :: ds) (tokens ++ token :: more) := by
  intro earlier
  obtain ⟨complete, word, reached, flushed⟩ := first earlier
  have apart : c ≠ '"' ∧ isSpace c = false := by
    constructor
    · rintro rfl
      cases mark
    · rw [Bool.eq_false_iff]
      intro space
      simp only [isSpace, Bool.or_eq_true, beq_iff_eq] at space
      rcases space with ((rfl | rfl) | rfl) | rfl <;> cases mark
  have moved : stepOutside complete word c = some ⟨earlier ++ tokens ++ [token], .outside []⟩ := by
    simp only [stepOutside, if_neg apart.1, apart.2, mark, flushed]
    rfl
  obtain ⟨final, last, ended, complete'⟩ := then_ (earlier ++ tokens ++ [token])
  refine ⟨final, last, ?_, ?_⟩
  · rw [run_append, reached, Option.bind_some, run_cons, step_outside, moved, Option.bind_some, ended]
  · rw [complete', List.append_assoc, List.append_assoc]
    rfl

theorem Reads.quoted (decoded : decode content = some value) :
    Reads (Json.quoted content) [.text (String.ofList value)] :=
  fun earlier => ⟨_, [], run_quoted decoded earlier [], by simp [flush]⟩

private theorem run_word (word : cs.all isWordChar = true) (tokens : List (Token String))
    (seen : List Char) :
    run ⟨tokens, .outside seen⟩ cs = some ⟨tokens, .outside (seen ++ cs)⟩ := by
  induction cs generalizing seen with
  | nil => simp
  | cons c cs ih =>
    rw [List.all_cons, Bool.and_eq_true] at word
    have apart : isSpace c = false ∧ punctuation (σ := String) c = none := by
      constructor
      · rw [Bool.eq_false_iff]
        intro space
        simp only [isSpace, Bool.or_eq_true, beq_iff_eq] at space
        rcases space with ((rfl | rfl) | rfl) | rfl <;> exact absurd word.1 (by decide)
      · simp only [punctuation]
        split <;> first | rfl | exact absurd word.1 (by decide)
    have moved : stepOutside tokens seen c = some ⟨tokens, .outside (seen ++ [c])⟩ := by
      simp [stepOutside, (wordChar_plain word.1).1, apart, word.1]
    rw [run_cons, step_outside, moved, Option.bind_some, ih word.2, List.append_assoc]
    rfl

theorem Reads.word {w : String} (filled : w ≠ "") (word : w.toList.all isWordChar = true) :
    Reads w.toList [.word w] := by
  intro earlier
  refine ⟨earlier, w.toList, run_word word earlier [], ?_⟩
  simp [flush, filled]

theorem Number.isWord (n : Number) : n.literal ≠ "" ∧ n.literal.toList.all isWordChar = true := by
  have valid := n.valid
  constructor
  · intro empty
    rw [empty] at valid
    exact absurd valid (by decide)
  · simp only [isNumber, Bool.and_eq_true] at valid
    exact valid.1

variable {v : Value (List Char)}

section Document

variable {read : List Char → String}

def Decodes (read : List Char → String) (tokens : List (Token (List Char))) : Prop :=
  ∀ content, .text content ∈ tokens → decode content = some (read content).toList

theorem Reads.text (decodes : decode content = some (read content).toList) :
    Reads (Json.quoted content) [.text (read content)] := by
  have reads := Reads.quoted decodes
  rwa [String.ofList_toList] at reads

theorem Reads.commas {α : Type} {xs : List α} {chars : α → List Char}
    {parts : α → List (Token String)} (each : ∀ x ∈ xs, Reads (chars x) (parts x)) :
    Reads ([','].intercalate (xs.map chars)) ([Token.comma].intercalate (xs.map parts)) := by
  induction xs with
  | nil => exact Reads.nil
  | cons x xs ih =>
    have first := each x (.head _)
    cases xs with
    | nil => simpa using first
    | cons y ys =>
      have both := first.punctuation (ih fun z mem => each z (.tail _ mem)) (c := ',') rfl
      simpa [List.intercalate_cons_cons] using both

/-- An array whose elements are read. -/
theorem Reads.array {vs : List (Value (List Char))}
    (inner : Reads cs ([Token.comma].intercalate (vs.map fun v => (v.map read).tokens))) :
    Reads ('[' :: (cs ++ [']'])) ((Value.array vs).map read).tokens := by
  have closed := Reads.nil.punctuation (inner.punctuation Reads.nil (c := ']') rfl) (c := '[') rfl
  simpa [Value.map, mapElements_eq, Value.tokens, elementTokens_eq, Function.comp_def] using closed

theorem Reads.object {ms : List (List Char × Value (List Char))}
    (inner : Reads cs ([Token.comma].intercalate
      (ms.map fun m => .text (read m.1) :: .colon :: (m.2.map read).tokens))) :
    Reads ('\x7b' :: (cs ++ ['\x7d'])) ((Value.object ms).map read).tokens := by
  have closed := Reads.nil.punctuation (inner.punctuation Reads.nil (c := '\x7d') rfl)
    (c := '\x7b') rfl
  simpa [Value.map, mapMembers_eq, Value.tokens, memberTokens_eq, Function.comp_def] using closed

theorem reads_value (v : Value (List Char)) (decodes : Decodes read v.tokens) :
    Reads (v.tokens.flatMap Token.chars) (v.map read).tokens := by
  induction v with
  | null =>
    simpa [Value.tokens, Value.map, Token.chars] using
      Reads.word (w := "null") (by decide) (by decide)
  | bool b =>
    cases b
    · simpa [Value.tokens, Value.map, Token.chars] using
        Reads.word (w := "false") (by decide) (by decide)
    · simpa [Value.tokens, Value.map, Token.chars] using
        Reads.word (w := "true") (by decide) (by decide)
  | number n =>
    simpa [Value.tokens, Value.map, Token.chars] using Reads.word n.isWord.1 n.isWord.2
  | text content =>
    simpa [Value.tokens, Value.map, Token.chars] using
      Reads.text ((every_text content).mp decodes)
  | array vs ih =>
    have inner := Reads.commas fun v mem => ih v mem ((every_array vs).mp decodes v mem)
    simpa [Value.tokens, elementTokens_eq, flatMap_intercalate, Token.chars, Function.comp_def]
      using inner.array
  | object ms ih =>
    have each := (every_object ms).mp decodes
    have inner := Reads.commas fun m mem =>
      (Reads.text (each m mem).1).punctuation (ih m mem (each m mem).2) (c := ':') rfl
    simpa [Value.tokens, memberTokens_eq, flatMap_intercalate, Token.chars, Function.comp_def]
      using inner.object

/-- What is read as the tokens of a value is parsed as the value. -/
theorem Reads.parse {v : Value String} (reads : Reads cs v.tokens) :
    Json.parse (String.ofList cs) = some v := by
  obtain ⟨complete, word, reached, flushed⟩ := reads []
  have lexed : lex cs = some v.tokens := by
    rw [lex, reached]
    simpa using flushed
  have parsed := parseValue_tokens v [] (Nat.le_refl _)
  rw [List.append_nil] at parsed
  simp [Json.parse, lexed, parsed]

/-- Where every text can be decoded, the document is read as it was written. -/
theorem parse_print (decodes : Decodes read v.tokens) :
    parse v.print = some (v.map read) :=
  (reads_value v decodes).parse

end Document

/-! ### Documents of plain texts -/

theorem Value.map_map_self {σ τ : Type} {f : σ → τ} {g : τ → σ} (inverse : ∀ s, g (f s) = s)
    (v : Value σ) : (v.map f).map g = v := by
  induction v with
  | null | bool b | number n => simp [Value.map]
  | text s => simp [Value.map, inverse]
  | array vs ih =>
    simp only [Value.map, mapElements_eq, List.map_map, Value.array.injEq]
    exact (List.map_congr_left ih).trans (List.map_id vs)
  | object ms ih =>
    simp only [Value.map, mapMembers_eq, List.map_map, Value.object.injEq]
    exact (List.map_congr_left fun m mem => Prod.ext (inverse m.1) (ih m mem)).trans (List.map_id ms)

theorem every_map {σ τ : Type} {f : σ → τ} {P : τ → Prop} (v : Value σ) :
    (v.map f).Every P ↔ v.Every fun s => P (f s) := by
  induction v with
  | null | bool b | number n | text s => simp [Value.map]
  | array vs ih =>
    simp only [Value.map, mapElements_eq, every_array, List.forall_mem_map]
    exact forall₂_congr ih
  | object ms ih =>
    simp only [Value.map, mapMembers_eq, every_object, List.forall_mem_map]
    exact forall₂_congr fun m mem => and_congr_right fun _ => ih m mem

theorem tokens_map {σ τ : Type} {f : σ → τ} (v : Value σ) {t : τ}
    (mem : .text t ∈ (v.map f).tokens) : ∃ s, f s = t :=
  (every_map v (P := fun t => ∃ s, f s = t)).mpr (fun s _ => ⟨s, rfl⟩) t mem

def Value.write (v : Value String) : String := (v.map fun s => s.toList.flatMap jsonChar).print

theorem length_le_print (mem : .text content ∈ v.tokens) : content.length ≤ v.print.length := by
  rw [Value.print, String.length_ofList]
  obtain ⟨before, after, shape⟩ := List.append_of_mem mem
  rw [shape]
  simp [Token.chars, quoted]
  omega

theorem length_jsonChar (c : Char) : 1 ≤ (jsonChar c).length ∧ (jsonChar c).length ≤ 6 := by
  rcases jsonChar_cases c with ⟨_, _, shape⟩ | ⟨_, shape⟩ | ⟨_, _, _, shape⟩ <;> simp [shape]

theorem length_le_jsonChars (cs : List Char) : cs.length ≤ (cs.flatMap jsonChar).length := by
  induction cs with
  | nil => simp
  | cons c cs ih =>
    have filled := (length_jsonChar c).1
    simp only [List.flatMap_cons, List.length_append, List.length_cons]
    omega

theorem length_jsonChars_le (cs : List Char) : (cs.flatMap jsonChar).length ≤ 6 * cs.length := by
  induction cs with
  | nil => simp
  | cons c cs ih =>
    have here := (length_jsonChar c).2
    simp only [List.flatMap_cons, List.length_append, List.length_cons]
    omega

/-- Escaped texts can be decoded. -/
theorem exists_decodes (v : Value String) :
    ∃ read : List Char → String, (∀ s : String, read (s.toList.flatMap jsonChar) = s) ∧
      Decodes read (v.map fun s => s.toList.flatMap jsonChar).tokens := by
  let read (content : List Char) : String := (decode content).elim "" String.ofList
  have back (s : String) : read (s.toList.flatMap jsonChar) = s := by
    simp [read, decode_jsonChar]
  refine ⟨read, back, fun content mem => ?_⟩
  obtain ⟨s, rfl⟩ := tokens_map v mem
  rw [back, decode_jsonChar]

/-- A written document is read back. -/
theorem parse_write (v : Value String) : parse v.write = some v := by
  obtain ⟨read, back, decodes⟩ := exists_decodes v
  rw [Value.write, parse_print decodes, Value.map_map_self back]

theorem write_injective : Function.Injective Value.write := fun v w same => by
  have read := parse_write v
  rw [same, parse_write w] at read
  exact (Option.some.inj read).symm

instance : DecidableEq (Value String) := fun v w =>
  decidable_of_iff (v.write = w.write) write_injective.eq_iff

/-! ### Documents that cannot be read -/

theorem tokens_sound (v : Value (List Char))
    (guarded : ∀ content, .text content ∈ v.tokens → Guarded content) :
    ∀ token ∈ v.tokens, token.Sound := by
  induction v with
  | null => simp [Value.tokens, Token.Sound]; decide
  | bool b => cases b <;> simp [Value.tokens, Token.Sound] <;> decide
  | number n => simpa [Value.tokens, Token.Sound] using n.isWord
  | text content => simpa [Value.tokens, Token.Sound] using guarded
  | array vs ih =>
    rintro token mem
    rcases mem_tokens_array.mp mem with rfl | (⟨rfl, _⟩ | ⟨v, own, inside⟩) | rfl
    · trivial
    · trivial
    · exact ih v own ((every_array vs).mp guarded v own) token inside
    · trivial
  | object ms ih =>
    have each := (every_object ms).mp guarded
    rintro token mem
    rcases mem_tokens_object.mp mem with rfl | (⟨rfl, _⟩ | ⟨m, own, rfl | rfl | inside⟩) | rfl
    · trivial
    · trivial
    · exact (each m own).1
    · trivial
    · exact ih m own (each m own).2 token inside
    · trivial

/-! ### Printable texts -/

theorem jsonChar_printable {d : Char} (mem : d ∈ jsonChar c) : ¬d.val < 0x20 := by
  have digit (n : Nat) (small : n < 16) : ¬(hexDigit n).val < 0x20 := by
    interval_cases n <;> decide
  rcases jsonChar_cases c with ⟨e, simple, shape⟩ | ⟨small, shape⟩ | ⟨_, _, high, shape⟩
  · rw [shape, List.mem_cons, List.mem_singleton] at mem
    rcases mem with rfl | rfl
    · decide
    · unfold simpleEscape at simple
      split at simple <;> first | decide | cases simple
  · rw [shape] at mem
    simp only [List.mem_cons, List.not_mem_nil, or_false] at mem
    rcases mem with rfl | rfl | rfl | rfl | rfl | rfl
    · decide
    · decide
    · decide
    · decide
    · exact digit _ (by omega)
    · exact digit _ (by omega)
  · rw [shape] at mem
    obtain rfl := List.mem_singleton.mp mem
    exact high

/-- A written document has no control characters. -/
theorem write_printable {v : Value String} (mem : c ∈ v.write.toList) :
    ¬c.val < 0x20 := by
  unfold Value.write Value.print at mem
  rw [String.toList_ofList, List.mem_flatMap] at mem
  obtain ⟨token, inside, mem⟩ := mem
  have texts {content : List Char}
      (inside : .text content ∈ (v.map fun s => s.toList.flatMap jsonChar).tokens) :
      ∃ s : String, s.toList.flatMap jsonChar = content := tokens_map v inside
  have sound := tokens_sound (v.map fun s => s.toList.flatMap jsonChar) (fun content inside => by
    obtain ⟨s, rfl⟩ := texts inside
    exact Guarded.flatMap guarded_jsonChar s.toList) token inside
  cases token with
  | word w =>
    have inWord := List.all_eq_true.mp sound.2 c mem
    intro low
    have letter : ∀ n < 32, isWordChar (Char.ofNat n) = false := by decide
    have plain := letter c.toNat (by simpa [UInt32.lt_iff_toNat_lt] using low)
    rw [Char.ofNat_toNat, inWord] at plain
    cases plain
  | text content =>
    obtain ⟨s, rfl⟩ := texts inside
    rcases List.mem_cons.mp mem with rfl | mem
    · decide
    rcases List.mem_append.mp mem with own | closing
    · obtain ⟨d, _, escaped⟩ := List.mem_flatMap.mp own
      exact jsonChar_printable escaped
    · obtain rfl := List.mem_singleton.mp closing
      decide
  | _ =>
    obtain rfl := List.mem_singleton.mp mem
    decide

/-- One text that cannot be decoded makes the whole document unreadable. -/
theorem parse_print_none (guarded : ∀ content, .text content ∈ v.tokens → Guarded content)
    (mem : .text content ∈ v.tokens) (undecoded : decode content = none) :
    parse v.print = none := by
  have lost := astray_of_undecoded (tokens_sound v guarded) mem undecoded [] []
  have unread : lex v.print.toList = none := by
    rw [Value.print, String.toList_ofList, lex]
    cases reached : run ⟨[], .outside []⟩ (v.tokens.flatMap Token.chars) with
    | none => rfl
    | some s =>
      obtain ⟨tokens, mode⟩ := s
      obtain ⟨seen, rfl⟩ := lost _ reached
      rfl
  simp [parse, unread]

end Json
