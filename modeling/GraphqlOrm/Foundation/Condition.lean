import GraphqlOrm.Foundation.Text

/-!
# SQL search conditions

Three-valued logic, and the grammar of search conditions with the precedence of
`NOT`, `AND` and `OR` built into its syntax trees. A tree is written as a sequence of
tokens from which it can be read back, so the meaning of a written condition is the
meaning of one tree.
-/
namespace Sql

/-! ### Truth values -/

inductive Truth where
  | holds | fails | unknown
deriving DecidableEq

namespace Truth

def not : Truth → Truth
  | holds => fails
  | fails => holds
  | unknown => unknown

def and : Truth → Truth → Truth
  | fails, _ => fails
  | _, fails => fails
  | holds, t => t
  | unknown, _ => unknown

def or : Truth → Truth → Truth
  | holds, _ => holds
  | _, holds => holds
  | fails, t => t
  | unknown, _ => unknown

def ofBool (b : Bool) : Truth := if b then holds else fails

/-- A comparison: `NULL` on either side makes it unknown. -/
def lift {δ : Type} (r : δ → δ → Bool) : Option δ → Option δ → Truth
  | some x, some y => ofBool (r x y)
  | _, _ => unknown

/-- `IS TRUE`. -/
def isTrue (t : Truth) : Truth := ofBool (t = holds)

@[simp] theorem ofBool_eq_holds (b : Bool) : ofBool b = holds ↔ b = true := by
  cases b <;> simp [ofBool]

@[simp] theorem ofBool_eq_fails (b : Bool) : ofBool b = fails ↔ b = false := by
  cases b <;> simp [ofBool]

@[simp] theorem and_eq_holds (s t : Truth) : s.and t = holds ↔ s = holds ∧ t = holds := by
  cases s <;> cases t <;> simp [and]

@[simp] theorem or_eq_holds (s t : Truth) : s.or t = holds ↔ s = holds ∨ t = holds := by
  cases s <;> cases t <;> simp [or]

@[simp] theorem not_eq_holds (t : Truth) : t.not = holds ↔ t = fails := by
  cases t <;> simp [not]

@[simp] theorem isTrue_eq_holds (t : Truth) : t.isTrue = holds ↔ t = holds := by
  simp [isTrue]

theorem and_assoc (s t u : Truth) : (s.and t).and u = s.and (t.and u) := by
  cases s <;> cases t <;> cases u <;> rfl

theorem or_assoc (s t u : Truth) : (s.or t).or u = s.or (t.or u) := by
  cases s <;> cases t <;> cases u <;> rfl

@[simp] theorem and_holds (t : Truth) : t.and holds = t := by cases t <;> rfl

@[simp] theorem holds_and (t : Truth) : holds.and t = t := by cases t <;> rfl

@[simp] theorem or_fails (t : Truth) : t.or fails = t := by cases t <;> rfl

@[simp] theorem fails_or (t : Truth) : fails.or t = t := by cases t <;> rfl

def all (ts : List Truth) : Truth := ts.foldr and holds

def any (ts : List Truth) : Truth := ts.foldr or fails

@[simp] theorem all_nil : all [] = holds := rfl

@[simp] theorem all_cons (t : Truth) (ts : List Truth) : all (t :: ts) = t.and (all ts) := rfl

@[simp] theorem any_nil : any [] = fails := rfl

@[simp] theorem any_cons (t : Truth) (ts : List Truth) : any (t :: ts) = t.or (any ts) := rfl

theorem all_eq_holds {ts : List Truth} : all ts = holds ↔ ∀ t ∈ ts, t = holds := by
  induction ts with
  | nil => simp
  | cons t ts ih => simp [ih]

end Truth

/-! ### Syntax trees -/

mutual

/-- Alternatives joined by `OR`, or a clause whose inside is not known: it may itself
have alternatives, so it can only stand alone or between parentheses. -/
inductive Condition (α β σ : Type) where
  | clause (b : β)
  | one (t : Term α β σ)
  | or (t : Term α β σ) (c : Condition α β σ)

/-- Factors joined by `AND`. -/
inductive Term (α β σ : Type) where
  | one (f : Factor α β σ)
  | and (f : Factor α β σ) (t : Term α β σ)

inductive Factor (α β σ : Type) where
  | atom (a : α)
  | not (f : Factor α β σ)
  | group (c : Condition α β σ)
  | isTrue (c : Condition α β σ)
  | exists (source : σ) (c : Condition α β σ)

end

variable {α β σ ρ : Type}

/-- What the parts of a condition mean on a row; a source gives the rows that a
subquery runs through. -/
structure Meaning (α β σ ρ : Type) where
  atom : ρ → α → Truth
  clause : ρ → β → Truth
  rows : ρ → σ → List ρ

mutual

def Condition.eval (m : Meaning α β σ ρ) (row : ρ) : Condition α β σ → Truth
  | .clause b => m.clause row b
  | .one t => t.eval m row
  | .or t c => (t.eval m row).or (c.eval m row)

def Term.eval (m : Meaning α β σ ρ) (row : ρ) : Term α β σ → Truth
  | .one f => f.eval m row
  | .and f t => (f.eval m row).and (t.eval m row)

def Factor.eval (m : Meaning α β σ ρ) (row : ρ) : Factor α β σ → Truth
  | .atom a => m.atom row a
  | .not f => (f.eval m row).not
  | .group c => c.eval m row
  | .isTrue c => (c.eval m row).isTrue
  | .exists source c =>
    Truth.ofBool ((m.rows row source).any fun inner => c.eval m inner = .holds)

end

/-! ### Tokens -/

inductive Token (α β σ : Type) where
  | atom (a : α)
  | clause (b : β)
  | and | or | not | open | close | isTrue
  | exists (source : σ)

mutual

def Condition.tokens : Condition α β σ → List (Token α β σ)
  | .clause b => [.clause b]
  | .one t => t.tokens
  | .or t c => t.tokens ++ .or :: c.tokens

def Term.tokens : Term α β σ → List (Token α β σ)
  | .one f => f.tokens
  | .and f t => f.tokens ++ .and :: t.tokens

def Factor.tokens : Factor α β σ → List (Token α β σ)
  | .atom a => [.atom a]
  | .not f => .not :: f.tokens
  | .group c => .open :: (c.tokens ++ [.close])
  | .isTrue c => .open :: (c.tokens ++ [.close, .isTrue])
  | .exists source c => .exists source :: (c.tokens ++ [.close])

end

mutual

def parseCondition : Nat → List (Token α β σ) → Option (Condition α β σ × List (Token α β σ))
  | 0, _ => none
  | _ + 1, .clause b :: rest => some (.clause b, rest)
  | fuel + 1, tokens =>
    match parseTerm fuel tokens with
    | some (t, .or :: rest) => (parseCondition fuel rest).map fun (c, rest) => (.or t c, rest)
    | some (t, rest) => some (.one t, rest)
    | none => none

def parseTerm : Nat → List (Token α β σ) → Option (Term α β σ × List (Token α β σ))
  | 0, _ => none
  | fuel + 1, tokens =>
    match parseFactor fuel tokens with
    | some (f, .and :: rest) => (parseTerm fuel rest).map fun (t, rest) => (.and f t, rest)
    | some (f, rest) => some (.one f, rest)
    | none => none

def parseFactor : Nat → List (Token α β σ) → Option (Factor α β σ × List (Token α β σ))
  | _ + 1, .atom a :: rest => some (.atom a, rest)
  | fuel + 1, .not :: rest => (parseFactor fuel rest).map fun (f, rest) => (.not f, rest)
  | fuel + 1, .open :: rest =>
    match parseCondition fuel rest with
    | some (c, .close :: .isTrue :: rest) => some (.isTrue c, rest)
    | some (c, .close :: rest) => some (.group c, rest)
    | _ => none
  | fuel + 1, .exists source :: rest =>
    match parseCondition fuel rest with
    | some (c, .close :: rest) => some (.exists source c, rest)
    | _ => none
  | _, _ => none

end

def parse (tokens : List (Token α β σ)) : Option (Condition α β σ) :=
  match parseCondition (3 * tokens.length) tokens with
  | some (c, []) => some c
  | _ => none

/-! ### A tree is read back from its tokens -/

def Ends (rest : List (Token α β σ)) : Prop :=
  ∀ t ∈ rest.head?, t ≠ .or ∧ t ≠ .and ∧ t ≠ .isTrue

def EndsTerm (rest : List (Token α β σ)) : Prop := ∀ t ∈ rest.head?, t ≠ .and ∧ t ≠ .isTrue

def EndsFactor (rest : List (Token α β σ)) : Prop := ∀ t ∈ rest.head?, t ≠ .isTrue

theorem Term.tokens_ne_clause (t : Term α β σ) :
    ∃ first rest, t.tokens = first :: rest ∧ ∀ b, first ≠ .clause b := by
  have factor (f : Factor α β σ) :
      ∃ first rest, f.tokens = first :: rest ∧ ∀ b, first ≠ .clause b := by
    cases f <;> exact ⟨_, _, by rw [Factor.tokens], by simp⟩
  cases t with
  | one f =>
    obtain ⟨first, rest, shape, apart⟩ := factor f
    exact ⟨first, rest, by rw [Term.tokens, shape], apart⟩
  | and f t =>
    obtain ⟨first, rest, shape, apart⟩ := factor f
    exact ⟨first, _, by rw [Term.tokens, shape, List.cons_append], apart⟩

variable {rest : List (Token α β σ)}

private theorem parseCondition_term {first : Token α β σ} (fuel : Nat)
    (apart : ∀ b, first ≠ .clause b) :
    parseCondition (fuel + 1) (first :: rest) =
      match parseTerm fuel (first :: rest) with
      | some (t, .or :: rest) => (parseCondition fuel rest).map fun (c, rest) => (.or t c, rest)
      | some (t, rest) => some (.one t, rest)
      | none => none := by
  cases first <;> first | exact absurd rfl (apart _) | simp only [parseCondition]

theorem Ends.term (ends : Ends rest) : EndsTerm rest :=
  fun t mem => (ends t mem).2

theorem EndsTerm.factor (ends : EndsTerm rest) : EndsFactor rest :=
  fun t mem => (ends t mem).2

theorem ends_close (rest : List (Token α β σ)) : Ends (.close :: rest) := by
  simp [Ends]

variable {tokens : List (Token α β σ)}

private theorem parseCondition_one {t : Term α β σ} {fuel : Nat}
    (start : ∃ first more, tokens = first :: more ∧ ∀ b, first ≠ .clause b) (ends : Ends rest)
    (read : parseTerm fuel tokens = some (t, rest)) :
    parseCondition (fuel + 1) tokens = some (.one t, rest) := by
  obtain ⟨first, more, rfl, apart⟩ := start
  rw [parseCondition_term fuel apart, read]
  cases rest with
  | nil => rfl
  | cons token rest =>
    have other := (ends token rfl).1
    cases token <;> first | exact absurd rfl other | rfl

private theorem parseTerm_one {f : Factor α β σ} {fuel : Nat} (ends : EndsTerm rest)
    (read : parseFactor fuel tokens = some (f, rest)) :
    parseTerm (fuel + 1) tokens = some (.one f, rest) := by
  rw [parseTerm, read]
  cases rest with
  | nil => rfl
  | cons token rest =>
    have other := (ends token rfl).1
    cases token <;> first | exact absurd rfl other | rfl

private theorem parseFactor_group {c : Condition α β σ} {fuel : Nat} (ends : EndsFactor rest)
    (read : parseCondition fuel tokens = some (c, .close :: rest)) :
    parseFactor (fuel + 1) (.open :: tokens) = some (.group c, rest) := by
  rw [parseFactor, read]
  cases rest with
  | nil => rfl
  | cons token rest =>
    have other := ends token rfl
    cases token <;> first | exact absurd rfl other | rfl

mutual

/-- A tree is read back in front of anything that cannot continue it. Each token costs
at most one call of each of the three functions. -/
theorem parseCondition_tokens (c : Condition α β σ) (rest : List (Token α β σ)) (ends : Ends rest)
    {fuel : Nat} (enough : 3 * c.tokens.length ≤ fuel) :
    parseCondition fuel (c.tokens ++ rest) = some (c, rest) := by
  match c with
  | .clause b =>
    simp only [Condition.tokens, List.length_cons, List.length_nil] at enough
    obtain ⟨fuel, rfl⟩ : ∃ n, fuel = n + 1 := ⟨fuel - 1, by omega⟩
    simp only [Condition.tokens, List.cons_append, List.nil_append, parseCondition]
  | .one t =>
    rw [Condition.tokens] at enough ⊢
    obtain ⟨first, more, shape, apart⟩ := t.tokens_ne_clause
    have filled : 0 < t.tokens.length := by simp [shape]
    obtain ⟨fuel, rfl⟩ : ∃ n, fuel = n + 1 := ⟨fuel - 1, by omega⟩
    exact parseCondition_one ⟨first, more ++ rest, by rw [shape, List.cons_append], apart⟩ ends
      (parseTerm_tokens t rest ends.term enough)
  | .or t c =>
    rw [Condition.tokens] at enough ⊢
    simp only [List.length_append, List.length_cons] at enough
    obtain ⟨fuel, rfl⟩ : ∃ n, fuel = n + 1 := ⟨fuel - 1, by omega⟩
    have first : parseTerm fuel (t.tokens ++ .or :: (c.tokens ++ rest)) = _ :=
      parseTerm_tokens t _ (by simp [EndsTerm]) (by omega)
    have others : parseCondition fuel (c.tokens ++ rest) = _ :=
      parseCondition_tokens c rest ends (by omega)
    obtain ⟨token, more, shape, apart⟩ := t.tokens_ne_clause
    rw [List.append_assoc, List.cons_append]
    rw [shape, List.cons_append] at first ⊢
    rw [parseCondition_term fuel apart, first]
    simp only [others, Option.map_some]

theorem parseTerm_tokens (t : Term α β σ) (rest : List (Token α β σ)) (ends : EndsTerm rest)
    {fuel : Nat} (enough : 3 * t.tokens.length ≤ fuel + 1) :
    parseTerm fuel (t.tokens ++ rest) = some (t, rest) := by
  have filled : 0 < t.tokens.length := by
    obtain ⟨first, more, shape, _⟩ := t.tokens_ne_clause
    simp [shape]
  obtain ⟨fuel, rfl⟩ : ∃ n, fuel = n + 1 := ⟨fuel - 1, by omega⟩
  match t with
  | .one f =>
    rw [Term.tokens] at enough ⊢
    exact parseTerm_one ends (parseFactor_tokens f rest ends.factor enough)
  | .and f t =>
    rw [Term.tokens] at enough ⊢
    simp only [List.length_append, List.length_cons] at enough
    have first : parseFactor fuel (f.tokens ++ .and :: (t.tokens ++ rest)) = _ :=
      parseFactor_tokens f _ (by simp [EndsFactor]) (by omega)
    have others : parseTerm fuel (t.tokens ++ rest) = _ :=
      parseTerm_tokens t rest ends (by omega)
    rw [List.append_assoc, List.cons_append, parseTerm, first]
    simp only [others, Option.map_some]

theorem parseFactor_tokens (f : Factor α β σ) (rest : List (Token α β σ)) (ends : EndsFactor rest)
    {fuel : Nat} (enough : 3 * f.tokens.length ≤ fuel + 2) :
    parseFactor fuel (f.tokens ++ rest) = some (f, rest) := by
  have filled : 0 < f.tokens.length := by
    cases f <;> simp [Factor.tokens]
  obtain ⟨fuel, rfl⟩ : ∃ n, fuel = n + 1 := ⟨fuel - 1, by omega⟩
  match f with
  | .atom a => simp only [Factor.tokens, List.cons_append, List.nil_append, parseFactor]
  | .not f =>
    rw [Factor.tokens] at enough ⊢
    simp only [List.length_cons] at enough
    rw [List.cons_append, parseFactor, parseFactor_tokens f rest ends (by omega)]
    rfl
  | .group c =>
    rw [Factor.tokens] at enough ⊢
    simp only [List.length_cons, List.length_append, List.length_nil] at enough
    rw [List.cons_append, List.append_assoc]
    exact parseFactor_group ends
      (parseCondition_tokens c (.close :: rest) (ends_close rest) (by omega))
  | .isTrue c =>
    rw [Factor.tokens] at enough ⊢
    simp only [List.length_cons, List.length_append, List.length_nil] at enough
    rw [List.cons_append, List.append_assoc, List.cons_append, List.cons_append, List.nil_append,
      parseFactor, parseCondition_tokens c (.close :: .isTrue :: rest) (ends_close _) (by omega)]
  | .exists source c =>
    rw [Factor.tokens] at enough ⊢
    simp only [List.length_cons, List.length_append, List.length_nil] at enough
    rw [List.cons_append, List.append_assoc, List.cons_append, List.nil_append, parseFactor,
      parseCondition_tokens c (.close :: rest) (ends_close rest) (by omega)]

end

/-- The tokens of a tree have no other reading. -/
theorem parse_tokens (c : Condition α β σ) : parse c.tokens = some c := by
  have read := parseCondition_tokens c [] (by simp [Ends]) (Nat.le_refl _)
  rw [List.append_nil] at read
  rw [parse, read]

/-! ### Spelling -/

/-- How the parts of a condition are written. -/
structure Spelling (α β σ : Type) where
  atom : α → String
  clause : β → String
  /-- Everything up to the condition of a subquery, with its opening parenthesis. -/
  source : σ → String

def Token.text (spelling : Spelling α β σ) : Token α β σ → String
  | .atom a => spelling.atom a
  | .clause b => spelling.clause b
  | .and => " AND "
  | .or => " OR "
  | .not => "NOT "
  | .open => "("
  | .close => ")"
  | .isTrue => " IS TRUE"
  | .exists source => "EXISTS (" ++ spelling.source source

def spell (spelling : Spelling α β σ) : List (Token α β σ) → String
  | [] => ""
  | t :: rest => t.text spelling ++ spell spelling rest

theorem spell_append (spelling : Spelling α β σ) (left right : List (Token α β σ)) :
    spell spelling (left ++ right) = spell spelling left ++ spell spelling right := by
  induction left with
  | nil => simp [spell]
  | cons t left ih => rw [List.cons_append, spell, spell, ih, String.append_assoc]

def Condition.text (spelling : Spelling α β σ) (c : Condition α β σ) : String :=
  spell spelling c.tokens

def Term.text (spelling : Spelling α β σ) (t : Term α β σ) : String := spell spelling t.tokens

def Factor.text (spelling : Spelling α β σ) (f : Factor α β σ) : String := spell spelling f.tokens

section Text

variable (spelling : Spelling α β σ)

attribute [local simp] Condition.tokens Term.tokens Factor.tokens spell Token.text

@[simp] theorem text_clause (b : β) :
    (Condition.clause (α := α) (σ := σ) b).text spelling = spelling.clause b := by
  simp [Condition.text, Condition.tokens, spell, Token.text]

@[simp] theorem text_one (t : Term α β σ) : (Condition.one t).text spelling = t.text spelling := by
  simp [Condition.text, Condition.tokens, Term.text]

@[simp] theorem text_or (t : Term α β σ) (c : Condition α β σ) :
    (Condition.or t c).text spelling = t.text spelling ++ " OR " ++ c.text spelling := by
  simp [Condition.text, Condition.tokens, Term.text, spell_append, spell, Token.text,
    String.append_assoc]

@[simp] theorem text_single (f : Factor α β σ) : (Term.one f).text spelling = f.text spelling := by
  simp [Term.text, Term.tokens, Factor.text]

@[simp] theorem text_and (f : Factor α β σ) (t : Term α β σ) :
    (Term.and f t).text spelling = f.text spelling ++ " AND " ++ t.text spelling := by
  simp [Term.text, Term.tokens, Factor.text, spell_append, spell, Token.text, String.append_assoc]

@[simp] theorem text_atom (a : α) :
    (Factor.atom (β := β) (σ := σ) a).text spelling = spelling.atom a := by
  simp [Factor.text, Factor.tokens, spell, Token.text]

@[simp] theorem text_not (f : Factor α β σ) :
    (Factor.not f).text spelling = "NOT " ++ f.text spelling := by
  simp [Factor.text, Factor.tokens, spell, Token.text]

@[simp] theorem text_group (c : Condition α β σ) :
    (Factor.group c).text spelling = "(" ++ c.text spelling ++ ")" := by
  simp [Factor.text, Factor.tokens, Condition.text, spell_append, spell, Token.text,
    String.append_assoc]

@[simp] theorem text_isTrue (c : Condition α β σ) :
    (Factor.isTrue c).text spelling = "(" ++ c.text spelling ++ ") IS TRUE" := by
  simp [Factor.text, Factor.tokens, Condition.text, spell_append, spell, Token.text,
    String.append_assoc]

@[simp] theorem text_exists (source : σ) (c : Condition α β σ) :
    (Factor.exists source c).text spelling =
      "EXISTS (" ++ spelling.source source ++ c.text spelling ++ ")" := by
  simp [Factor.text, Factor.tokens, Condition.text, spell_append, spell, Token.text,
    String.append_assoc]

end Text

/-! ### Chains -/

/-- Factors joined by `AND`, the last one given apart. -/
def Term.chain : List (Factor α β σ) → Factor α β σ → Term α β σ
  | [], last => .one last
  | f :: fs, last => .and f (chain fs last)

/-- Terms joined by `OR`. -/
def Condition.chain : Term α β σ → List (Term α β σ) → Condition α β σ
  | t, [] => .one t
  | t, u :: ts => .or t (chain u ts)

/-- Factors joined by `AND`. -/
def Term.conj : Factor α β σ → List (Factor α β σ) → Term α β σ
  | f, [] => .one f
  | f, g :: fs => .and f (conj g fs)

theorem Term.text_chain (spelling : Spelling α β σ) (fs : List (Factor α β σ))
    (last : Factor α β σ) :
    (Term.chain fs last).text spelling =
      Text.join " AND " (fs.map (Factor.text spelling) ++ [last.text spelling]) := by
  induction fs with
  | nil => simp [Term.chain, Text.join]
  | cons f fs ih =>
    rw [Term.chain, text_and, ih, List.map_cons, List.cons_append]
    cases fs <;> rfl

theorem Term.eval_chain (m : Meaning α β σ ρ) (row : ρ) (fs : List (Factor α β σ))
    (last : Factor α β σ) :
    (Term.chain fs last).eval m row =
      (Truth.all (fs.map (Factor.eval m row))).and (last.eval m row) := by
  induction fs with
  | nil => simp [Term.chain, Term.eval]
  | cons f fs ih => simp [Term.chain, Term.eval, ih, Truth.and_assoc]

theorem Term.tokens_chain (fs : List (Factor α β σ)) (last : Factor α β σ) :
    (Term.chain fs last).tokens = fs.flatMap (fun f => f.tokens ++ [.and]) ++ last.tokens := by
  induction fs with
  | nil => simp [Term.chain, Term.tokens]
  | cons f fs ih => simp [Term.chain, Term.tokens, ih]

theorem Term.text_conj (spelling : Spelling α β σ) (f : Factor α β σ) (fs : List (Factor α β σ)) :
    (Term.conj f fs).text spelling = Text.join " AND " ((f :: fs).map (Factor.text spelling)) := by
  induction fs generalizing f with
  | nil => simp [Term.conj, Text.join]
  | cons g fs ih =>
    rw [Term.conj, text_and, ih]
    rfl

theorem Term.eval_conj (m : Meaning α β σ ρ) (row : ρ) (f : Factor α β σ)
    (fs : List (Factor α β σ)) :
    (Term.conj f fs).eval m row = Truth.all ((f :: fs).map (Factor.eval m row)) := by
  induction fs generalizing f with
  | nil => simp [Term.conj, Term.eval]
  | cons g fs ih =>
    rw [Term.conj, Term.eval, ih]
    rfl

theorem Condition.text_chain (spelling : Spelling α β σ) (t : Term α β σ)
    (ts : List (Term α β σ)) :
    (Condition.chain t ts).text spelling =
      Text.join " OR " ((t :: ts).map (Term.text spelling)) := by
  induction ts generalizing t with
  | nil => simp [Condition.chain, Text.join]
  | cons u ts ih =>
    rw [Condition.chain, text_or, ih]
    rfl

theorem Condition.eval_chain (m : Meaning α β σ ρ) (row : ρ) (t : Term α β σ)
    (ts : List (Term α β σ)) :
    (Condition.chain t ts).eval m row = Truth.any ((t :: ts).map (Term.eval m row)) := by
  induction ts generalizing t with
  | nil => simp [Condition.chain, Condition.eval]
  | cons u ts ih =>
    rw [Condition.chain, Condition.eval, ih]
    rfl

end Sql
