import GraphqlOrm.Schema.CheckTokens

/-!
# Equivalent check expressions

When check expressions that compare equal are the same SQL: the same tokens, up to
blanks, letter case, quoting of identifiers and parentheses around the whole.

## Main result

`check_equivalence`: they are, unless a line comment is taken for a number, or a quoted
identifier for a keyword or a number.
-/
namespace GraphqlOrm.Schema

open Text

/-! ### The SQL tokens of an expression -/

def numberRun : List Char → List Char × List Char
  | [] => ([], [])
  | c :: rest =>
    if isNumberChar c = true ∧ ¬ (c = '-' ∧ rest.head? = some '-') then
      (c :: (numberRun rest).1, (numberRun rest).2)
    else ([], c :: rest)

/-- The tokens of SQL text, with line comments left out. -/
def scanSql : Nat → List Char → Option (List SqlToken)
  | 0, cs => if cs.isEmpty then some [] else none
  | _ + 1, [] => some []
  | fuel + 1, c :: rest =>
    if isAsciiWhitespace c then scanSql fuel rest
    else if c = '-' ∧ rest.head? = some '-' then scanSql fuel (rest.dropWhile (· != '\n'))
    else do
      let (token, left) ← readToken numberRun c rest
      return token :: (← scanSql fuel left)

def trimmedChars (expression : String) : List Char := trimList isWhitespace expression.toList

def sqlTokens (expression : String) : Option (List SqlToken) :=
  scanSql (trimmedChars expression).length (trimmedChars expression)

/-- The tokens that the source tells apart by their spelling. -/
def checkTokens (expression : String) : Option (List SqlToken) :=
  scanTokens (trimmedChars expression).length (trimmedChars expression)

def Uncommented (expression : String) : Prop :=
  ∀ tokens ∈ checkTokens expression, ∀ run, .number run ∈ tokens → ¬ ['-', '-'] <:+: run.toList

theorem numberRun_eq {cs : List Char} (plain : ¬ ['-', '-'] <:+: (cs.span isNumberChar).1) :
    numberRun cs = cs.span isNumberChar := by
  rw [List.span_eq_takeWhile_dropWhile] at plain ⊢
  induction cs with
  | nil => rfl
  | cons c rest ih =>
    rw [numberRun]
    split
    next inside =>
      rw [List.takeWhile_cons_of_pos inside.1] at plain ⊢
      rw [List.dropWhile_cons_of_pos inside.1]
      have shorter : ¬ ['-', '-'] <:+: rest.takeWhile isNumberChar := fun dashes =>
        plain (dashes.trans (List.suffix_cons c _).isInfix)
      rw [ih shorter]
    next outside =>
      have other : ¬ isNumberChar c = true := by
        intro number
        obtain ⟨rfl, second⟩ := not_not.mp fun unpaired => outside ⟨number, unpaired⟩
        obtain ⟨more, rfl⟩ := List.head?_eq_some_iff.mp second
        rw [List.takeWhile_cons_of_pos number, List.takeWhile_cons_of_pos number] at plain
        exact plain ⟨[], more.takeWhile isNumberChar, rfl⟩
      rw [List.takeWhile_cons_of_neg other, List.dropWhile_cons_of_neg other]

variable {tokens : List SqlToken}

/-- Without comments the source reads the tokens of SQL. -/
theorem scanSql_eq {fuel : Nat} {cs : List Char} (scanned : scanTokens fuel cs = some tokens)
    (plain : ∀ run, .number run ∈ tokens → ¬ ['-', '-'] <:+: run.toList) :
    scanSql fuel cs = some tokens := by
  induction fuel generalizing cs tokens with
  | zero => exact scanned
  | succ fuel ih =>
    cases cs with
    | nil => exact scanned
    | cons c rest =>
      rw [scanTokens] at scanned
      rw [scanSql]
      split at scanned
      next blank => rw [if_pos blank, ih scanned plain]
      next inked =>
        obtain ⟨⟨token, left⟩, read, onward⟩ := Option.bind_eq_some_iff.mp scanned
        obtain ⟨others, found, same⟩ := Option.bind_eq_some_iff.mp onward
        obtain rfl := Option.some.inj same
        -- A dash only begins a number.
        have undashed : ¬ (c = '-' ∧ rest.head? = some '-') := by
          rintro ⟨rfl, second⟩
          obtain ⟨more, rfl⟩ := List.head?_eq_some_iff.mp second
          exact absurd read (by simp [readToken, isWordStart])
        have alike : readToken numberRun c rest = readToken (List.span isNumberChar) c rest := by
          unfold readToken at read ⊢
          split
          · rfl
          split
          · rfl
          split
          · rfl
          split
          next quote name word number =>
            rw [if_neg quote, if_neg name, if_neg word, if_pos number] at read
            obtain ⟨rfl, -⟩ := Prod.mk.inj (Option.some.inj read)
            have own := plain _ (.head _)
            rw [String.toList_ofList] at own
            rw [numberRun_eq fun dashes => own (dashes.trans (List.suffix_cons c _).isInfix)]
          · rfl
        rw [if_neg inked, if_neg undashed, alike, read]
        have rest := ih found fun run mem => plain run (List.mem_cons_of_mem token mem)
        simp [rest]

variable {expression : String}

theorem sqlTokens_eq (read : checkTokens expression = some tokens)
    (uncommented : Uncommented expression) :
    sqlTokens expression = some tokens :=
  scanSql_eq read (uncommented tokens read)

/-! ### Parentheses around the whole -/

variable {bare tokens' : List SqlToken}

namespace SqlToken

abbrev opening : SqlToken := .symbol "("

abbrev closing : SqlToken := .symbol ")"

/-- Tokens whose parentheses pair up. -/
inductive Balanced : List SqlToken → Prop
  | nil : Balanced []
  | other {token : SqlToken} {rest : List SqlToken} :
      token ≠ opening → token ≠ closing → Balanced rest → Balanced (token :: rest)
  | pair {inner rest : List SqlToken} :
      Balanced inner → Balanced rest → Balanced (opening :: (inner ++ closing :: rest))

def Enclosed (tokens : List SqlToken) : Prop :=
  ∃ inner, tokens = opening :: (inner ++ [closing]) ∧ Balanced inner

/-- What is left after taking away redundant outer parentheses, any number of them. -/
inductive Unparenthesized : List SqlToken → List SqlToken → Prop
  | done (tokens : List SqlToken) : Unparenthesized tokens tokens
  | pair {inner bare : List SqlToken} : Balanced inner → Unparenthesized inner bare →
      Unparenthesized (opening :: (inner ++ [closing])) bare

theorem enclosed_inj {inner inner' : List SqlToken}
    (same : opening :: (inner ++ [closing]) = opening :: (inner' ++ [closing])) : inner = inner' := by
  rw [List.cons.injEq, List.append_cancel_right_eq] at same
  exact same.2

/-- Stripping goes on from wherever it was left. -/
theorem Unparenthesized.onward {some : List SqlToken} (partly : Unparenthesized tokens some)
    (full : Unparenthesized tokens bare) (ended : ¬ Enclosed bare) : Unparenthesized some bare := by
  induction partly with
  | done => exact full
  | @pair inner some balanced _ ih =>
    generalize whole : opening :: (inner ++ [closing]) = tokens at full
    cases full with
    | done => exact absurd ⟨inner, whole.symm, balanced⟩ ended
    | pair _ rest =>
      obtain rfl := enclosed_inj whole
      exact ih rest

theorem Unparenthesized.unique {bare' : List SqlToken} (left : Unparenthesized tokens bare)
    (right : Unparenthesized tokens bare') (ended : ¬ Enclosed bare) (ended' : ¬ Enclosed bare') :
    bare = bare' := by
  cases left.onward right ended' with
  | done => rfl
  | pair balanced _ => exact absurd ⟨_, rfl, balanced⟩ ended

theorem Unparenthesized.proper (stripped : Unparenthesized tokens bare)
    (proper : ∀ token ∈ tokens, token.Proper) :
    ∀ token ∈ bare, token.Proper := by
  induction stripped with
  | done => exact proper
  | pair _ _ ih =>
    exact ih fun token mem =>
      proper token (.tail _ (List.mem_append_left _ mem))

/-! ### The parenthesis loop of the source -/

theorem proper_opening : opening.Proper := by
  change "(" ∈ symbols
  decide

theorem proper_closing : closing.Proper := by
  change ")" ∈ symbols
  decide

theorem spelled_eq_opening {token : SqlToken} (proper : token.Proper) :
    token.spelled = "(" ↔ token = opening :=
  ⟨fun same => symbol_alone proper_opening proper same.symm, fun same => by rw [same]; rfl⟩

theorem spelled_eq_closing {token : SqlToken} (proper : token.Proper) :
    token.spelled = ")" ↔ token = closing :=
  ⟨fun same => symbol_alone proper_closing proper same.symm, fun same => by rw [same]; rfl⟩

variable {depth : Int}

theorem wrapsAll_opening (rest : List String) (inside : 0 ≤ depth) :
    wrapsAll ("(" :: rest) depth = wrapsAll rest (depth + 1) := by
  rw [wrapsAll]
  simp only [if_true]
  rw [if_neg (by omega), if_neg (by omega)]

theorem wrapsAll_closing (rest : List String) (inside : 1 < depth) :
    wrapsAll (")" :: rest) depth = wrapsAll rest (depth - 1) := by
  rw [wrapsAll]
  simp only [if_neg (show ")" ≠ "(" by decide), if_true]
  rw [if_neg (by omega), if_neg (by omega)]

theorem wrapsAll_other {token : String} (unopened : token ≠ "(") (unclosed : token ≠ ")")
    (rest : List String) (inside : 0 < depth) :
    wrapsAll (token :: rest) depth = wrapsAll rest depth := by
  rw [wrapsAll]
  simp only [if_neg unopened, if_neg unclosed]
  rw [if_neg (by omega), if_neg (by omega)]

/-- Inside a pair, balanced tokens leave the depth as it was. -/
theorem wrapsAll_balanced (balanced : Balanced tokens) (proper : ∀ token ∈ tokens, token.Proper)
    (rest : List String) (inside : 0 < depth) :
    wrapsAll (tokens.map spelled ++ rest) depth = wrapsAll rest depth := by
  induction balanced generalizing rest depth with
  | nil => rfl
  | @other token _ unopened unclosed _ ih =>
    have own := proper token (.head _)
    rw [List.map_cons, List.cons_append,
      wrapsAll_other (fun same => unopened ((spelled_eq_opening own).mp same))
        (fun same => unclosed ((spelled_eq_closing own).mp same)) _ inside]
    exact ih (fun other mem => proper other (List.mem_cons_of_mem token mem)) rest inside
  | @pair inner more _ _ ih ih' =>
    have left : ∀ token ∈ inner, token.Proper := fun token mem =>
      proper token (.tail _ (List.mem_append_left _ mem))
    have right : ∀ token ∈ more, token.Proper := fun token mem =>
      proper token (.tail _ (List.mem_append_right _ (.tail _ mem)))
    rw [List.map_cons, List.map_append, List.map_cons, List.cons_append, List.append_assoc,
      List.cons_append]
    change wrapsAll ("(" :: (inner.map spelled ++ ")" :: (more.map spelled ++ rest))) depth = _
    rw [wrapsAll_opening _ (by omega), ih left _ (by omega), wrapsAll_closing _ (by omega),
      show depth + 1 - 1 = depth by omega]
    exact ih' right rest inside

/-- The scan of a text that starts with a parenthesis has an answer, and answers that the
parenthesis encloses the text only when it does. -/
theorem wrapsAll_inside (fuel : Nat) (short : tokens.length ≤ fuel)
    (proper : ∀ token ∈ tokens, token.Proper) (depth : Nat) :
    wrapsAll (tokens.map spelled) (depth + 1) = some false ∨
      ∃ inner rest, wrapsAll (tokens.map spelled) (depth + 1) = some true ∧
        tokens = inner ++ closing :: rest ∧ Balanced inner ∧ (depth = 0 → rest = []) ∧
        (0 < depth → wrapsAll (rest.map spelled) depth = some true) := by
  induction fuel generalizing tokens depth with
  | zero =>
    rw [List.length_eq_zero_iff.mp (Nat.le_zero.mp short)]
    left
    rw [List.map_nil, wrapsAll, beq_eq_false_iff_ne.mpr (by omega)]
  | succ fuel ih =>
    cases tokens with
    | nil =>
      left
      rw [List.map_nil, wrapsAll, beq_eq_false_iff_ne.mpr (by omega)]
    | cons token tokens =>
      have own := proper token (.head _)
      have others : ∀ t ∈ tokens, t.Proper := fun t mem =>
        proper t (List.mem_cons_of_mem token mem)
      have shorter : tokens.length ≤ fuel := by simpa using short
      rw [List.map_cons]
      by_cases opens : token = opening
      · subst opens
        change wrapsAll ("(" :: tokens.map spelled) (depth + 1) = some false ∨
          ∃ inner rest, wrapsAll ("(" :: tokens.map spelled) (depth + 1) = some true ∧ _
        rw [wrapsAll_opening _ (by omega)]
        -- The pair inside ends first, and then the one looked for.
        rcases ih shorter others (depth + 1) with none | ⟨inner, rest, found, rfl, balanced, -, after⟩
        · exact .inl none
        · have least : rest.length ≤ fuel := by
            simp only [List.length_append, List.length_cons] at shorter
            omega
          have kept : ∀ t ∈ rest, t.Proper := fun t mem =>
            others t (List.mem_append_right _ (.tail _ mem))
          have ended := after (by omega)
          rcases ih least kept depth with none | ⟨more, last, -, rfl, balanced', ends⟩
          · rw [Nat.cast_add, Nat.cast_one, none] at ended
            cases ended
          · exact .inr ⟨opening :: (inner ++ closing :: more), last, found, by simp,
              .pair balanced balanced', ends⟩
      by_cases closes : token = closing
      · subst closes
        change wrapsAll (")" :: tokens.map spelled) (depth + 1) = some false ∨
          ∃ inner rest, wrapsAll (")" :: tokens.map spelled) (depth + 1) = some true ∧ _
        cases depth with
        | zero =>
          cases tokens with
          | nil => exact .inr ⟨[], [], rfl, rfl, .nil, fun _ => rfl, fun inside => absurd inside (by omega)⟩
          | cons next more => exact .inl rfl
        | succ depth =>
          rw [wrapsAll_closing _ (by omega)]
          rw [show ((depth + 1 : Nat) : Int) + 1 - 1 = depth + 1 by omega]
          rcases ih shorter others depth with none | ⟨inner, rest, found, whole, balanced, ends, after⟩
          · exact .inl none
          · exact .inr ⟨[], tokens, found, rfl, .nil, nofun, fun _ => by
              rw [Nat.cast_add, Nat.cast_one]
              exact found⟩
      · rw [wrapsAll_other (fun same => opens ((spelled_eq_opening own).mp same))
          (fun same => closes ((spelled_eq_closing own).mp same)) _ (by omega)]
        rcases ih shorter others depth with none | ⟨inner, rest, found, rfl, balanced, ends⟩
        · exact .inl none
        · exact .inr ⟨token :: inner, rest, found, rfl, .other opens closes balanced, ends⟩

/-- The loop of the source always ends with an answer: the tokens without any pair around
all of them. -/
theorem unwrapTokens_eq {fuel : Nat} (short : tokens.length ≤ fuel)
    (proper : ∀ token ∈ tokens, token.Proper) :
    ∃ bare, unwrapTokens fuel (tokens.map spelled) = some (bare.map spelled) ∧
      Unparenthesized tokens bare ∧ ¬ Enclosed bare := by
  induction fuel generalizing tokens with
  | zero =>
    rw [List.length_eq_zero_iff.mp (Nat.le_zero.mp short)]
    refine ⟨[], rfl, .done [], ?_⟩
    rintro ⟨inner, whole, -⟩
    cases whole
  | succ fuel ih =>
    have kept (unenclosed : ¬ Enclosed tokens)
        (same : unwrapTokens (fuel + 1) (tokens.map spelled) = some (tokens.map spelled)) :
        ∃ bare, unwrapTokens (fuel + 1) (tokens.map spelled) = some (bare.map spelled) ∧
          Unparenthesized tokens bare ∧ ¬ Enclosed bare := ⟨tokens, same, .done tokens, unenclosed⟩
    by_cases ends : (tokens.map spelled).head? ≠ some "(" ∨ (tokens.map spelled).getLast? ≠ some ")"
    · refine kept ?_ (by rw [unwrapTokens, if_pos ends])
      rintro ⟨inner, rfl, -⟩
      rw [← List.cons_append, List.map_append, List.getLast?_append] at ends
      simp [spelled] at ends
    · -- The first token is a parenthesis, so the scan has an answer.
      obtain ⟨first, last⟩ := not_or.mp ends
      rw [not_not] at first last
      have head : ∃ rest, tokens = opening :: rest := by
        cases tokens with
        | nil => cases first
        | cons token rest =>
          have own := proper token (.head _)
          exact ⟨rest, by rw [(spelled_eq_opening own).mp (Option.some.inj first)]⟩
      obtain ⟨rest, rfl⟩ := head
      have others : ∀ t ∈ rest, t.Proper := fun t mem => proper t (.tail _ mem)
      have scanned : wrapsAll ((opening :: rest).map spelled) 0 = wrapsAll (rest.map spelled) (0 + 1) := by
        change wrapsAll ("(" :: rest.map spelled) 0 = _
        exact wrapsAll_opening _ le_rfl
      rw [unwrapTokens, if_neg ends, scanned]
      rcases wrapsAll_inside rest.length le_rfl others 0 with none | ⟨inner, left, found, rfl, balanced, ended, -⟩
      · rw [show ((0 : Int) + 1) = ((0 : Nat) : Int) + 1 from rfl, none]
        refine ⟨opening :: rest, rfl, .done _, ?_⟩
        rintro ⟨inner, whole, balanced⟩
        obtain rfl := (List.cons.inj whole).2
        have closed := wrapsAll_balanced balanced
          (fun t mem => others t (List.mem_append_left _ mem)) [")"] (show (0 : Int) < 1 by omega)
        rw [List.map_append] at none
        change wrapsAll (inner.map spelled ++ [")"]) (0 + 1) = some false at none
        rw [zero_add, closed] at none
        cases none
      · obtain rfl := ended rfl
        rw [show ((0 : Int) + 1) = ((0 : Nat) : Int) + 1 from rfl, found]
        simp only [List.length_cons, List.length_append, List.length_nil] at short
        obtain ⟨bare, unwrapped, stripped, unenclosed⟩ := ih (show inner.length ≤ fuel by omega)
          fun t mem => others t (List.mem_append_left _ mem)
        refine ⟨bare, ?_, .pair balanced stripped, unenclosed⟩
        have middle : ((opening :: (inner ++ [closing])).map spelled).tail.dropLast =
            inner.map spelled := by
          rw [List.map_cons, List.tail_cons, List.map_append, List.map_singleton,
            List.dropLast_concat]
        rw [middle, ← unwrapped]
        rfl

/-! ### Tokens that are alike -/

variable {keyword : String → Prop}

theorem Alike.parenthesis {sign : String} {token : SqlToken}
    (alike : (SqlToken.symbol sign).Alike keyword token) : token = .symbol sign := by
  cases token with
  | symbol sign' => rw [show sign = sign' from alike]
  | text _ | quoted _ | word _ | number _ => cases alike

theorem forall₂_append_left {α β : Type} {R : α → β → Prop} {xs ys : List α} {zs : List β}
    (related : List.Forall₂ R (xs ++ ys) zs) :
    ∃ us vs, zs = us ++ vs ∧ List.Forall₂ R xs us ∧ List.Forall₂ R ys vs := by
  induction xs generalizing zs with
  | nil => exact ⟨[], zs, rfl, .nil, related⟩
  | cons x xs ih =>
    cases related with
    | cons first rest =>
      obtain ⟨us, vs, rfl, left, right⟩ := ih rest
      exact ⟨_ :: us, vs, rfl, .cons first left, right⟩

theorem balanced_alike (balanced : Balanced tokens)
    (alike : List.Forall₂ (SqlToken.Alike keyword) tokens tokens') : Balanced tokens' := by
  induction balanced generalizing tokens' with
  | nil =>
    cases alike
    exact .nil
  | other unopened unclosed _ ih =>
    cases alike with
    | cons first rest =>
      refine .other ?_ ?_ (ih rest)
      · rintro rfl
        exact unopened first.symm.parenthesis
      · rintro rfl
        exact unclosed first.symm.parenthesis
  | @pair inner more _ _ ih ih' =>
    cases alike with
    | @cons _ first _ others head tail =>
      obtain rfl := head.parenthesis
      obtain ⟨left, right, rfl, within, after⟩ := forall₂_append_left tail
      cases after with
      | cons close rest =>
        obtain rfl := close.parenthesis
        exact .pair (ih within) (ih' rest)

theorem enclosed_alike (alike : List.Forall₂ (SqlToken.Alike keyword) tokens tokens')
    (enclosed : Enclosed tokens) :
    Enclosed tokens' := by
  obtain ⟨inner, rfl, balanced⟩ := enclosed
  cases alike with
  | cons head tail =>
    obtain rfl := head.parenthesis
    obtain ⟨left, right, rfl, within, after⟩ := forall₂_append_left tail
    cases after with
    | cons close rest =>
      obtain rfl := close.parenthesis
      cases rest
      exact ⟨left, rfl, balanced_alike balanced within⟩

/-- What is alike is stripped alike. -/
theorem Unparenthesized.alike (stripped : Unparenthesized tokens bare)
    (alike : List.Forall₂ (SqlToken.Alike keyword) tokens tokens') :
    ∃ bare', Unparenthesized tokens' bare' ∧ List.Forall₂ (SqlToken.Alike keyword) bare bare' := by
  induction stripped generalizing tokens' with
  | done => exact ⟨tokens', .done tokens', alike⟩
  | pair balanced _ ih =>
    cases alike with
    | cons head tail =>
      obtain rfl := head.parenthesis
      obtain ⟨left, right, rfl, within, after⟩ := forall₂_append_left tail
      cases after with
      | cons close rest =>
        obtain rfl := close.parenthesis
        cases rest
        obtain ⟨bare', stripped', related⟩ := ih within
        exact ⟨bare', .pair (balanced_alike balanced within) stripped', related⟩

theorem forall₂_symm (alike : List.Forall₂ (SqlToken.Alike keyword) tokens tokens') :
    List.Forall₂ (SqlToken.Alike keyword) tokens' tokens := by
  induction alike with
  | nil => exact .nil
  | cons first _ ih => exact .cons first.symm ih

end SqlToken

/-! ### Equivalent expressions -/

open SqlToken

/-- The same SQL tokens, up to parentheses around the whole. -/
def SameCheck (keyword : String → Prop) (expression expression' : String) : Prop :=
  ∃ tokens tokens' bare bare', sqlTokens expression = some tokens ∧
    sqlTokens expression' = some tokens' ∧ Unparenthesized tokens bare ∧
    Unparenthesized tokens' bare' ∧ List.Forall₂ (SqlToken.Alike keyword) bare bare'

/-- The tokens of an expression without any pair of parentheses around all of them. -/
def BareTokens (expression : String) (bare : List SqlToken) : Prop :=
  ∃ tokens, checkTokens expression = some tokens ∧ Unparenthesized tokens bare ∧ ¬ Enclosed bare

def Clash (keyword : String → Prop) (expression expression' : String) : Prop :=
  ∃ bare bare', BareTokens expression bare ∧ BareTokens expression' bare' ∧
    ∃ pair ∈ bare.zip bare', pair.1.Mistaken keyword pair.2

theorem canonicalCheckTokens_eq {spellings : List String}
    (canonical : canonicalCheckTokens expression = some spellings) :
    ∃ bare, BareTokens expression bare ∧ spellings = bare.map spelled ∧
      ∀ token ∈ bare, token.Proper := by
  obtain ⟨scanned, found, unwrapped⟩ := Option.bind_eq_some_iff.mp canonical
  rw [scanCheckTokens_eq] at found
  obtain ⟨tokens, read, rfl⟩ := Option.map_eq_some_iff.mp found
  have proper := scanTokens_proper read
  rw [List.length_map] at unwrapped
  obtain ⟨bare, same, stripped, ended⟩ := unwrapTokens_eq le_rfl proper
  rw [same] at unwrapped
  exact ⟨bare, ⟨tokens, read, stripped, ended⟩, (Option.some.inj unwrapped).symm,
    stripped.proper proper⟩

theorem forall₂_alike_iff (keyword : String → Prop)
    (same : tokens.map spelled = tokens'.map spelled) (proper : ∀ token ∈ tokens, token.Proper)
    (proper' : ∀ token ∈ tokens', token.Proper) :
    List.Forall₂ (SqlToken.Alike keyword) tokens tokens' ↔
      ¬ ∃ pair ∈ tokens.zip tokens', pair.1.Mistaken keyword pair.2 := by
  induction tokens generalizing tokens' with
  | nil =>
    obtain rfl := List.map_eq_nil_iff.mp same.symm
    simp
  | cons token rest ih =>
    cases tokens' with
    | nil => cases same
    | cons token' rest' =>
      rw [List.map_cons, List.map_cons, List.cons.injEq] at same
      have first := alike_iff keyword (proper token (.head _))
        (proper' token' (.head _)) same.1
      have others := ih same.2 (fun t mem => proper t (List.mem_cons_of_mem token mem))
        fun t mem => proper' t (List.mem_cons_of_mem token' mem)
      rw [List.forall₂_cons, first, others, ← not_or]
      simp

/-- Expressions that compare equal are the same SQL exactly if no quoted identifier stands
against a keyword or a number. -/
theorem sameCheck_iff (keyword : String → Prop) {expression' : String} {spellings : List String}
    (canonical : canonicalCheckTokens expression = some spellings)
    (canonical' : canonicalCheckTokens expression' = some spellings)
    (uncommented : Uncommented expression) (uncommented' : Uncommented expression') :
    SameCheck keyword expression expression' ↔ ¬ Clash keyword expression expression' := by
  obtain ⟨bare, ⟨tokens, read, stripped, ended⟩, rfl, proper⟩ := canonicalCheckTokens_eq canonical
  obtain ⟨bare', ⟨tokens', read', stripped', ended'⟩, same, proper'⟩ :=
    canonicalCheckTokens_eq canonical'
  have alike := forall₂_alike_iff keyword same proper proper'
  have sql := sqlTokens_eq read uncommented
  have sql' := sqlTokens_eq read' uncommented'
  constructor
  · rintro ⟨first, second, left, right, found, found', partly, partly', related⟩ clash
    obtain rfl : tokens = first := Option.some.inj (sql.symm.trans found)
    obtain rfl : tokens' = second := Option.some.inj (sql'.symm.trans found')
    -- Stripping both on keeps them alike.
    obtain ⟨whole, onward, matched⟩ := (partly.onward stripped ended).alike related
    have unenclosed : ¬ Enclosed whole := fun enclosed =>
      ended (enclosed_alike (forall₂_symm matched) enclosed)
    obtain rfl : bare' = whole :=
      (partly'.onward stripped' ended').unique onward ended' unenclosed
    obtain ⟨own, own', ⟨_, readOwn, strippedOwn, endedOwn⟩, ⟨_, readOwn', strippedOwn', endedOwn'⟩,
      mistaken⟩ := clash
    obtain rfl := Option.some.inj (read.symm.trans readOwn)
    obtain rfl := Option.some.inj (read'.symm.trans readOwn')
    rw [strippedOwn.unique stripped endedOwn ended,
      strippedOwn'.unique stripped' endedOwn' ended'] at mistaken
    exact alike.mp matched mistaken
  · intro clean
    refine ⟨tokens, tokens', bare, bare', sql, sql', stripped, stripped', alike.mpr fun mistaken => ?_⟩
    exact clean ⟨bare, bare', ⟨tokens, read, stripped, ended⟩, ⟨tokens', read', stripped', ended'⟩,
      mistaken⟩

/-! ### Equivalent constraint lists -/

/-- A rearranged image is the image of a rearrangement. -/
theorem exists_perm_map {α β : Type} {f : α → β} {ys : List β} {xs : List α}
    (rearranged : ys.Perm (xs.map f)) : ∃ xs' : List α, xs'.Perm xs ∧ ys = xs'.map f := by
  induction ys generalizing xs with
  | nil =>
    obtain rfl := List.map_eq_nil_iff.mp rearranged.symm.eq_nil
    exact ⟨[], .nil, rfl⟩
  | cons y ys ih =>
    obtain ⟨x, mem, rfl⟩ := List.mem_map.mp (rearranged.subset (.head _))
    obtain ⟨before, after, rfl⟩ := List.append_of_mem mem
    have middle : (before ++ x :: after).Perm (x :: (before ++ after)) := List.perm_middle
    obtain ⟨rest, others, rfl⟩ := ih (rearranged.trans (middle.map f)).cons_inv
    exact ⟨x :: rest, (others.cons x).trans middle.symm, rfl⟩

theorem forall₂_of_map_eq {α β γ : Type} {f : α → γ} {g : β → γ} {xs : List α} {ys : List β}
    (same : xs.map f = ys.map g) : List.Forall₂ (fun x y => f x = g y) xs ys := by
  rw [← List.forall₂_map_right_iff, ← List.forall₂_map_left_iff, same]
  exact List.forall₂_same.mpr fun _ _ => rfl

theorem canonicalChecks_eq_some {constraints : List CheckConstraintModel}
    {values : List (List String)} (canonical : canonicalChecks constraints = some values) :
    (constraints.map fun constraint => canonicalCheckTokens constraint.expression).Perm
      (values.map some) := by
  obtain ⟨all, mapped, same⟩ := Option.bind_eq_some_iff.mp canonical
  obtain rfl := Option.some.inj same
  have each : constraints.map (fun constraint => canonicalCheckTokens constraint.expression) =
      all.map some := by
    clear canonical same
    induction constraints generalizing all with
    | nil =>
      obtain rfl := Option.some.inj mapped
      rfl
    | cons constraint rest ih =>
      rw [List.mapM_cons] at mapped
      obtain ⟨value, own, onward⟩ := Option.bind_eq_some_iff.mp mapped
      obtain ⟨others, found, same⟩ := Option.bind_eq_some_iff.mp onward
      obtain rfl := Option.some.inj same
      rw [List.map_cons, List.map_cons, own, ih others found]
  rw [each]
  exact (List.perm_insertionSort _ all).symm.map some

/-- Constraint lists that are reported equivalent pair up, and the expressions of a pair
compare equal. -/
theorem checkConstraintsEquivalent_paired {current target : List CheckConstraintModel}
    (equivalent : checkConstraintsEquivalent current target = true) :
    ∃ target', target'.Perm target ∧ List.Forall₂ (fun c t => c.expression = t.expression ∨
      ∃ spellings, canonicalCheckTokens c.expression = some spellings ∧
        canonicalCheckTokens t.expression = some spellings) current target' := by
  have identical (same : (current == target) = true) :
      ∃ target', target'.Perm target ∧ List.Forall₂ (fun c t => c.expression = t.expression ∨
        ∃ spellings, canonicalCheckTokens c.expression = some spellings ∧
          canonicalCheckTokens t.expression = some spellings) current target' := by
    obtain rfl := eq_of_beq same
    exact ⟨current, .refl current, List.forall₂_same.mpr fun c _ => .inl rfl⟩
  cases left : canonicalChecks current with
  | none =>
    rw [checkConstraintsEquivalent, left] at equivalent
    exact identical equivalent
  | some values =>
    cases right : canonicalChecks target with
    | none =>
      rw [checkConstraintsEquivalent, left, right] at equivalent
      exact identical equivalent
    | some values' =>
      rw [checkConstraintsEquivalent, left, right] at equivalent
      obtain rfl : values = values' := eq_of_beq equivalent
      have own := canonicalChecks_eq_some left
      obtain ⟨target', rearranged, paired⟩ :=
        exists_perm_map (own.trans (canonicalChecks_eq_some right).symm)
      refine ⟨target', rearranged, ?_⟩
      have lists := forall₂_of_map_eq paired
      have all : ∀ c ∈ current, ∃ spellings, canonicalCheckTokens c.expression = some spellings := by
        intro c mem
        have listed : canonicalCheckTokens c.expression ∈ values.map some :=
          own.subset (List.mem_map.mpr ⟨c, mem, rfl⟩)
        obtain ⟨spellings, -, found⟩ := List.mem_map.mp listed
        exact ⟨spellings, found.symm⟩
      refine List.Forall₂.imp ?_ ((List.forall₂_and_left current target').mpr ⟨all, lists⟩)
      rintro c t ⟨⟨spellings, found⟩, same⟩
      exact .inr ⟨spellings, found, same.symm.trans found⟩

theorem unparenthesized_bare (first : tokens.head? ≠ some opening)
    (stripped : Unparenthesized tokens bare) : bare = tokens := by
  cases stripped with
  | done => rfl
  | pair => exact absurd rfl first

end GraphqlOrm.Schema
