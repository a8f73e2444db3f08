import GraphqlOrm.Foundation.Slices
import GraphqlOrm.Schema.Compare

/-!
# Canonical default expressions

What canonicalising a column default does to the text: it takes away blanks and pairs of
parentheses around the whole expression, respells a few keywords, and nothing else.

## Main result

`canonical_defaults`: canonicalising ends without slicing inside a character, changes
nothing the second time, and forgets exactly the parentheses that enclose the expression.
-/
namespace GraphqlOrm.Schema

open Text

/-! ### Balanced text -/

/-- Text whose parentheses pair up outside quotes, and whose quotes are closed. A doubled
quote is one literal that closes and another that opens. -/
inductive Balanced : List Char → Prop
  | nil : Balanced []
  | plain {c : Char} {rest : List Char} :
      c ≠ '\'' ∧ c ≠ '"' ∧ c ≠ '(' ∧ c ≠ ')' → Balanced rest → Balanced (c :: rest)
  | quoted {quote : Char} {body rest : List Char} :
      quote = '\'' ∨ quote = '"' → quote ∉ body → Balanced rest →
      Balanced (quote :: (body ++ quote :: rest))
  | pair {inner rest : List Char} :
      Balanced inner → Balanced rest → Balanced ('(' :: (inner ++ ')' :: rest))

variable {cs : List Char}

theorem Balanced.append {ds : List Char} (balanced : Balanced cs) (more : Balanced ds) :
    Balanced (cs ++ ds) := by
  induction balanced with
  | nil => exact more
  | plain plain _ ih => exact .plain plain ih
  | quoted delimiter closed _ ih =>
    rw [List.cons_append, List.append_assoc, List.cons_append]
    exact .quoted delimiter closed ih
  | pair inner _ _ ih =>
    rw [List.cons_append, List.append_assoc, List.cons_append]
    exact .pair inner ih

theorem balanced_blank {space : List Char} (blank : ∀ c ∈ space, isWhitespace c = true) :
    Balanced space := by
  induction space with
  | nil => exact .nil
  | cons c rest ih =>
    have white := blank c (.head _)
    refine .plain ⟨?_, ?_, ?_, ?_⟩ (ih fun d mem => blank d (List.mem_cons_of_mem c mem))
    all_goals
      rintro rfl
      exact absurd white (by decide)

/-! ### The scan for an enclosing pair -/

attribute [local grind =] parenthesesClose

theorem parenthesesClose_body {quote : Char} {body : List Char} (closed : quote ∉ body)
    (rest : List Char) (depth : Int) :
    parenthesesClose (body ++ quote :: rest) (some quote) depth =
      parenthesesClose rest none depth := by
  induction body with
  | nil => simp [parenthesesClose]
  | cons c body ih =>
    have other : c ≠ quote := fun same => closed (same ▸ .head _)
    rw [List.cons_append, parenthesesClose, if_neg other]
    exact ih fun mem => closed (List.mem_cons_of_mem c mem)

/-- Inside a pair, balanced text leaves the depth as it was. -/
theorem parenthesesClose_balanced (balanced : Balanced cs) (rest : List Char) {depth : Int}
    (inside : 0 < depth) :
    parenthesesClose (cs ++ rest) none depth = parenthesesClose rest none depth := by
  induction balanced generalizing rest depth with
  | nil => rfl
  | plain plain _ ih =>
    rw [List.cons_append, parenthesesClose, if_neg (by simp [plain.1, plain.2.1]),
      if_neg plain.2.2.1, if_neg plain.2.2.2]
    exact ih rest inside
  | quoted delimiter closed _ ih =>
    rw [List.cons_append, parenthesesClose, if_pos delimiter, List.append_assoc, List.cons_append,
      parenthesesClose_body closed]
    exact ih rest inside
  | pair _ _ ih ih' =>
    rw [List.cons_append, parenthesesClose, if_neg (by decide), if_pos rfl, List.append_assoc,
      List.cons_append, ih _ (by omega), parenthesesClose, if_neg (by decide), if_neg (by decide),
      if_pos rfl, if_neg (by omega), if_neg (by omega), show depth + 1 - 1 = depth by omega]
    exact ih' rest inside

/-- A scan that ends well inside a pair found the end of the literal it was in. -/
theorem exists_quote_end {quote : Char} {depth : Int} (inside : depth ≠ 0)
    (closes : parenthesesClose cs (some quote) depth = true) : ∃ body rest,
      cs = body ++ quote :: rest ∧ quote ∉ body ∧ parenthesesClose rest none depth = true := by
  induction cs with
  | nil =>
    rw [parenthesesClose, beq_iff_eq] at closes
    exact absurd closes inside
  | cons c cs ih =>
    rw [parenthesesClose] at closes
    split at closes
    next same => exact ⟨[], cs, by rw [same]; rfl, List.not_mem_nil, closes⟩
    next other =>
      obtain ⟨body, rest, rfl, closed, after⟩ := ih closes
      refine ⟨c :: body, rest, rfl, ?_, after⟩
      rintro (_ | ⟨_, mem⟩)
      · exact other rfl
      · exact closed mem

/-- A scan that ends well at some depth met the parenthesis that closes the innermost pair,
and at the outermost one the text ends. -/
theorem exists_pair_end (fuel : Nat) (short : cs.length ≤ fuel) {depth : Nat}
    (closes : parenthesesClose cs none (depth + 1) = true) : ∃ inner rest,
      cs = inner ++ ')' :: rest ∧ Balanced inner ∧ (depth = 0 → rest = []) ∧
        (0 < depth → parenthesesClose rest none depth = true) := by
  induction fuel generalizing cs depth with
  | zero =>
    rw [List.length_eq_zero_iff.mp (Nat.le_zero.mp short), parenthesesClose, beq_iff_eq] at closes
    omega
  | succ fuel ih =>
    cases cs with
    | nil =>
      rw [parenthesesClose, beq_iff_eq] at closes
      omega
    | cons c cs =>
      have shorter : cs.length ≤ fuel := by simpa using short
      rw [parenthesesClose] at closes
      split at closes
      next delimiter =>
        obtain ⟨body, rest, rfl, closed, after⟩ := exists_quote_end (by omega) closes
        have least : rest.length ≤ fuel := by
          simp only [List.length_append, List.length_cons] at shorter
          omega
        obtain ⟨inner, last, rfl, balanced, ends⟩ := ih least after
        exact ⟨c :: (body ++ c :: inner), last, by simp, .quoted delimiter closed balanced, ends⟩
      next unquoted =>
        split at closes
        next opening =>
          -- A pair inside: its own end first, then the one looked for.
          obtain ⟨inner, rest, rfl, balanced, -, after⟩ := @ih _ shorter (depth + 1) closes
          have least : rest.length ≤ fuel := by
            simp only [List.length_append, List.length_cons] at shorter
            omega
          obtain ⟨more, last, rfl, balanced', ends⟩ := ih least (after (by omega))
          exact ⟨c :: (inner ++ ')' :: more), last, by simp, opening ▸ .pair balanced balanced', ends⟩
        next unopened =>
          split at closes
          next closing =>
            rw [show (depth : Int) + 1 - 1 = depth by omega] at closes
            refine ⟨[], cs, by rw [closing]; rfl, .nil, ?_, ?_⟩
            · rintro rfl
              by_contra some
              rw [if_pos ⟨rfl, some⟩] at closes
              cases closes
            · intro inside
              rwa [if_neg (by omega), if_neg (by omega)] at closes
          next unclosed =>
            obtain ⟨inner, rest, rfl, balanced, ends⟩ := ih shorter closes
            refine ⟨c :: inner, rest, rfl, .plain ⟨?_, ?_, unopened, unclosed⟩ balanced, ends⟩
            · exact fun same => unquoted (.inl same)
            · exact fun same => unquoted (.inr same)

variable {value : List Char}

/-- The test of the source: a pair of parentheses around balanced text. -/
theorem isFullyParenthesized_iff :
    isFullyParenthesized value = true ↔
      ∃ inner, value = '(' :: (inner ++ [')']) ∧ Balanced inner := by
  constructor
  · intro enclosed
    simp only [isFullyParenthesized, Bool.and_eq_true, beq_iff_eq] at enclosed
    obtain ⟨⟨⟨-, first⟩, -⟩, closes⟩ := enclosed
    obtain ⟨rest, rfl⟩ := List.head?_eq_some_iff.mp first
    rw [parenthesesClose, if_neg (by decide), if_pos rfl] at closes
    obtain ⟨inner, last, rfl, balanced, ends, -⟩ := @exists_pair_end _ _ le_rfl 0 closes
    rw [ends rfl]
    exact ⟨inner, rfl, balanced⟩
  · rintro ⟨inner, rfl, balanced⟩
    have closes : parenthesesClose ('(' :: (inner ++ [')'])) none 0 = true := by
      rw [parenthesesClose, if_neg (by decide), if_pos rfl,
        parenthesesClose_balanced balanced _ (by omega)]
      rfl
    simp [isFullyParenthesized, closes, List.getLast?_cons]

instance (cs : List Char) : Decidable (Balanced cs) :=
  decidable_of_iff (isFullyParenthesized ('(' :: (cs ++ [')'])) = true) <| by
    rw [isFullyParenthesized_iff]
    constructor
    · rintro ⟨inner, same, balanced⟩
      rw [List.cons.injEq, List.append_cancel_right_eq] at same
      exact same.2 ▸ balanced
    · intro balanced
      exact ⟨cs, rfl, balanced⟩

/-- The parenthesis that closes the opening one is met once: text that is balanced up to
a closing parenthesis is balanced up to no other. -/
theorem Balanced.closes_once {inner other rest : List Char} (balanced : Balanced inner)
    (balanced' : Balanced other) (same : inner ++ [')'] = other ++ ')' :: rest) : rest = [] := by
  have enclosed : isFullyParenthesized ('(' :: (inner ++ [')'])) = true :=
    isFullyParenthesized_iff.mpr ⟨inner, rfl, balanced⟩
  simp only [isFullyParenthesized, Bool.and_eq_true] at enclosed
  have closes := enclosed.2
  rw [parenthesesClose, if_neg (by decide), if_pos rfl, same,
    parenthesesClose_balanced balanced' _ (by omega), parenthesesClose, if_neg (by decide),
    if_neg (by decide), if_pos rfl] at closes
  by_contra some
  rw [if_pos ⟨rfl, some⟩] at closes
  cases closes

/-! ### The stripping loop -/

def strip (cs : List Char) : List Char :=
  stripParentheses (trimList isWhitespace cs).length (trimList isWhitespace cs)

theorem length_trimList_le (cs : List Char) : (trimList isWhitespace cs).length ≤ cs.length := by
  obtain ⟨before, after, whole, -⟩ := exists_trimList (p := isWhitespace) cs
  have size := congrArg List.length whole
  simp only [List.length_append] at size
  omega

/-- Any fuel from the length on gives the same. -/
theorem stripParentheses_enough {fuel fuel' : Nat} (enough : value.length ≤ fuel)
    (enough' : value.length ≤ fuel') :
    stripParentheses fuel value = stripParentheses fuel' value := by
  induction fuel generalizing fuel' value with
  | zero =>
    rw [List.length_eq_zero_iff.mp (Nat.le_zero.mp enough)]
    cases fuel' <;> rfl
  | succ fuel ih =>
    cases fuel' with
    | zero =>
      rw [List.length_eq_zero_iff.mp (Nat.le_zero.mp enough')]
      rfl
    | succ fuel' =>
      rw [stripParentheses, stripParentheses]
      have shorter := length_trimList_le value.tail.dropLast
      simp only [List.length_dropLast, List.length_tail] at shorter
      rw [ih (by omega) (show _ ≤ fuel' by omega)]

theorem strip_spaced {before after : List Char} (front : ∀ c ∈ before, isWhitespace c = true)
    (back : ∀ c ∈ after, isWhitespace c = true) (cs : List Char) :
    strip (before ++ cs ++ after) = strip cs := by
  rw [strip, trimList_append front back, strip]

theorem trimmed_enclosed (cs : List Char) : Trimmed isWhitespace ('(' :: (cs ++ [')'])) := by
  constructor
  · simp only [List.head?_cons, Option.mem_def, Option.some.injEq]
    rintro c rfl
    decide
  · simp only [← List.cons_append, List.getLast?_append, List.getLast?_singleton, Option.some_or,
      Option.mem_def, Option.some.injEq]
    rintro c rfl
    decide

/-- An enclosing pair is forgotten. -/
theorem strip_enclosed (balanced : Balanced cs) :
    strip ('(' :: (cs ++ [')'])) = strip cs := by
  have shorter := length_trimList_le cs
  rw [strip, trimList_of_trimmed (trimmed_enclosed cs), List.length_cons, stripParentheses,
    if_pos (isFullyParenthesized_iff.mpr ⟨cs, rfl, balanced⟩), List.tail_cons, List.dropLast_concat]
  exact stripParentheses_enough (by simp; omega) le_rfl

/-- Parentheses that do not enclose the text stay. -/
theorem strip_unbalanced (unbalanced : ¬ Balanced cs) :
    strip ('(' :: (cs ++ [')'])) = '(' :: (cs ++ [')']) := by
  rw [strip, trimList_of_trimmed (trimmed_enclosed cs), List.length_cons, stripParentheses, if_neg]
  rw [isFullyParenthesized_iff]
  rintro ⟨inner, same, balanced⟩
  rw [List.cons.injEq, List.append_cancel_right_eq] at same
  exact unbalanced (same.2 ▸ balanced)

/-- What remains after taking blanks and enclosing pairs away, one at a time. -/
inductive Unwraps : List Char → List Char → Prop
  | done (cs : List Char) : Unwraps cs cs
  | blanks {before cs after left : List Char} : (∀ c ∈ before, isWhitespace c = true) →
      (∀ c ∈ after, isWhitespace c = true) → Unwraps cs left → Unwraps (before ++ cs ++ after) left
  | pair {cs left : List Char} : Balanced cs → Unwraps cs left → Unwraps ('(' :: (cs ++ [')'])) left

theorem unwraps_stripParentheses (fuel : Nat) (value : List Char) :
    Unwraps value (stripParentheses fuel value) := by
  induction fuel generalizing value with
  | zero => exact .done value
  | succ fuel ih =>
    rw [stripParentheses]
    split
    next enclosed =>
      obtain ⟨inner, rfl, balanced⟩ := isFullyParenthesized_iff.mp enclosed
      apply Unwraps.pair balanced
      rw [List.tail_cons, List.dropLast_concat]
      obtain ⟨before, after, whole, front, back⟩ := exists_trimList (p := isWhitespace) inner
      conv_lhs => rw [whole]
      exact .blanks front back (ih _)
    next => exact .done value

theorem unwraps_strip (cs : List Char) : Unwraps cs (strip cs) := by
  obtain ⟨before, after, whole, front, back⟩ := exists_trimList (p := isWhitespace) cs
  conv_lhs => rw [whole]
  exact .blanks front back (unwraps_stripParentheses _ _)

theorem Unwraps.length_le {left : List Char} (unwraps : Unwraps cs left) :
    left.length ≤ cs.length := by
  induction unwraps with
  | done => exact le_rfl
  | blanks _ _ _ ih => simp only [List.length_append]; omega
  | pair _ _ ih => simp only [List.length_cons, List.length_append]; omega

/-- What the loop leaves has no blank end and no enclosing pair. -/
theorem stripParentheses_stripped {fuel : Nat} (enough : value.length ≤ fuel)
    (trimmed : Trimmed isWhitespace value) :
    Trimmed isWhitespace (stripParentheses fuel value) ∧
      isFullyParenthesized (stripParentheses fuel value) = false := by
  induction fuel generalizing value with
  | zero =>
    rw [List.length_eq_zero_iff.mp (Nat.le_zero.mp enough)] at trimmed ⊢
    exact ⟨trimmed, rfl⟩
  | succ fuel ih =>
    rw [stripParentheses]
    split
    next enclosed =>
      have shorter := length_trimList_le value.tail.dropLast
      simp only [List.length_dropLast, List.length_tail] at shorter
      exact ih (by omega) (trimmed_trimList _)
    next other => exact ⟨trimmed, by simpa using other⟩

theorem strip_strip (cs : List Char) : strip (strip cs) = strip cs := by
  obtain ⟨trimmed, bare⟩ := stripParentheses_stripped (le_refl (trimList isWhitespace cs).length)
    (trimmed_trimList cs)
  change Trimmed isWhitespace (strip cs) at trimmed
  change isFullyParenthesized (strip cs) = false at bare
  rw [strip, trimList_of_trimmed trimmed]
  cases (strip cs).length with
  | zero => rfl
  | succ fuel => rw [stripParentheses, bare]; rfl

/-! ### Keywords -/

theorem canonicalizeColumnDefaultExpression_eq (expression : String) :
    canonicalizeColumnDefaultExpression expression =
      keywordSpelling (String.ofList (strip expression.toList)) := rfl

/-- A bare text is either respelled to a text that stays as it is, or kept. -/
theorem keywordSpelling_cases (value : String) :
    canonicalizeColumnDefaultExpression (keywordSpelling value) = keywordSpelling value ∨
      keywordSpelling value = value := by
  unfold keywordSpelling
  split
  · exact .inl (by decide)
  split
  next keyword =>
    simp only [List.mem_cons, List.not_mem_nil, or_false] at keyword
    rcases keyword with same | same | same | same <;> rw [same] <;> exact .inl (by decide)
  split
  next boolean =>
    simp only [List.mem_cons, List.not_mem_nil, or_false] at boolean
    rcases boolean with same | same <;> rw [← lower_upper, same] <;> exact .inl (by decide)
  · exact .inr rfl

theorem canonicalizeColumnDefaultExpression_idem (expression : String) :
    canonicalizeColumnDefaultExpression (canonicalizeColumnDefaultExpression expression) =
      canonicalizeColumnDefaultExpression expression := by
  rw [canonicalizeColumnDefaultExpression_eq expression]
  rcases keywordSpelling_cases (String.ofList (strip expression.toList)) with fixed | kept
  · exact fixed
  · rw [kept, canonicalizeColumnDefaultExpression_eq, String.toList_ofList, strip_strip, kept]

/-! ### Slices -/

/-- The loop of the source with its slice at byte offsets, which stops the program when it
falls inside a character; also without an answer when the rounds run out. -/
def stripSliced : Nat → List Char → Option (List Char)
  | rounds, value =>
    if isFullyParenthesized value then
      match rounds with
      | 0 => none
      | rounds + 1 => do
        let inner ← slice value 1 (byteLength value - 1)
        stripSliced rounds (trimList isWhitespace inner)
    else some value

def canonicalizeSliced (expression : String) : Option String := do
  let trimmed := trimList isWhitespace expression.toList
  return keywordSpelling (String.ofList (← stripSliced trimmed.length trimmed))

theorem slice_enclosed (inner : List Char) :
    slice ('(' :: (inner ++ [')'])) 1 (byteLength ('(' :: (inner ++ [')'])) - 1) = some inner := by
  have cut := slice_append ['('] inner [')']
  have first : byteLength ['('] = 1 := rfl
  have last : byteLength [')'] = 1 := rfl
  rw [byteLength_cons, byteLength_append, last]
  rw [first] at cut
  exact cut

theorem stripSliced_eq {rounds : Nat} (enough : value.length ≤ rounds) :
    stripSliced rounds value = some (stripParentheses rounds value) := by
  induction rounds generalizing value with
  | zero =>
    rw [List.length_eq_zero_iff.mp (Nat.le_zero.mp enough)]
    rfl
  | succ rounds ih =>
    rw [stripSliced, stripParentheses]
    split
    next enclosed =>
      -- The first and the last character are parentheses, so both offsets are boundaries.
      obtain ⟨inner, rfl, -⟩ := isFullyParenthesized_iff.mp enclosed
      have shorter := length_trimList_le inner
      simp only [List.length_cons, List.length_append, List.length_nil] at enough
      rw [slice_enclosed, Option.bind_eq_bind, Option.bind_some, ih (by omega), List.tail_cons,
        List.dropLast_concat]
    next => rfl

theorem canonicalizeSliced_eq (expression : String) :
    canonicalizeSliced expression = some (canonicalizeColumnDefaultExpression expression) := by
  rw [canonicalizeSliced, stripSliced_eq le_rfl]
  rfl

/-! ### Wrapping -/

/-- A text with blanks and pairs of parentheses around it, any number of times. -/
inductive Wrapped (cs : List Char) : List Char → Prop
  | self : Wrapped cs cs
  | blanks {before ds after : List Char} : (∀ c ∈ before, isWhitespace c = true) →
      (∀ c ∈ after, isWhitespace c = true) → Wrapped cs ds → Wrapped cs (before ++ ds ++ after)
  | pair {ds : List Char} : Wrapped cs ds → Wrapped cs ('(' :: (ds ++ [')']))

theorem Wrapped.balanced {ds : List Char} (wrapped : Wrapped cs ds) (balanced : Balanced cs) :
    Balanced ds := by
  induction wrapped with
  | self => exact balanced
  | blanks front back _ ih => exact ((balanced_blank front).append ih).append (balanced_blank back)
  | pair _ ih => exact .pair ih .nil

theorem Wrapped.strip {ds : List Char} (wrapped : Wrapped cs ds) (balanced : Balanced cs) :
    strip ds = Schema.strip cs := by
  induction wrapped with
  | self => rfl
  | blanks front back _ ih => rw [strip_spaced front back, ih]
  | pair wrapped ih => rw [strip_enclosed (wrapped.balanced balanced), ih]

theorem length_keywordSpelling_le (value : String) :
    (keywordSpelling value).length ≤ value.length := by
  have lowered : (lower value).length = value.length := by simp [lower, String.length_toList]
  have raised : (upper value).length = value.length := by simp [upper, String.length_toList]
  unfold keywordSpelling
  split
  next epoch =>
    rw [← lowered]
    rcases epoch with same | same <;> rw [same] <;> decide
  split
  · exact raised.le
  split
  · exact lowered.le
  · exact le_rfl

/-- No keyword stands in parentheses. -/
theorem keywordSpelling_parenthesized (cs : List Char) :
    keywordSpelling (String.ofList ('(' :: (cs ++ [')']))) = String.ofList ('(' :: (cs ++ [')'])) := by
  have last {text : String} (same : lower (String.ofList ('(' :: (cs ++ [')']))) = text) :
      text.toList.getLast? = some ')' := by
    rw [← same, lower, String.toList_ofList, String.toList_ofList, List.getLast?_map,
      ← List.cons_append, List.getLast?_concat]
    rfl
  have first {text : String} (same : upper (String.ofList ('(' :: (cs ++ [')']))) = text) :
      text.toList.head? = some '(' := by
    rw [← same, upper, String.toList_ofList, String.toList_ofList]
    rfl
  unfold keywordSpelling
  rw [if_neg, if_neg, if_neg]
  · intro boolean
    simp only [List.mem_cons, List.not_mem_nil, or_false] at boolean
    rcases boolean with same | same <;> exact absurd (first same) (by decide)
  · intro keyword
    simp only [List.mem_cons, List.not_mem_nil, or_false] at keyword
    rcases keyword with same | same | same | same <;> exact absurd (first same) (by decide)
  · intro epoch
    rcases epoch with same | same <;> exact absurd (last same) (by decide)

/-- Parentheses around an unbalanced text are seen in its canonical form. -/
theorem canonicalize_parenthesized_iff (expression : String) :
    canonicalizeColumnDefaultExpression ("(" ++ expression ++ ")") =
        canonicalizeColumnDefaultExpression expression ↔ Balanced expression.toList := by
  have wrapped : ("(" ++ expression ++ ")").toList = '(' :: (expression.toList ++ [')']) := by simp
  rw [canonicalizeColumnDefaultExpression_eq, canonicalizeColumnDefaultExpression_eq, wrapped]
  constructor
  · intro same
    by_contra unbalanced
    rw [strip_unbalanced unbalanced] at same
    have short := length_keywordSpelling_le (String.ofList (strip expression.toList))
    have shorter := (unwraps_strip expression.toList).length_le
    rw [← same, keywordSpelling_parenthesized] at short
    simp only [String.length_ofList, List.length_cons, List.length_append, List.length_nil] at short
    omega
  · intro balanced
    rw [strip_enclosed balanced]

/-- Apart from the recognised epoch default, respelling a text changes the case of letters only. -/
theorem lower_keywordSpelling {value : String}
    (other : lower value ≠ "(extract(epoch from now()))::bigint") :
    lower (keywordSpelling value) = lower value := by
  unfold keywordSpelling
  split
  next epoch =>
    rcases epoch with same | same
    · rw [same]
      decide
    · exact absurd same other
  split
  · exact lower_upper value
  split
  · exact lower_lower value
  · rfl

/-- Parentheses that only stand at both ends do not go away, and the epoch default loses a pair
within it. -/
theorem unpaired_wrapping :
    (¬ ∀ expression, canonicalizeColumnDefaultExpression ("(" ++ expression ++ ")") =
      canonicalizeColumnDefaultExpression expression) ∧
    canonicalizeColumnDefaultExpression "(extract(epoch from now()))::bigint" =
      "EXTRACT(EPOCH FROM NOW())::bigint" := by
  refine ⟨fun invariant => ?_, by decide⟩
  exact absurd (invariant ")(") (by decide)

/-- Canonicalising a default never stops inside a character and changes nothing the second
time. Blanks around the text never matter, and wrapping it in parentheses does not exactly
if its own are balanced. Only pairs that close at the very end are taken away, and apart from the
epoch default what they enclose keeps all but the case of its letters. -/
theorem canonical_defaults (expression : String) :
    canonicalizeSliced expression = some (canonicalizeColumnDefaultExpression expression) ∧
      canonicalizeColumnDefaultExpression (canonicalizeColumnDefaultExpression expression) =
        canonicalizeColumnDefaultExpression expression ∧
      (∀ before after : List Char, (∀ c ∈ before, isWhitespace c = true) →
        (∀ c ∈ after, isWhitespace c = true) →
        canonicalizeColumnDefaultExpression (String.ofList (before ++ expression.toList ++ after)) =
          canonicalizeColumnDefaultExpression expression) ∧
      (Balanced expression.toList → ∀ text, Wrapped expression.toList text →
        canonicalizeColumnDefaultExpression (String.ofList text) =
          canonicalizeColumnDefaultExpression expression) ∧
      (canonicalizeColumnDefaultExpression ("(" ++ expression ++ ")") =
        canonicalizeColumnDefaultExpression expression ↔ Balanced expression.toList) ∧
      (∃ bare, Unwraps expression.toList bare ∧ canonicalizeColumnDefaultExpression expression =
        keywordSpelling (String.ofList bare) ∧
        (lower (String.ofList bare) ≠ "(extract(epoch from now()))::bigint" →
          lower (canonicalizeColumnDefaultExpression expression) = lower (String.ofList bare))) ∧
      ∀ inner other rest : List Char, Balanced inner → Balanced other →
        inner ++ [')'] = other ++ ')' :: rest → rest = [] := by
  refine ⟨canonicalizeSliced_eq expression, canonicalizeColumnDefaultExpression_idem expression,
    fun before after front back => ?_, fun balanced text wrapped => ?_,
    canonicalize_parenthesized_iff expression,
    ⟨_, unwraps_strip _, canonicalizeColumnDefaultExpression_eq expression, fun other => ?_⟩,
    fun _ _ _ balanced balanced' => balanced.closes_once balanced'⟩
  · rw [canonicalizeColumnDefaultExpression_eq, String.toList_ofList, strip_spaced front back]
    rfl
  · rw [canonicalizeColumnDefaultExpression_eq, String.toList_ofList, wrapped.strip balanced]
    rfl
  · rw [canonicalizeColumnDefaultExpression_eq, lower_keywordSpelling other]

end GraphqlOrm.Schema
