import GraphqlOrm.Foundation.Records
import GraphqlOrm.Introspect.CheckScan
import GraphqlOrm.Migration.CreateTable

/-!
# The clause of a CHECK constraint

How the scan reads `CONSTRAINT "name" CHECK (expression)`: the expression up to the
parenthesis that matches, and the name from the text between the last comma and the
keyword.
-/
namespace GraphqlOrm.Introspect

open Schema Migration Text Lexical

/-! ### Constraints that can be read back -/

/-- `[A-Za-z_][A-Za-z0-9_]*`. -/
def asciiIdentifier (name : String) : Bool :=
  match name.toList with
  | [] => false
  | c :: rest => (c.isAlpha || c == '_') && rest.all fun d => d.isAlphanum || d == '_'

/-- Quotes are closed and parentheses outside them match. A doubled delimiter closes
and opens again. -/
def balancedFrom : Nat → Option Char → List Char → Bool
  | depth, none, [] => depth == 0
  | _, some _, [] => false
  | depth, some active, c :: rest =>
    balancedFrom depth (if c = active then none else some active) rest
  | depth, none, c :: rest =>
    if isQuote c then balancedFrom depth (some c) rest
    else if c = '(' then balancedFrom (depth + 1) none rest
    else if c = ')' then depth != 0 && balancedFrom (depth - 1) none rest
    else balancedFrom depth none rest

def balanced (text : String) : Bool := balancedFrom 0 none text.toList

/-! ### The clause of one constraint -/

attribute [local simp] closeOffset

/-- Going past a doubled delimiter is closing and opening again. -/
theorem closeOffset_quoted {depth : Nat} {active : Char} (quote : isQuote active = true) (c : Char)
    (rest : List Char) :
    closeOffset depth (some active) (c :: rest) =
      (· + 1) <$> closeOffset depth (if c = active then none else some active) rest := by
  cases rest with
  | nil => split <;> rfl
  | cons d more =>
    rw [closeOffset]
    split
    next same =>
      split
      next doubled =>
        rw [doubled, closeOffset, if_pos quote]
        cases closeOffset depth (some active) more <;> rfl
      next => rfl
    next => rfl

theorem closeOffset_balanced {depth : Nat} {active : Option Char} {text : List Char}
    (matched : balancedFrom depth active text = true) (delimiter : ∀ a ∈ active, isQuote a = true)
    (tail : List Char) :
    closeOffset (depth + 1) active (text ++ ')' :: tail) = .ok text.length := by
  induction text generalizing depth active with
  | nil =>
    cases active with
    | some a => cases matched
    | none =>
      obtain rfl : depth = 0 := by simpa [balancedFrom] using matched
      rw [List.nil_append, closeOffset]
      rfl
  | cons c rest ih =>
    cases active with
    | some a =>
      rw [balancedFrom] at matched
      rw [List.cons_append, closeOffset_quoted (delimiter a rfl), ih matched]
      · rfl
      · intro d mem
        split at mem
        · cases mem
        · exact delimiter d mem
    | none =>
      rw [balancedFrom] at matched
      rw [List.cons_append, closeOffset]
      split at matched
      next quote =>
        rw [if_pos quote, ih matched (by simpa using quote)]
        rfl
      next noQuote =>
        rw [if_neg noQuote]
        split at matched
        next opens =>
          rw [if_pos opens, ih matched (by simp)]
          rfl
        next notOpen =>
          rw [if_neg notOpen]
          split at matched
          next closes =>
            -- Inside the expression the depth never falls back to that of the clause.
            obtain ⟨deeper, within⟩ := Bool.and_eq_true_iff.mp matched
            obtain ⟨outer, rfl⟩ := Nat.exists_eq_succ_of_ne_zero (bne_iff_ne.mp deeper)
            rw [Nat.succ_sub_one] at within
            rw [if_pos closes, if_neg (Nat.succ_ne_zero _), Nat.add_sub_cancel,
              if_neg (Nat.succ_ne_zero _), ih within (by simp)]
            rfl
          next other =>
            rw [if_neg other, ih matched (by simp)]
            rfl

/-- `CHECK (…)`, as it is rendered. -/
def checkText (expression : String) : List Char :=
  ['C', 'H', 'E', 'C', 'K', ' ', '('] ++ (expression.toList ++ [')'])

def scannedName (before : List Char) (count : Nat) : String :=
  (constraintName (clauseBefore before)).getD ("__sqlite_unnamed_check_" ++ toString count)

theorem checkClause_balanced {expression : String} (matched : balanced expression = true)
    (before tail : List Char) (count : Nat) :
    checkClause before (checkText expression ++ tail) count =
      .ok (⟨scannedName before count, trim expression⟩, (checkText expression).length) := by
  have body : ((checkText expression ++ tail).drop 5).dropWhile isAsciiWhitespace =
      '(' :: (expression.toList ++ ')' :: tail) := by
    simp [checkText, isAsciiWhitespace]
  have gap : ((checkText expression ++ tail).drop 5).takeWhile isAsciiWhitespace = [' '] := by
    simp [checkText, isAsciiWhitespace]
  have close : closeOffset 0 none ('(' :: (expression.toList ++ ')' :: tail)) =
      .ok (expression.toList.length + 1) := by
    rw [closeOffset, if_neg (by decide), if_pos rfl, closeOffset_balanced matched (by simp)]
    rfl
  simp only [checkClause, body, gap, close]
  rw [if_neg (by simp)]
  simp [Except.map, scannedName, checkText]
  omega

variable {before : List Char}

theorem scan_check {expression : String} (matched : balanced expression = true)
    (free : ∀ c ∈ before.head?, identifierByte c = false) (tail : List Char)
    (found : List CheckConstraintModel) :
    scan (checkText expression ++ tail) before 0 found =
      scan tail ((checkText expression).reverse ++ before) 0
        (found ++ [⟨scannedName before found.length, trim expression⟩]) := by
  have clause := checkClause_balanced matched before tail found.length
  have keyword : keywordAt before (checkText expression ++ tail) = true :=
    keywordAt_iff.mpr ⟨by simp [checkText, identifierByte], free⟩
  obtain ⟨rest, shape⟩ : ∃ rest, checkText expression = 'C' :: rest := ⟨_, rfl⟩
  rw [shape] at clause keyword ⊢
  rw [List.cons_append] at clause keyword ⊢
  rw [scan, if_neg (by decide), if_neg (by decide), if_neg (by simp), if_neg (by simp),
    if_pos keyword, clause]
  simp only [List.length_cons, Nat.add_sub_cancel]
  rw [scan_skip]
  simp

/-- The statement ends in a parenthesis. -/
theorem scan_end (before : List Char) (found : List CheckConstraintModel) :
    scan [')'] before 0 found = .ok found := rfl

/-! ### Names -/

def nameToken (name : String) : List Char := '"' :: (name.toList ++ ['"'])

def constraintWord : List Char := ['C', 'O', 'N', 'S', 'T', 'R', 'A', 'I', 'N', 'T']

/-- `CONSTRAINT "…" `, as it is rendered before the clause. -/
def nameText (name : String) : List Char := constraintWord ++ ' ' :: (nameToken name ++ [' '])

section Names

variable {name : String}

theorem asciiIdentifier_letters (plain : asciiIdentifier name = true) :
    ∀ c ∈ name.toList, c.isAlphanum = true ∨ c = '_' := by
  rw [asciiIdentifier] at plain
  cases shape : name.toList with
  | nil => simp
  | cons c rest =>
    rw [shape] at plain
    simp only [Bool.and_eq_true, Bool.or_eq_true, beq_iff_eq, List.all_eq_true] at plain
    intro d mem
    rcases List.mem_cons.mp mem with rfl | later
    · exact plain.1.imp (fun letter => by simp [Char.isAlphanum, letter]) id
    · exact plain.2 d later

/-- No character of the name means anything to the scan. -/
theorem asciiIdentifier_free (plain : asciiIdentifier name = true) {c : Char}
    (special : c.isAlphanum = false) (other : c ≠ '_') : c ∉ name.toList := by
  intro mem
  rcases asciiIdentifier_letters plain c mem with letter | underscore
  · rw [special] at letter
    cases letter
  · exact other underscore

/-- The name stands between the quotes as it is. -/
theorem quoteIdentifier_plain (plain : asciiIdentifier name = true) :
    DatabaseBackend.quoteIdentifier .sqlite name = String.ofList (nameToken name) := by
  have absent : '"' ∉ name.toList := asciiIdentifier_free plain rfl (by decide)
  have bare {opening closing : Char} (symbol : opening.isAlphanum = false) (other : opening ≠ '_') :
      DatabaseBackend.wrapped opening closing name = false := by
    have missing := asciiIdentifier_free plain symbol other
    rw [DatabaseBackend.wrapped, startsWith, Bool.and_eq_false_iff]
    left
    rw [beq_eq_false_iff_ne]
    intro first
    exact missing (List.mem_of_mem_head? first)
  have same : name.toList.flatMap (fun x => if x = '"' then ['"', '"'] else [x]) = name.toList := by
    have each : ∀ x ∈ name.toList, (if x = '"' then ['"', '"'] else [x]) = [x] := by
      intro x mem
      rw [if_neg]
      rintro rfl
      exact absent mem
    rw [List.flatMap_congr each, List.flatMap_singleton']
  rw [DatabaseBackend.quoteIdentifier, bare rfl (by decide), bare rfl (by decide),
    bare rfl (by decide), if_neg (by simp), DatabaseBackend.delimit, replace, same,
    ← String.toList_inj]
  simp [nameToken]

theorem renderCheckPart_toList {constraint : CheckConstraintModel}
    (plain : asciiIdentifier constraint.name = true) :
    (renderCheckPart .sqlite constraint).toList =
      nameText constraint.name ++ checkText constraint.expression := by
  rw [renderCheckPart, quoteIdentifier_plain plain]
  simp [nameText, nameToken, checkText, constraintWord]

theorem nameText_reads (plain : asciiIdentifier name = true) :
    read .outside (nameText name) = .outside := by
  have inside : read (.quoted .double) name.toList = .quoted .double :=
    run_quoted (asciiIdentifier_free plain rfl (by decide))
  have opened : read .outside (constraintWord ++ [' ', '"']) = .quoted .double := by decide
  have split : nameText name = (constraintWord ++ [' ', '"']) ++ (name.toList ++ ['"', ' ']) := by
    simp [nameText, nameToken]
  rw [split, read_append, opened, read_append, inside]
  rfl

theorem scan_constraint {constraint : CheckConstraintModel}
    (plain : asciiIdentifier constraint.name = true)
    (matched : balanced constraint.expression = true)
    (free : ∀ c ∈ before.head?, identifierByte c = false) (tail : List Char)
    (found : List CheckConstraintModel) :
    scan ((renderCheckPart .sqlite constraint).toList ++ tail) before 0 found =
      scan tail ((renderCheckPart .sqlite constraint).toList.reverse ++ before) 0
        (found ++ [⟨scannedName ((nameText constraint.name).reverse ++ before) found.length,
          trim constraint.expression⟩]) := by
  have space : ∀ c ∈ ((nameText constraint.name).reverse ++ before).head?,
      identifierByte c = false := by
    simp [nameText, identifierByte]
  rw [renderCheckPart_toList plain, List.append_assoc, scan_outside (.inl free) (nameText_reads plain),
    scan_check matched space, List.reverse_append, List.append_assoc]

/-! ### The name of a clause -/

theorem splitAsciiWhitespace_append (xs ys : List Char) :
    splitAsciiWhitespace (xs ++ ' ' :: ys) = splitAsciiWhitespace xs ++ splitAsciiWhitespace ys := by
  rw [splitAsciiWhitespace, List.splitOnP_append_cons xs ys rfl, List.filter_append]
  rfl

theorem splitAsciiWhitespace_word {word : List Char} (nonempty : word ≠ [])
    (solid : ∀ c ∈ word, isAsciiWhitespace c = false) : splitAsciiWhitespace word = [word] := by
  rw [splitAsciiWhitespace, List.splitOnP_eq_singleton solid]
  simp [nonempty]

theorem isAsciiWhitespace_special {c : Char} (space : isAsciiWhitespace c = true) :
    c.isAlphanum = false ∧ c ≠ '_' ∧ c ≠ '"' := by
  simp only [isAsciiWhitespace, Bool.or_eq_true, beq_iff_eq] at space
  rcases space with (((rfl | rfl) | rfl) | rfl) | rfl <;> decide

theorem splitAsciiWhitespace_nameToken (plain : asciiIdentifier name = true) :
    splitAsciiWhitespace (nameToken name ++ [' ']) = [nameToken name] := by
  have nonempty : nameToken name ≠ [] := List.cons_ne_nil _ _
  rw [splitAsciiWhitespace_append, splitAsciiWhitespace_word nonempty]
  · rfl
  · intro c mem
    rw [Bool.eq_false_iff]
    intro space
    obtain ⟨special, underscore, quote⟩ := isAsciiWhitespace_special space
    simp [nameToken, quote, asciiIdentifier_free plain special underscore] at mem

/-- The quotes are trimmed off, and nothing else. -/
theorem nameToken_trim (plain : asciiIdentifier name = true) :
    trimList ['"', '`', '[', ']'].contains (nameToken name) = name.toList := by
  apply trimList_wrapped (by decide)
  intro c mem
  rw [Bool.eq_false_iff]
  intro delimiter
  simp only [List.contains_eq_mem, List.mem_cons, List.not_mem_nil, or_false, decide_eq_true_eq]
    at delimiter
  rcases delimiter with rfl | rfl | rfl | rfl
  all_goals exact asciiIdentifier_free plain rfl (by decide) mem

theorem constraintName_nameText (plain : asciiIdentifier name = true) (text : List Char)
    (blank : splitAsciiWhitespace (text ++ constraintWord) = [constraintWord]) :
    constraintName (text ++ nameText name) = some name := by
  rw [constraintName, nameText, ← List.append_assoc, splitAsciiWhitespace_append, blank,
    splitAsciiWhitespace_nameToken plain, List.singleton_append, tokenAfterConstraint,
    if_pos (by decide), List.head?_cons, Option.map_some, nameToken_trim plain, String.ofList_toList]

theorem clauseBefore_comma {text : List Char} (free : ',' ∉ text) (comma : ',' ∈ before) :
    clauseBefore (text.reverse ++ before) = (before.takeWhile (· ≠ ',')).reverse ++ text := by
  rw [clauseBefore, if_pos (List.mem_append_right _ comma), List.takeWhile_append_of_pos,
    List.reverse_append, List.reverse_reverse]
  intro c mem
  rw [List.mem_reverse] at mem
  simpa using fun same : c = ',' => free (same ▸ mem)

theorem clauseBefore_parenthesis {text before : List Char} (free : ',' ∉ text)
    (inside : '(' ∉ text) (noComma : ',' ∉ before) :
    clauseBefore (text.reverse ++ '(' :: before) = text := by
  have absent : ',' ∉ text.reverse ++ '(' :: before := by simp [free, noComma]
  rw [clauseBefore, if_neg absent, List.takeWhile_append_of_pos]
  · simp
  · intro c mem
    rw [List.mem_reverse] at mem
    simpa using fun same : c = '(' => inside (same ▸ mem)

theorem nameText_free (plain : asciiIdentifier name = true) {c : Char}
    (special : c.isAlphanum = false) (underscore : c ≠ '_') (quote : c ≠ '"') (space : c ≠ ' ') :
    c ∉ nameText name := by
  have word : c ∉ constraintWord := by
    intro mem
    have letters : constraintWord.all Char.isAlphanum = true := by decide
    rw [List.all_eq_true.mp letters c mem] at special
    cases special
  simp [nameText, nameToken, word, quote, space, asciiIdentifier_free plain special underscore]

theorem nameText_noComma (plain : asciiIdentifier name = true) : ',' ∉ nameText name :=
  nameText_free plain rfl (by decide) (by decide) (by decide)

/-- Text without whitespace extends the last token. -/
theorem splitOnP_append_solid (text : List Char) :
    ∃ tokens start, ∀ word, (∀ c ∈ word, isAsciiWhitespace c = false) →
      (text ++ word).splitOnP isAsciiWhitespace = tokens ++ [start ++ word] := by
  induction text with
  | nil => exact ⟨[], [], fun word solid => List.splitOnP_eq_singleton solid⟩
  | cons c rest ih =>
    obtain ⟨tokens, start, splits⟩ := ih
    rcases Bool.eq_false_or_eq_true (isAsciiWhitespace c) with space | letter
    · refine ⟨[] :: tokens, start, fun word solid => ?_⟩
      rw [List.cons_append, List.splitOnP_cons_eq_if_modifyHead, if_pos space, splits word solid,
        List.cons_append]
    · -- The character joins the first token, which may be the last one too.
      cases tokens with
      | nil =>
        refine ⟨[], c :: start, fun word solid => ?_⟩
        rw [List.cons_append, List.splitOnP_cons_eq_if_modifyHead, if_neg (by simp [letter]),
          splits word solid]
        rfl
      | cons first others =>
        refine ⟨(c :: first) :: others, start, fun word solid => ?_⟩
        rw [List.cons_append, List.splitOnP_cons_eq_if_modifyHead, if_neg (by simp [letter]),
          splits word solid]
        rfl

theorem tokenAfterConstraint_last {tokens : List (List Char)} {last token : List Char}
    (other : last.map Char.toLower ≠ "constraint".toList)
    (apart : token.map Char.toLower ≠ "constraint".toList) :
    tokenAfterConstraint (tokens ++ [last, token]) = tokenAfterConstraint (tokens ++ [last]) := by
  induction tokens with
  | nil =>
    simp only [List.nil_append, tokenAfterConstraint]
    rw [if_neg other, if_neg apart, if_neg other]
  | cons first rest ih =>
    rw [List.cons_append, List.cons_append, tokenAfterConstraint, tokenAfterConstraint, ih]
    cases rest <;> rfl

/-- Glued to a parenthesis CONSTRAINT is no token, and the name behind it is not read. -/
theorem constraintName_glued (text : List Char) :
    ∃ fixed, ∀ name, asciiIdentifier name = true →
      constraintName (text ++ '(' :: nameText name) = fixed := by
  obtain ⟨tokens, start, splits⟩ := splitOnP_append_solid text
  have solid : ∀ c ∈ '(' :: constraintWord, isAsciiWhitespace c = false := by
    simp [constraintWord, isAsciiWhitespace]
  have apart {word : List Char} {c : Char} (mem : c ∈ word)
      (special : c.toLower ∉ "constraint".toList) : word.map Char.toLower ≠ "constraint".toList :=
    fun same => special (same ▸ List.mem_map_of_mem mem)
  refine ⟨(tokenAfterConstraint ((tokens.filter (!·.isEmpty)) ++ [start ++ '(' :: constraintWord])).map
    fun name => String.ofList (trimList ['"', '`', '[', ']'].contains name), fun name plain => ?_⟩
  have glued : text ++ '(' :: nameText name =
      (text ++ '(' :: constraintWord) ++ ' ' :: (nameToken name ++ [' ']) := by
    simp [nameText]
  have before : splitAsciiWhitespace (text ++ '(' :: constraintWord) =
      tokens.filter (!·.isEmpty) ++ [start ++ '(' :: constraintWord] := by
    rw [splitAsciiWhitespace, splits _ solid, List.filter_append]
    simp
  have parenthesis : '(' ∈ start ++ '(' :: constraintWord := by simp
  have quote : '"' ∈ nameToken name := .head _
  rw [constraintName, glued, splitAsciiWhitespace_append, before,
    splitAsciiWhitespace_nameToken plain, List.append_assoc, List.singleton_append,
    tokenAfterConstraint_last (apart parenthesis (by decide)) (apart quote (by decide))]

def ClauseStart (before : List Char) : Prop :=
  (∃ more, before = ' ' :: ',' :: more) ∨ ∃ more, before = '(' :: more ∧ ',' ∉ more

theorem ClauseStart.free (starts : ClauseStart before) :
    ∀ c ∈ before.head?, identifierByte c = false := by
  rcases starts with ⟨more, rfl⟩ | ⟨more, rfl, _⟩ <;> simp [identifierByte]

/-- A constraint keeps its name behind a comma, and behind a parenthesis that no comma
precedes. -/
theorem scannedName_nameText (plain : asciiIdentifier name = true) (starts : ClauseStart before)
    (count : Nat) :
    scannedName ((nameText name).reverse ++ before) count = name := by
  have parenthesis : '(' ∉ nameText name := nameText_free plain rfl (by decide) (by decide) (by decide)
  rw [scannedName]
  rcases starts with ⟨more, rfl⟩ | ⟨more, rfl, noComma⟩
  · have spaced : ((' ' :: ',' :: more).takeWhile (· ≠ ',')).reverse = [' '] := by simp
    rw [clauseBefore_comma (nameText_noComma plain) (by simp), spaced,
      constraintName_nameText plain [' '] (by decide)]
    rfl
  · have named := constraintName_nameText plain [] (by decide)
    rw [List.nil_append] at named
    rw [clauseBefore_parenthesis (nameText_noComma plain) parenthesis noComma, named]
    rfl

/-- Behind a parenthesis that a comma precedes every constraint gets the same name. -/
theorem scannedName_glued {opening : List Char} (comma : ',' ∈ opening) (count : Nat) :
    ∃ fixed, ∀ name, asciiIdentifier name = true →
      scannedName ((nameText name).reverse ++ '(' :: opening) count = fixed := by
  obtain ⟨fixed, reads⟩ := constraintName_glued (opening.takeWhile (· ≠ ',')).reverse
  refine ⟨fixed.getD ("__sqlite_unnamed_check_" ++ toString count), fun name plain => ?_⟩
  have clause : (('(' :: opening).takeWhile (· ≠ ',')).reverse ++ nameText name =
      (opening.takeWhile (· ≠ ',')).reverse ++ '(' :: nameText name := by
    simp
  rw [scannedName, clauseBefore_comma (nameText_noComma plain) (.tail _ comma),
    clause, reads name plain]

end Names

end GraphqlOrm.Introspect
