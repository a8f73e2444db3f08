import GraphqlOrm.Query.FilterExpression
import Mathlib.Data.List.Forall2

/-!
# The meaning of a rendered filter

The text of a filter is a search condition whose clauses are the leaves. It holds of a row
exactly when the tree does, with the placeholders of each leaf bound to its own values.
-/
namespace GraphqlOrm.Query

open Schema Sql

variable {ν ρ : Type} {backend : DatabaseBackend}

/-! ### Clauses -/

def placeholderCount (pieces : List SqlPiece) : Nat := (pieces.map SqlPiece.shape).count none

theorem shape_numberFrom (next : Nat) (shapes : List (Option Char)) :
    (numberFrom next shapes).map SqlPiece.shape = shapes := by
  induction shapes generalizing next with
  | nil => rfl
  | cons s rest ih => cases s <;> simp [numberFrom, SqlPiece.shape, ih]

theorem slotsFrom_numberFrom (next : Nat) (shapes : List (Option Char)) :
    slotsFrom next (numberFrom next shapes) = List.range' next (shapes.count none) := by
  induction shapes generalizing next with
  | nil => rfl
  | cons s rest ih =>
    cases s with
    | some c => simp [numberFrom, slotsFrom, ih]
    | none => simp [numberFrom, slotsFrom, ih, List.range'_succ]

theorem slotsFrom_unnumbered {pieces : List SqlPiece}
    (unnumbered : ∀ n, .placeholder (some n) ∉ pieces) (next : Nat) :
    slotsFrom next pieces = List.range' next (placeholderCount pieces) := by
  induction pieces generalizing next with
  | nil => rfl
  | cons piece rest ih =>
    have later := ih fun n mem => unnumbered n (.tail _ mem)
    match piece with
    | .text c => simpa [slotsFrom, placeholderCount, SqlPiece.shape] using later next
    | .placeholder none =>
      simpa [slotsFrom, placeholderCount, SqlPiece.shape, List.range'_succ] using later (next + 1)
    | .placeholder (some n) => exact absurd (.head _) (unnumbered n)

/-- The placeholders of a leaf are its values, and on SQLite and MySQL none has a number. -/
structure LeafAligned (backend : DatabaseBackend) (leaf : String × List ν) : Prop where
  counted : placeholderCount (readClause backend leaf.1) = leaf.2.length
  unnumbered : numbers backend = false → ∀ n, .placeholder (some n) ∉ readClause backend leaf.1

theorem shape_renumber (next : Nat) (pieces : List SqlPiece) :
    (renumber backend next pieces).map SqlPiece.shape = pieces.map SqlPiece.shape := by
  rw [renumber]
  split
  · rw [shape_numberFrom]
  · rfl

/-- The database binds the placeholders of a rewritten leaf from the index on. -/
theorem slotsFrom_normalize {leaf : String × List ν} (aligned : LeafAligned backend leaf)
    (start : Nat) :
    slotsFrom start (readDatabase backend (normalizeSqlPlaceholders backend leaf.1 start)) =
      List.range' start leaf.2.length := by
  rw [readDatabase_normalize, renumber, ← aligned.counted]
  cases numbered : numbers backend with
  | true =>
    rw [if_pos rfl, slotsFrom_numberFrom]
    rfl
  | false => rw [if_neg (by simp), slotsFrom_unnumbered (aligned.unnumbered numbered)]

@[simp] theorem spellPieces_cons (piece : SqlPiece) (rest : List SqlPiece) :
    spellPieces backend (piece :: rest) = piece.spelled backend ++ spellPieces backend rest := by
  simp [spellPieces]

@[simp] theorem spelled_text (c : Char) :
    (SqlPiece.text c).spelled backend = String.singleton c := rfl

theorem spelled_ne_empty (piece : SqlPiece) : piece.spelled backend ≠ "" := by
  intro empty
  have chars := congrArg String.toList empty
  cases piece with
  | text c => simp at chars
  | placeholder label => cases backend <;> simp [SqlPiece.spelled, DatabaseBackend.placeholder] at chars

theorem spellPieces_eq_empty {pieces : List SqlPiece} :
    spellPieces backend pieces = "" ↔ pieces = [] := by
  cases pieces with
  | nil => simp [spellPieces]
  | cons piece rest =>
    rw [spellPieces_cons, String.append_eq_empty_iff]
    simp [spelled_ne_empty piece]

theorem rewriteFrom_eq_nil {brackets : Bool} {cs : List Char} :
    rewriteFrom brackets (.outside false) cs = [] ↔ cs = [] := by
  match cs with
  | [] => simp [rewriteFrom]
  | [c] => by_cases sign : c = '?' ∨ c = '$' <;> simp [rewriteFrom, sign]
  | c :: d :: rest =>
    cases opened : quoteEnd brackets c with
    | some close => simp [rewriteFrom, opened]
    | none =>
      by_cases sign : c = '?' ∨ c = '$'
      · simp [rewriteFrom, opened, sign]
      · rw [rewriteFrom, opened, if_neg (by simp)]
        by_cases label : c = '@' ∧ isP d = true <;> simp [sign, label]

variable {start : Nat}

/-- Only the empty clause is rendered as nothing. -/
theorem normalizeSqlPlaceholders_eq_empty {clause : String} :
    normalizeSqlPlaceholders backend clause start = "" ↔ clause = "" := by
  have pieces (shapes : List (Option Char)) : numberFrom start shapes = [] ↔ shapes = [] := by
    match shapes with
    | [] => simp [numberFrom]
    | some c :: rest => simp [numberFrom]
    | none :: rest => simp [numberFrom]
  rw [normalizeSqlPlaceholders]
  split
  · rw [spellPieces_eq_empty, pieces, rewritten, rewriteFrom_eq_nil, String.toList_eq_nil_iff]
  · rfl

/-! ### Trees -/

section Trees

/-- What a clause says of a row, from its text with gaps for the placeholders, and their values. -/
abbrev ClauseMeaning (ν ρ : Type) := List (Option Char) → List (Option ν) → ρ → Truth

mutual

def FilterExpression.leaves : FilterExpression ν → List (String × List ν)
  | .raw clause values => [(clause, values)]
  | .trustedFragment clause values => [(clause, values)]
  | .and filters => leavesOf filters
  | .or filters => leavesOf filters

def leavesOf : List (FilterExpression ν) → List (String × List ν)
  | [] => []
  | filter :: rest => filter.leaves ++ leavesOf rest

end

def FilterExpression.values (filter : FilterExpression ν) : List ν := filter.leaves.flatMap (·.2)

variable (backend) (meaning : ClauseMeaning ν ρ) (row : ρ)

/-- What a leaf says by itself, with its values in its own text. -/
def leafTruth (leaf : String × List ν) : Truth :=
  if leaf.1 = "" then .holds
  else meaning ((readClause backend leaf.1).map SqlPiece.shape) (leaf.2.map some) row

mutual

def FilterExpression.eval : FilterExpression ν → Truth
  | .raw clause values => leafTruth backend meaning row (clause, values)
  | .trustedFragment clause values => leafTruth backend meaning row (clause, values)
  | .and filters => Truth.all (evalFilters filters)
  | .or filters => Truth.any (evalFilters filters)

def evalFilters : List (FilterExpression ν) → List Truth
  | [] => []
  | filter :: rest => filter.eval :: evalFilters rest

end

end Trees

/-! ### The condition of a text -/

/-- The text of a rendered leaf, with the index that a placeholder without a number takes at its
start. -/
structure ClauseText where
  text : String
  first : Nat

/-- What the database reads in the text. -/
def ClauseText.pieces (backend : DatabaseBackend) (clause : ClauseText) : List SqlPiece :=
  readDatabase backend clause.text

def ClauseText.slots (backend : DatabaseBackend) (clause : ClauseText) : List Nat :=
  slotsFrom clause.first (clause.pieces backend)

abbrev FilterCondition := Condition Bool ClauseText Empty

def filterSpelling : Spelling Bool ClauseText Empty where
  atom b := if b then "1 = 1" else "1 = 0"
  clause clause := clause.text
  source := Empty.elim

def boundTo (start : Nat) (values : List ν) (n : Nat) : Option ν :=
  if n < start then none else values[n - start]?

def filterReading (backend : DatabaseBackend) (meaning : ClauseMeaning ν ρ) (start : Nat)
    (values : List ν) : Sql.Meaning Bool ClauseText Empty ρ where
  atom _ b := .ofBool b
  clause row clause :=
    meaning ((clause.pieces backend).map SqlPiece.shape)
      ((clause.slots backend).map (boundTo start values)) row
  rows _ := Empty.elim

def clausesOf (tokens : List (Token Bool ClauseText Empty)) : List ClauseText :=
  tokens.filterMap fun
    | .clause clause => some clause
    | _ => none

def Consecutive (backend : DatabaseBackend) : Nat → List ClauseText → Nat → Prop
  | next, [], stop => next = stop
  | next, clause :: rest, stop =>
    clause.first = next ∧
      clause.slots backend = List.range' next (clause.slots backend).length ∧
      Consecutive backend (next + (clause.slots backend).length) rest stop

def textOf (c : Option FilterCondition) : String := c.elim "" (Condition.text filterSpelling)

def tokensOf (c : Option FilterCondition) : List (Token Bool ClauseText Empty) :=
  c.elim [] Condition.tokens

def truthOf (m : Sql.Meaning Bool ClauseText Empty ρ) (row : ρ) (c : Option FilterCondition) : Truth :=
  c.elim .holds (Condition.eval m row)

/-- The database reads the clauses as the texts of the leaves in their order, but for leaves without
a text and for the new numbers of the placeholders. -/
def ReadsLeaves (backend : DatabaseBackend) (clauses : List ClauseText)
    (leaves : List (String × List ν)) : Prop :=
  List.Forall₂ (fun clause leaf =>
      clause.pieces backend = renumber backend clause.first (readClause backend leaf.1))
    clauses (leaves.filter (·.1 ≠ ""))

/-- The rendered text is that of a condition whose clauses are the leaves and that means what
the tree means; its placeholders count on from the starting index, and the values of the
leaves are appended in their order. -/
def RendersExactly (backend : DatabaseBackend) (filter : FilterExpression ν) (start : Nat) : Prop :=
  ∃ c : Option FilterCondition,
    (∀ before, renderFilterExpression backend filter start before =
      (textOf c, start + filter.values.length, before ++ filter.values)) ∧
    (textOf c = "" ↔ c = none) ∧
    ReadsLeaves backend (clausesOf (tokensOf c)) filter.leaves ∧
    Consecutive backend start (clausesOf (tokensOf c)) (start + filter.values.length) ∧
    ∀ (ρ : Type) (meaning : ClauseMeaning ν ρ) (row : ρ),
      truthOf (filterReading backend meaning start filter.values) row c = filter.eval backend meaning row

/-! ### Joining conditions -/

theorem clausesOf_append (left right : List (Token Bool ClauseText Empty)) :
    clausesOf (left ++ right) = clausesOf left ++ clausesOf right := List.filterMap_append ..

theorem Consecutive.append {xs ys : List ClauseText} {middle stop : Nat}
    (left : Consecutive backend start xs middle) (right : Consecutive backend middle ys stop) :
    Consecutive backend start (xs ++ ys) stop := by
  induction xs generalizing start with
  | nil =>
    cases left
    exact right
  | cons clause rest ih => exact ⟨left.1, left.2.1, ih left.2.2⟩

/-- What `And` makes of its children. -/
def conjOf (cs : List (Option FilterCondition)) : Option FilterCondition :=
  match cs.filterMap id with
  | [] => none
  | c :: rest => some (.one (Term.conj (.group c) (rest.map .group)))

def orElse (c : Option FilterCondition) : Term Bool ClauseText Empty :=
  .one (.group (c.getD (.one (.one (.atom true)))))

/-- What `Or` makes of its children. -/
def disjOf : List (Option FilterCondition) → FilterCondition
  | [] => .one (.one (.atom false))
  | c :: rest => Condition.chain (orElse c) (rest.map orElse)

theorem clausesOf_conj (c : FilterCondition) (rest : List FilterCondition) :
    clausesOf (Term.conj (.group c) (rest.map .group)).tokens =
      (c :: rest).flatMap fun c => clausesOf c.tokens := by
  induction rest generalizing c with
  | nil => simp [Term.conj, Term.tokens, Factor.tokens, clausesOf]
  | cons d rest ih =>
    rw [List.map_cons, Term.conj, Term.tokens, clausesOf_append, List.flatMap_cons, ← ih d]
    simp [Factor.tokens, clausesOf]

theorem clausesOf_chain (t : Term Bool ClauseText Empty) (ts : List (Term Bool ClauseText Empty)) :
    clausesOf (Condition.chain t ts).tokens = (t :: ts).flatMap fun t => clausesOf t.tokens := by
  induction ts generalizing t with
  | nil => simp [Condition.chain, Condition.tokens]
  | cons u ts ih =>
    rw [Condition.chain, Condition.tokens, clausesOf_append, List.flatMap_cons, ← ih u]
    simp [clausesOf]

theorem clausesOf_orElse (c : Option FilterCondition) :
    clausesOf (orElse c).tokens = clausesOf (tokensOf c) := by
  cases c <;> simp [orElse, tokensOf, clausesOf, Term.tokens, Factor.tokens, Condition.tokens]

theorem clausesOf_conjOf (cs : List (Option FilterCondition)) :
    clausesOf (tokensOf (conjOf cs)) = cs.flatMap fun c => clausesOf (tokensOf c) := by
  have kept : (cs.flatMap fun c => clausesOf (tokensOf c)) =
      (cs.filterMap id).flatMap fun c => clausesOf c.tokens := by
    induction cs with
    | nil => rfl
    | cons c rest ih =>
      rw [List.flatMap_cons, ih]
      cases c with
      | none => rfl
      | some c => rfl
  rw [kept, conjOf]
  cases cs.filterMap id with
  | nil => simp [tokensOf, clausesOf]
  | cons c rest => exact clausesOf_conj c rest

theorem clausesOf_disjOf (cs : List (Option FilterCondition)) :
    clausesOf (disjOf cs).tokens = cs.flatMap fun c => clausesOf (tokensOf c) := by
  cases cs with
  | nil => simp [disjOf, clausesOf, Condition.tokens, Term.tokens, Factor.tokens]
  | cons c rest =>
    rw [disjOf, clausesOf_chain]
    simp [List.flatMap_map, clausesOf_orElse]

variable {cs : List (Option FilterCondition)}

/-- Every child but those without a text stands in parentheses. -/
theorem textOf_conjOf (empty : ∀ c ∈ cs, textOf c = "" ↔ c = none) :
    textOf (conjOf cs) = Text.join " AND "
      (((cs.map (textOf)).filter (· ≠ "")).map fun sql => "(" ++ sql ++ ")") := by
  have kept : (cs.map (textOf)).filter (· ≠ "") =
      (cs.filterMap id).map (Condition.text filterSpelling) := by
    induction cs with
    | nil => rfl
    | cons c rest ih =>
      have own := empty c (.head _)
      have later := ih fun c mem => empty c (.tail _ mem)
      cases c with
      | none => simpa [textOf] using later
      | some c =>
        have filled : textOf (some c) ≠ "" := by simp [own]
        rw [List.map_cons, List.filter_cons_of_pos (by simpa using filled), later]
        rfl
  rw [kept, conjOf]
  cases cs.filterMap id with
  | nil => rfl
  | cons c rest =>
    simp [textOf, Term.text_conj, Function.comp_def]

theorem textOf_disjOf {c : Option FilterCondition} (empty : ∀ d ∈ c :: cs, textOf d = "" ↔ d = none) :
    textOf (some (disjOf (c :: cs))) = Text.join " OR "
      (((c :: cs).map (textOf)).map fun sql =>
        if sql = "" then "(1 = 1)" else "(" ++ sql ++ ")") := by
  have own : ∀ d ∈ c :: cs, (orElse d).text filterSpelling =
      if textOf d = "" then "(1 = 1)" else "(" ++ textOf d ++ ")" := by
    intro d mem
    have shape := empty d mem
    cases d with
    | none => simp [orElse, textOf, filterSpelling]
    | some d => 
      rw [if_neg (by simp [shape])]
      simp [orElse, textOf]
  rw [textOf, Option.elim_some, disjOf, Condition.text_chain, ← List.map_cons, List.map_map, List.map_map]
  exact congrArg _ (List.map_congr_left own)

theorem truthOf_conjOf (m : Sql.Meaning Bool ClauseText Empty ρ) (row : ρ)
    (cs : List (Option FilterCondition)) :
    truthOf m row (conjOf cs) = Truth.all (cs.map (truthOf m row)) := by
  have kept : Truth.all (cs.map (truthOf m row)) =
      Truth.all ((cs.filterMap id).map (Condition.eval m row)) := by
    induction cs with
    | nil => rfl
    | cons c rest ih => cases c <;> simp [ih, truthOf]
  rw [kept, conjOf]
  cases cs.filterMap id with
  | nil => rfl
  | cons c rest =>
    simp [truthOf, Condition.eval, Term.eval_conj, Factor.eval, Function.comp_def]

theorem truthOf_disjOf (meaning : ClauseMeaning ν ρ) (start : Nat) (values : List ν) (row : ρ)
    (cs : List (Option FilterCondition)) :
    truthOf (filterReading backend meaning start values) row (some (disjOf cs)) =
      Truth.any (cs.map (truthOf (filterReading backend meaning start values) row)) := by
  have own (c : Option FilterCondition) : (orElse c).eval (filterReading backend meaning start values) row =
      truthOf (filterReading backend meaning start values) row c := by
    cases c <;> rfl
  cases cs with
  | nil => rfl
  | cons c rest =>
    rw [truthOf, Option.elim_some, disjOf, Condition.eval_chain, ← List.map_cons, List.map_map]
    exact congrArg _ (List.map_congr_left fun c _ => own c)

/-! ### The whole tree -/

/-- What is known of a rendered filter. -/
structure Rendered (backend : DatabaseBackend) (filter : FilterExpression ν) (start : Nat)
    (c : Option FilterCondition) : Prop where
  rendered : ∀ before, renderFilterExpression backend filter start before =
    (textOf c, start + filter.values.length, before ++ filter.values)
  empty : textOf c = "" ↔ c = none
  reads : ReadsLeaves backend (clausesOf (tokensOf c)) filter.leaves
  counts : Consecutive backend start (clausesOf (tokensOf c)) (start + filter.values.length)
  means : ∀ (ρ : Type) (meaning : ClauseMeaning ν ρ) (row : ρ) (origin : Nat) (values : List ν),
    origin ≤ start → filter.values <+: values.drop (start - origin) →
      truthOf (filterReading backend meaning origin values) row c = filter.eval backend meaning row

/-- What is known of the rendered children of a filter. -/
structure RenderedAll (backend : DatabaseBackend) (filters : List (FilterExpression ν)) (start : Nat)
    (cs : List (Option FilterCondition)) : Prop where
  rendered : ∀ before, renderFilters backend filters start before =
    (cs.map (textOf), start + ((leavesOf filters).flatMap (·.2)).length,
      before ++ (leavesOf filters).flatMap (·.2))
  same : cs.length = filters.length
  empty : ∀ c ∈ cs, textOf c = "" ↔ c = none
  reads : ReadsLeaves backend (cs.flatMap fun c => clausesOf (tokensOf c)) (leavesOf filters)
  counts : Consecutive backend start (cs.flatMap fun c => clausesOf (tokensOf c))
    (start + ((leavesOf filters).flatMap (·.2)).length)
  means : ∀ (ρ : Type) (meaning : ClauseMeaning ν ρ) (row : ρ) (origin : Nat) (values : List ν),
    origin ≤ start → (leavesOf filters).flatMap (·.2) <+: values.drop (start - origin) →
      cs.map (truthOf (filterReading backend meaning origin values) row) = evalFilters backend meaning row filters

/-- The placeholders of a leaf are bound to its own values. -/
theorem slots_bound {leaf : String × List ν} (aligned : LeafAligned backend leaf) {origin : Nat}
    {values : List ν} (later : origin ≤ start) (own : leaf.2 <+: values.drop (start - origin)) :
    (slotsFrom start (readDatabase backend (normalizeSqlPlaceholders backend leaf.1 start))).map
        (boundTo origin values) = leaf.2.map some := by
  obtain ⟨rest, shape⟩ := own
  rw [slotsFrom_normalize aligned]
  refine List.ext_getElem (by simp) fun i inside _ => ?_
  simp only [List.length_map, List.length_range'] at inside
  have here : values[start + i - origin]? = some leaf.2[i] := by
    rw [show start + i - origin = start - origin + i by omega, ← List.getElem?_drop, ← shape,
      List.getElem?_append_left inside, List.getElem?_eq_getElem inside]
  simp [boundTo, here]
  omega

theorem join_ne_empty {separator text : String} (filled : text ≠ "") (rest : List String) :
    Text.join separator (text :: rest) ≠ "" := by
  cases rest with
  | nil => exact filled
  | cons other rest => simp [Text.join, filled]

attribute [local simp] renderFilterExpression

theorem Rendered.leaf (backend : DatabaseBackend) {filter : FilterExpression ν} {clause : String}
    {values : List ν} (shape : filter = .raw clause values ∨ filter = .trustedFragment clause values)
    (aligned : LeafAligned backend (clause, values)) (start : Nat) :
    ∃ c, Rendered backend filter start c := by
  have own : filter.values = values := by
    rcases shape with rfl | rfl <;> simp [FilterExpression.values, FilterExpression.leaves]
  have leaf : filter.leaves = [(clause, values)] := by
    rcases shape with rfl | rfl <;> rw [FilterExpression.leaves]
  have text (before : List ν) : renderFilterExpression backend filter start before =
      (normalizeSqlPlaceholders backend clause start, start + values.length, before ++ values) := by
    rcases shape with rfl | rfl <;> rw [renderFilterExpression]
  have truth {ρ : Type} (meaning : ClauseMeaning ν ρ) (row : ρ) :
      filter.eval backend meaning row = leafTruth backend meaning row (clause, values) := by
    rcases shape with rfl | rfl <;> rw [FilterExpression.eval]
  have slots := slotsFrom_normalize aligned start
  by_cases nothing : clause = ""
  · -- An empty clause has no placeholders, so it has no values.
    have none : values = [] := by
      have counted := aligned.counted
      rw [nothing] at counted
      exact List.eq_nil_of_length_eq_zero counted.symm
    refine ⟨.none, ⟨fun before => ?_, by simp [textOf], ?_, ?_,
      fun ρ meaning row origin binds _ _ => ?_⟩⟩
    · rw [text, own, normalizeSqlPlaceholders_eq_empty.mpr nothing]
      rfl
    · rw [leaf, ReadsLeaves, List.filter_cons_of_neg (by simp [nothing])]
      exact .nil
    · rw [own, none]
      rfl
    · rw [truth, leafTruth, if_pos nothing]
      rfl
  · refine ⟨some (.clause ⟨normalizeSqlPlaceholders backend clause start, start⟩),
      ⟨fun before => ?_, ?_, ?_, ?_, fun ρ meaning row origin binds later prefixed => ?_⟩⟩
    · rw [text, own]
      simp [textOf, filterSpelling]
    · have filled : normalizeSqlPlaceholders backend clause start ≠ "" :=
        normalizeSqlPlaceholders_eq_empty.not.mpr nothing
      simp [textOf, filterSpelling, filled]
    · rw [leaf, ReadsLeaves, List.filter_cons_of_pos (by simp [nothing])]
      exact .cons (readDatabase_normalize clause start) .nil
    · simp [tokensOf, Condition.tokens, clausesOf, Consecutive, ClauseText.slots, ClauseText.pieces,
        slots, own]
    · rw [own] at prefixed
      have bound := slots_bound aligned later prefixed
      rw [truth, leafTruth, if_neg nothing, ← shape_renumber start, ← readDatabase_normalize, ← bound]
      rfl

theorem Rendered.conj {filters : List (FilterExpression ν)}
    (all : RenderedAll backend filters start cs) :
    Rendered backend (.and filters) start (conjOf cs) where
  rendered before := by
    rw [renderFilterExpression, all.rendered, textOf_conjOf all.empty]
    simp [FilterExpression.values, FilterExpression.leaves]
  empty := by
    cases shape : conjOf cs with
    | none => simp [textOf]
    | some c =>
      rw [conjOf] at shape
      split at shape
      · cases shape
      next first rest _ =>
        cases shape
        have filled : (Factor.group first).text filterSpelling ≠ "" := by simp
        rw [textOf, Option.elim_some, text_one, Term.text_conj, List.map_cons]
        exact iff_of_false (join_ne_empty filled _) (by simp)
  reads := by
    rw [clausesOf_conjOf, FilterExpression.leaves]
    exact all.reads
  counts := by
    rw [clausesOf_conjOf]
    simpa [FilterExpression.values, FilterExpression.leaves] using all.counts
  means ρ meaning row origin values later own := by
    rw [truthOf_conjOf, all.means ρ meaning row origin values later
      (by simpa [FilterExpression.values, FilterExpression.leaves] using own), FilterExpression.eval]

theorem Rendered.disj {filters : List (FilterExpression ν)}
    (all : RenderedAll backend filters start cs) :
    Rendered backend (.or filters) start (some (disjOf cs)) where
  rendered before := by
    rw [renderFilterExpression, all.rendered]
    cases cs with
    | nil =>
      have none : filters = [] := List.eq_nil_of_length_eq_zero all.same.symm
      subst none
      simp [FilterExpression.values, FilterExpression.leaves, leavesOf, disjOf, textOf, filterSpelling]
    | cons c cs =>
      have some : filters ≠ [] := by
        rintro rfl
        exact absurd all.same (by simp)
      rw [textOf_disjOf all.empty]
      simp [some, FilterExpression.values, FilterExpression.leaves]
  empty := by
    have filled : textOf (some (disjOf cs)) ≠ "" := by
      cases cs with
      | nil => simp [disjOf, textOf, filterSpelling]
      | cons c cs =>
        rw [textOf_disjOf all.empty, List.map_cons, List.map_cons]
        refine join_ne_empty ?_ _
        split <;> simp
    simp [filled]
  reads := by
    rw [tokensOf, Option.elim_some, clausesOf_disjOf, FilterExpression.leaves]
    exact all.reads
  counts := by
    rw [tokensOf, Option.elim_some, clausesOf_disjOf]
    simpa [FilterExpression.values, FilterExpression.leaves] using all.counts
  means ρ meaning row origin values later own := by
    rw [truthOf_disjOf, all.means ρ meaning row origin values later
      (by simpa [FilterExpression.values, FilterExpression.leaves] using own), FilterExpression.eval]

theorem RenderedAll.cons {filter : FilterExpression ν} {rest : List (FilterExpression ν)}
    {c : Option FilterCondition} (first : Rendered backend filter start c)
    (others : RenderedAll backend rest (start + filter.values.length) cs) :
    RenderedAll backend (filter :: rest) start (c :: cs) where
  rendered before := by
    rw [renderFilters, first.rendered]
    simp only [others.rendered]
    simp [leavesOf, FilterExpression.values, Nat.add_assoc]
  same := by simp [others.same]
  empty := List.forall_mem_cons.mpr ⟨first.empty, others.empty⟩
  reads := by
    rw [leavesOf, ReadsLeaves, List.filter_append, List.flatMap_cons]
    exact List.rel_append first.reads others.reads
  counts := by
    have whole := first.counts.append others.counts
    rw [Nat.add_assoc] at whole
    simpa [leavesOf, FilterExpression.values] using whole
  means ρ meaning row origin values later own := by
    rw [leavesOf, List.flatMap_append] at own
    obtain ⟨tail, shape⟩ := own
    have left := first.means ρ meaning row origin values later
      ⟨_, by rw [← shape, List.append_assoc]; rfl⟩
    have right := others.means ρ meaning row origin values (by omega) ⟨tail, by
      rw [show start + filter.values.length - origin = start - origin + filter.values.length by omega,
        ← List.drop_drop, ← shape, List.append_assoc]
      exact (List.drop_left).symm⟩
    rw [List.map_cons, left, right, evalFilters]

mutual

theorem rendered_filter (filter : FilterExpression ν)
    (aligned : ∀ leaf ∈ filter.leaves, LeafAligned backend leaf) (start : Nat) :
    ∃ c, Rendered backend filter start c := by
  match filter with
  | .raw clause values =>
    exact Rendered.leaf backend (.inl rfl) (aligned _ (by simp [FilterExpression.leaves])) start
  | .trustedFragment clause values =>
    exact Rendered.leaf backend (.inr rfl) (aligned _ (by simp [FilterExpression.leaves])) start
  | .and filters =>
    obtain ⟨cs, all⟩ := rendered_filters filters
      (by simpa [FilterExpression.leaves] using aligned) start
    exact ⟨_, .conj all⟩
  | .or filters =>
    obtain ⟨cs, all⟩ := rendered_filters filters
      (by simpa [FilterExpression.leaves] using aligned) start
    exact ⟨_, .disj all⟩

theorem rendered_filters (filters : List (FilterExpression ν))
    (aligned : ∀ leaf ∈ leavesOf filters, LeafAligned backend leaf) (start : Nat) :
    ∃ cs, RenderedAll backend filters start cs := by
  match filters with
  | [] =>
    exact ⟨[], fun before => by simp [renderFilters, leavesOf], rfl, by simp, .nil, rfl,
      fun _ _ _ _ _ _ _ => rfl⟩
  | filter :: rest =>
    rw [leavesOf] at aligned
    obtain ⟨c, first⟩ := rendered_filter filter
      (fun leaf mem => aligned leaf (List.mem_append_left _ mem)) start
    obtain ⟨cs, others⟩ := rendered_filters rest
      (fun leaf mem => aligned leaf (List.mem_append_right _ mem))
      (start + filter.values.length)
    exact ⟨_, .cons first others⟩

end

/-- A filter is rendered exactly, if each leaf has a value for each placeholder. -/
theorem renderFilterExpression_exact (filter : FilterExpression ν)
    (aligned : ∀ leaf ∈ filter.leaves, LeafAligned backend leaf) (start : Nat) :
    RendersExactly backend filter start := by
  obtain ⟨c, rendered⟩ := rendered_filter filter aligned start
  refine ⟨c, rendered.rendered, rendered.empty, rendered.reads, rendered.counts,
    fun ρ meaning row => ?_⟩
  exact rendered.means ρ meaning row start filter.values (Nat.le_refl _) (by simp)

def tenantFilter : FilterExpression Nat :=
  .and [.trustedFragment "tenant = ?" [7], .or [.raw "a = $1 OR b = $2" [1, 2], .and []]]

theorem renderFilterExpression_exact_tenant : RendersExactly .postgres tenantFilter 4 :=
  renderFilterExpression_exact tenantFilter (by
    intro leaf mem
    simp only [tenantFilter, FilterExpression.leaves, leavesOf, List.append_nil, List.cons_append,
      List.nil_append, List.mem_cons, List.not_mem_nil, or_false] at mem
    rcases mem with rfl | rfl
    · exact ⟨by decide, fun positional => by cases positional⟩
    · exact ⟨by decide, fun positional => by cases positional⟩) 4

def labelledFilter : FilterExpression Nat := .and [.raw "a = ?1" [10], .raw "b = ?1" [20]]

/-- SQLite keeps the numbers of the leaves, so the second leaf is bound to the first value. -/
theorem renderFilterExpression_keeps_labels :
    (∀ leaf ∈ labelledFilter.leaves, placeholderCount (readClause .sqlite leaf.1) =
      leaf.2.length) ∧ ¬RendersExactly .sqlite labelledFilter 1 := by
  have leaves : labelledFilter.leaves = [("a = ?1", [10]), ("b = ?1", [20])] := by
    simp [labelledFilter, FilterExpression.leaves, leavesOf]
  refine ⟨by rw [leaves]; decide, ?_⟩
  rintro ⟨c, _, _, reads, counts, _⟩
  rw [leaves, ReadsLeaves, List.filter_cons_of_pos (by decide), List.filter_cons_of_pos (by decide),
    List.filter_nil] at reads
  cases shape : clausesOf (tokensOf c) with
  | nil =>
    rw [shape] at reads
    cases reads
  | cons first rest =>
    rw [shape] at reads counts
    obtain _ | ⟨one, _ | ⟨two, _⟩⟩ := reads
    obtain ⟨_, _, _, counted, _⟩ := counts
    -- Either clause is bound by the number that it has from its leaf.
    have slots (clause : ClauseText) (own : clause.pieces .sqlite = readClause .sqlite "a = ?1" ∨
        clause.pieces .sqlite = readClause .sqlite "b = ?1") : clause.slots .sqlite = [1] := by
      rcases own with own | own <;> rw [ClauseText.slots, own] <;> rfl
    rw [slots first (.inl one), slots _ (.inr two)] at counted
    exact absurd counted (by decide)

end GraphqlOrm.Query
