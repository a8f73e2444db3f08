import GraphqlOrm.Foundation.Records
import GraphqlOrm.Schema.Dialect

/-!
# Qualified names read back

The splitter of qualified names covers its input, and reads a name that was put together
from rewritten parts as just these parts.

## Main result

`quoting_idempotent`: quoting or rendering a qualified name a second time changes nothing.
-/
namespace GraphqlOrm.Schema

open Text

namespace DatabaseBackend

/-! ### Reading one part -/

/-- One character of a qualified name; none when it is a dot that ends the part. -/
def pathStep : PathState → Bool → Char → Option PathState
  | .quoted closer, _, c => some (if c = closer then .closing closer else .quoted closer)
  | .closing closer, _, c =>
    if c = closer then some (.quoted closer) else if c = '.' then none else some .plain
  | .plain, start, c =>
    if start ∧ (c = '"' ∨ c = '`') then some (.quoted c)
    else if start ∧ c = '[' then some (.quoted ']')
    else if c = '.' then none
    else some .plain

attribute [local simp] pathParts

theorem pathParts_cons (c : Char) (rest : List Char) (state : PathState) (start : Bool)
    (part : List Char) :
    pathParts (c :: rest) state start part =
      (pathStep state start c).elim (part.reverse :: pathParts rest .plain true [])
        fun state' => pathParts rest state' false (c :: part) := by
  cases state with
  | quoted closer => rfl
  | closing closer =>
    rw [pathParts, pathStep]
    split
    · rfl
    split <;> rfl
  | plain =>
    rw [pathParts, pathStep]
    split
    · rfl
    split
    · rfl
    split <;> rfl

variable {state : PathState} {start : Bool}

/-- Only a dot separates. -/
theorem eq_dot_of_pathStep {c : Char} (stepped : pathStep state start c = none) : c = '.' := by
  cases state with
  | quoted closer => cases stepped
  | closing closer =>
    rw [pathStep] at stepped
    split at stepped
    · cases stepped
    split at stepped
    · assumption
    · cases stepped
  | plain =>
    rw [pathStep] at stepped
    split at stepped
    · cases stepped
    split at stepped
    · cases stepped
    split at stepped
    · assumption
    · cases stepped

def partEnd : List Char → PathState → Bool → Option PathState
  | [], state, _ => some state
  | c :: rest, state, start => (pathStep state start c).bind fun state' => partEnd rest state' false

theorem partEnd_append (text more : List Char) (state : PathState) (start : Bool) :
    partEnd (text ++ more) state start =
      (partEnd text state start).bind fun state' => partEnd more state' (start && text.isEmpty) := by
  induction text generalizing state start with
  | nil => simp [partEnd]
  | cons c rest ih =>
    rw [List.cons_append, partEnd, partEnd, Option.bind_assoc]
    congr 1
    funext state'
    rw [ih]
    simp

variable {state' : PathState}

theorem pathParts_append {text : List Char} (reached : partEnd text state start = some state')
    (more part : List Char) :
    pathParts (text ++ more) state start part =
      pathParts more state' (start && text.isEmpty) (text.reverse ++ part) := by
  induction text generalizing state start part with
  | nil =>
    obtain rfl := Option.some.inj reached
    simp
  | cons c rest ih =>
    obtain ⟨next, stepped, onward⟩ := Option.bind_eq_some_iff.mp reached
    rw [List.cons_append, pathParts_cons, stepped, Option.elim_some, ih onward]
    simp

/-- A dot ends the part unless a delimiter is open. -/
def PathState.Closed : PathState → Prop
  | .quoted _ => False
  | .plain | .closing _ => True

instance : DecidablePred PathState.Closed
  | .quoted _ => .isFalse id
  | .plain => .isTrue trivial
  | .closing _ => .isTrue trivial

def PathState.Known : PathState → Prop
  | .plain => True
  | .quoted closer | .closing closer => closer = '"' ∨ closer = '`' ∨ closer = ']'

theorem PathState.Known.step {c : Char} (known : state.Known)
    (stepped : pathStep state start c = some state') : state'.Known := by
  cases state with
  | quoted closer =>
    obtain rfl := Option.some.inj stepped
    split <;> exact known
  | closing closer =>
    rw [pathStep] at stepped
    split at stepped
    · obtain rfl := Option.some.inj stepped
      exact known
    split at stepped
    · cases stepped
    · obtain rfl := Option.some.inj stepped
      exact trivial
  | plain =>
    rw [pathStep] at stepped
    split at stepped
    next opened =>
      obtain rfl := Option.some.inj stepped
      exact opened.2.imp_right .inl
    split at stepped
    · obtain rfl := Option.some.inj stepped
      exact .inr (.inr rfl)
    split at stepped
    · cases stepped
    · obtain rfl := Option.some.inj stepped
      exact trivial

theorem PathState.Known.partEnd {text : List Char} (known : state.Known)
    (reached : partEnd text state start = some state') : state'.Known := by
  induction text generalizing state start with
  | nil =>
    obtain rfl := Option.some.inj reached
    exact known
  | cons c rest ih =>
    obtain ⟨next, stepped, onward⟩ := Option.bind_eq_some_iff.mp reached
    exact ih (known.step stepped) onward

theorem pathStep_dot_iff (known : state.Known) (start : Bool) :
    pathStep state start '.' = none ↔ state.Closed := by
  cases state with
  | plain | quoted closer => simp [pathStep, PathState.Closed]
  | closing closer =>
    have other : closer ≠ '.' := by
      rintro rfl
      rcases known with same | same | same <;> cases same
    simp [pathStep, PathState.Closed, other.symm]

/-! ### Sequences of parts -/

/-- No part is cut by a dot of its own, and only the last may leave a delimiter open. -/
def Splits : List (List Char) → Prop
  | [] => True
  | part :: rest => (∃ state, partEnd part .plain true = some state ∧ (rest ≠ [] → state.Closed)) ∧
      Splits rest

variable {parts : List (List Char)}

theorem Splits.filter {keep : List Char → Bool} (splits : Splits parts) :
    Splits (parts.filter keep) := by
  induction parts with
  | nil => trivial
  | cons part rest ih =>
    obtain ⟨⟨state, reached, closed⟩, others⟩ := splits
    rw [List.filter_cons]
    split
    · refine ⟨⟨state, reached, fun some => closed ?_⟩, ih others⟩
      rintro rfl
      exact some rfl
    · exact ih others

theorem Splits.map {rewrite : List Char → List Char}
    (keeps : ∀ part state, partEnd part .plain true = some state →
      ∃ state', partEnd (rewrite part) .plain true = some state' ∧ (state.Closed → state'.Closed))
    (splits : Splits parts) : Splits (parts.map rewrite) := by
  induction parts with
  | nil => trivial
  | cons part rest ih =>
    obtain ⟨⟨state, reached, closed⟩, others⟩ := splits
    obtain ⟨state', reached', kept⟩ := keeps part state reached
    refine ⟨⟨state', reached', fun some => kept (closed ?_)⟩, ih others⟩
    rintro rfl
    exact some rfl

/-- The parts of any text form such a sequence. -/
theorem splits_pathParts {text part : List Char} {state : PathState} {start : Bool}
    (reached : partEnd part.reverse .plain true = some state) (fresh : start = part.isEmpty) :
    Splits (pathParts text state start part) := by
  induction text generalizing state start part with
  | nil =>
    rw [pathParts]
    exact ⟨⟨state, reached, fun some => absurd rfl some⟩, trivial⟩
  | cons c rest ih =>
    have known : state.Known := @PathState.Known.partEnd .plain _ _ _ trivial reached
    rw [pathParts_cons]
    cases stepped : pathStep state start c with
    | some state' =>
      apply @ih (c :: part) _ _ _ rfl
      rw [List.reverse_cons, partEnd_append, reached, Option.bind_some, partEnd, Bool.true_and,
        List.isEmpty_reverse, ← fresh, stepped]
      rfl
    | none =>
      obtain rfl := eq_dot_of_pathStep stepped
      refine ⟨⟨state, reached, fun _ => (pathStep_dot_iff known start).mp stepped⟩, ih rfl rfl⟩

theorem pathParts_ne_nil (text : List Char) (state : PathState) (start : Bool) (part : List Char) :
    pathParts text state start part ≠ [] := by
  induction text generalizing state start part with
  | nil => exact List.cons_ne_nil _ _
  | cons c rest ih =>
    rw [pathParts_cons]
    cases pathStep state start c with
    | none => exact List.cons_ne_nil _ _
    | some state' => exact ih state' false (c :: part)

/-- A sequence of parts put together with dots is read as these parts. -/
theorem pathParts_intercalate (some : parts ≠ []) (splits : Splits parts) :
    pathParts (List.intercalate ['.'] parts) .plain true [] = parts := by
  induction parts with
  | nil => exact absurd rfl some
  | cons part rest ih =>
    obtain ⟨⟨state, reached, closed⟩, others⟩ := splits
    cases rest with
    | nil =>
      have whole := pathParts_append reached [] []
      simp only [List.append_nil] at whole
      rw [List.intercalate_singleton, whole, pathParts, List.reverse_reverse]
    | cons next more =>
      have known : state.Known := @PathState.Known.partEnd .plain _ _ _ trivial reached
      have dot := (pathStep_dot_iff known (true && part.isEmpty)).mpr (closed (List.cons_ne_nil _ _))
      rw [List.intercalate_cons_cons, List.append_assoc, List.singleton_append,
        pathParts_append reached, pathParts_cons, dot, Option.elim_none,
        ih (List.cons_ne_nil _ _) others, List.append_nil, List.reverse_reverse]

/-- The parts cover the text. -/
theorem intercalate_pathParts (text : List Char) (state : PathState) (start : Bool)
    (part : List Char) :
    List.intercalate ['.'] (pathParts text state start part) = part.reverse ++ text := by
  induction text generalizing state start part with
  | nil => rw [pathParts, List.intercalate_singleton, List.append_nil]
  | cons c rest ih =>
    rw [pathParts_cons]
    cases stepped : pathStep state start c with
    | some state' => rw [Option.elim_some, ih]; simp
    | none =>
      obtain rfl := eq_dot_of_pathStep stepped
      rw [Option.elim_none, List.intercalate_cons_of_ne_nil (pathParts_ne_nil _ _ _ _), ih]
      simp

/-! ### The iterator -/

/-- One call of the iterator: the part up to the next separating dot and the text after it,
or the last part. -/
def nextPart : List Char → PathState → Bool → List Char × Option (List Char)
  | [], _, _ => ([], none)
  | c :: rest, state, start =>
    match pathStep state start c with
    | none => ([], some rest)
    | some state' => ((nextPart rest state' false).1.cons c, (nextPart rest state' false).2)

theorem length_nextPart {text rest : List Char} (left : (nextPart text state start).2 = some rest) :
    rest.length < text.length := by
  induction text generalizing state start with
  | nil => cases left
  | cons c text ih =>
    rw [nextPart] at left
    split at left
    · obtain rfl := Option.some.inj left
      simp
    next state' _ =>
      have shorter := ih left
      simp only [List.length_cons]
      omega

theorem pathParts_nextPart (text : List Char) (state : PathState) (start : Bool)
    (part : List Char) :
    pathParts text state start part = (part.reverse ++ (nextPart text state start).1) ::
      (nextPart text state start).2.elim [] fun rest => pathParts rest .plain true [] := by
  induction text generalizing state start part with
  | nil => simp [pathParts, nextPart]
  | cons c text ih =>
    rw [pathParts_cons, nextPart]
    cases pathStep state start c with
    | none => simp
    | some state' => simp [ih]

/-- The calls of the iterator from the text that is left, until it has ended. -/
inductive Yields : Option (List Char) → List (List Char) → Prop
  | ended : Yields none []
  | call {text : List Char} {parts : List (List Char)} :
      Yields (nextPart text .plain true).2 parts →
      Yields (some text) ((nextPart text .plain true).1 :: parts)

/-- The iterator ends, and has then yielded the parts. -/
theorem yields_pathParts (text : List Char) : Yields (some text) (pathParts text .plain true []) := by
  rw [pathParts_nextPart, List.reverse_nil, List.nil_append]
  apply Yields.call
  cases left : (nextPart text .plain true).2 with
  | none => exact .ended
  | some rest =>
    have shorter := length_nextPart left
    exact yields_pathParts rest
termination_by text.length

/-! ### Quoting one part -/

def ownDelimiters : DatabaseBackend → Char × Char
  | mssql => ('[', ']')
  | sqlite | postgres | mysql => ('"', '"')

/-- A name is passed through or delimited. -/
theorem quoteIdentifier_cases (backend : DatabaseBackend) (identifier : String) :
    backend.quoteIdentifier identifier = identifier ∨ backend ≠ mysql ∧
      backend.quoteIdentifier identifier =
        delimit backend.ownDelimiters.1 backend.ownDelimiters.2 identifier := by
  cases backend with
  | mysql => exact .inl rfl
  | sqlite | postgres | mssql =>
    rw [quoteIdentifier]
    split
    · exact .inl rfl
    · exact .inr ⟨nofun, rfl⟩

theorem toList_delimit (opening closing : Char) (identifier : String) :
    (delimit opening closing identifier).toList = opening ::
      ((identifier.toList.flatMap fun c => if c = closing then [closing, closing] else [c]) ++
        [closing]) := by
  simp [delimit, replace]

theorem wrapped_delimit (opening closing : Char) (identifier : String) :
    wrapped opening closing (delimit opening closing identifier) = true := by
  rw [wrapped, startsWith, endsWith, toList_delimit, ← List.cons_append, List.getLast?_concat]
  simp

/-- What has been delimited is passed through. -/
theorem quoteIdentifier_delimit (backend : DatabaseBackend) (identifier : String) :
    backend.quoteIdentifier
        (delimit backend.ownDelimiters.1 backend.ownDelimiters.2 identifier) =
      delimit backend.ownDelimiters.1 backend.ownDelimiters.2 identifier := by
  cases backend <;> simp [quoteIdentifier, ownDelimiters, wrapped_delimit]

theorem quoteIdentifier_idem (backend : DatabaseBackend) (identifier : String) :
    backend.quoteIdentifier (backend.quoteIdentifier identifier) =
      backend.quoteIdentifier identifier := by
  rcases backend.quoteIdentifier_cases identifier with passed | ⟨-, delimited⟩
  · rw [passed, passed]
  · rw [delimited, quoteIdentifier_delimit]

theorem quoteIdentifier_ne_empty (backend : DatabaseBackend) {identifier : String}
    (some : identifier ≠ "") : backend.quoteIdentifier identifier ≠ "" := by
  rcases backend.quoteIdentifier_cases identifier with passed | ⟨-, delimited⟩
  · rwa [passed]
  · intro none
    have opened := congrArg String.toList (delimited.symm.trans none)
    rw [toList_delimit] at opened
    cases opened

/-- The doubled delimiters of a text close nothing. -/
theorem partEnd_doubled (closing : Char) (text rest : List Char) (start : Bool) :
    partEnd ((text.flatMap fun c => if c = closing then [closing, closing] else [c]) ++ rest)
        (.quoted closing) start =
      partEnd rest (.quoted closing) (start && text.isEmpty) := by
  induction text generalizing start with
  | nil => simp
  | cons c text ih =>
    rw [List.flatMap_cons, List.append_assoc]
    split
    next same =>
      simp only [List.cons_append, List.nil_append, partEnd, pathStep, Option.bind_some, if_true]
      rw [ih]
      simp
    next other =>
      simp only [List.cons_append, List.nil_append, partEnd, pathStep, Option.bind_some,
        if_neg other]
      rw [ih]
      simp

/-- A delimited name is one part, whatever it contains. -/
theorem partEnd_delimit (backend : DatabaseBackend) (identifier : String) :
    partEnd (delimit backend.ownDelimiters.1 backend.ownDelimiters.2 identifier).toList .plain true =
      some (.closing backend.ownDelimiters.2) := by
  have opened : pathStep .plain true backend.ownDelimiters.1 =
      some (.quoted backend.ownDelimiters.2) := by
    cases backend <;> rfl
  rw [toList_delimit, partEnd, opened, Option.bind_some, partEnd_doubled]
  simp [partEnd, pathStep]

variable {rewrite : String → String}

/-- Rewriting a part by quoting it, or not, keeps it one part. -/
theorem partEnd_rewritten (backend : DatabaseBackend)
    (either : ∀ part, rewrite part = part ∨ rewrite part = backend.quoteIdentifier part)
    (part : List Char) (state : PathState) (reached : partEnd part .plain true = some state) :
    ∃ state', partEnd (rewrite (String.ofList part)).toList .plain true = some state' ∧
      (state.Closed → state'.Closed) := by
  have unchanged : ∃ state', partEnd (String.ofList part).toList .plain true = some state' ∧
      (state.Closed → state'.Closed) := ⟨state, by rwa [String.toList_ofList], id⟩
  rcases either (String.ofList part) with same | quoted
  · rwa [same]
  rw [quoted]
  rcases backend.quoteIdentifier_cases (String.ofList part) with passed | ⟨-, delimited⟩
  · rwa [passed]
  · rw [delimited]
    exact ⟨_, partEnd_delimit backend _, fun _ => trivial⟩

/-! ### Qualified names -/

def namedParts (identifier : String) : List String :=
  (identifierPathParts identifier).filter (!·.isEmpty)

/-- The parts, joined by dots, are the name. -/
theorem join_identifierPathParts (identifier : String) :
    join "." (identifierPathParts identifier) = identifier := by
  apply String.toList_injective
  have joined := toList_join '.' (identifierPathParts identifier)
  have lists : (identifierPathParts identifier).map String.toList =
      pathParts identifier.toList .plain true [] := by
    simp [identifierPathParts, Function.comp_def]
  rw [lists, intercalate_pathParts] at joined
  exact joined

/-- A sequence of parts, joined by dots, is read as these parts. -/
theorem identifierPathParts_join {parts : List String} (some : parts ≠ [])
    (splits : Splits (parts.map String.toList)) : identifierPathParts (join "." parts) = parts := by
  have joined := toList_join '.' parts
  rw [identifierPathParts, show "." = String.ofList ['.'] from rfl, joined,
    pathParts_intercalate (by simpa using some) splits]
  simp [Function.comp_def]

section

variable (backend : DatabaseBackend)
include backend

theorem splits_rewritten (either : ∀ part, rewrite part = part ∨ rewrite part = backend.quoteIdentifier part)
    (identifier : String) : Splits (((namedParts identifier).map rewrite).map String.toList) := by
  have read : Splits (pathParts identifier.toList .plain true []) := splits_pathParts rfl rfl
  have filled : Splits ((pathParts identifier.toList .plain true []).filter
      fun part => !(String.ofList part).isEmpty) := read.filter
  have kept := filled.map (partEnd_rewritten backend either)
  have lists : ((namedParts identifier).map rewrite).map String.toList =
      ((pathParts identifier.toList .plain true []).filter
        fun part => !(String.ofList part).isEmpty).map
          fun part => (rewrite (String.ofList part)).toList := by
    simp [namedParts, identifierPathParts, List.filter_map, Function.comp_def]
  rwa [lists]

/-- A name put together from rewritten parts has just these parts. -/
theorem namedParts_rewritten (either : ∀ part, rewrite part = part ∨ rewrite part = backend.quoteIdentifier part)
    (identifier : String) :
    namedParts (join "." ((namedParts identifier).map rewrite)) =
      (namedParts identifier).map rewrite := by
  rcases eq_or_ne ((namedParts identifier).map rewrite) [] with none | some
  · rw [none]
    rfl
  have kept : ∀ part ∈ (namedParts identifier).map rewrite, (!part.isEmpty) = true := by
    intro part member
    obtain ⟨own, mem, rfl⟩ := List.mem_map.mp member
    have filled : own ≠ "" := by
      rintro rfl
      simp [namedParts] at mem
    have rewritten : rewrite own ≠ "" := by
      rcases either own with same | quoted
      · rwa [same]
      · rw [quoted]
        exact backend.quoteIdentifier_ne_empty filled
    simpa using rewritten
  rw [namedParts, identifierPathParts_join some (splits_rewritten backend either identifier),
    List.filter_eq_self.mpr kept]

theorem quoteIdentifierPath_idem (identifier : String) :
    backend.quoteIdentifierPath (backend.quoteIdentifierPath identifier) =
      backend.quoteIdentifierPath identifier := by
  unfold quoteIdentifierPath
  split
  · rfl
  change join "." ((namedParts (join "." ((namedParts identifier).map
    backend.quoteIdentifier))).map backend.quoteIdentifier) = _
  rw [namedParts_rewritten backend (fun part => .inr rfl), List.map_map]
  congr 1
  exact List.map_congr_left fun part _ => backend.quoteIdentifier_idem part

theorem renderIdentifier_either (part : String) :
    backend.renderIdentifier part = part ∨
      backend.renderIdentifier part = backend.quoteIdentifier part := by
  unfold renderIdentifier
  split
  · exact .inr rfl
  · exact .inl rfl

/-- What has been rendered needs no quoting. -/
theorem identifierNeedsQuoting_rendered (part : String) :
    backend.identifierNeedsQuoting (backend.renderIdentifier part) = false := by
  unfold renderIdentifier
  split
  · rw [identifierNeedsQuoting, if_pos (.inr (backend.quoteIdentifier_idem part))]
  next plain => simpa using plain

theorem renderIdentifierPath_idem (identifier : String) :
    backend.renderIdentifierPath (backend.renderIdentifierPath identifier) =
      backend.renderIdentifierPath identifier := by
  by_cases needed : ((namedParts identifier).any backend.identifierNeedsQuoting) = true
  · have written : backend.renderIdentifierPath identifier =
        join "." ((namedParts identifier).map backend.renderIdentifier) := if_pos needed
    -- No part of the rendered name needs quoting, so it is returned as it is.
    have settled : ((namedParts (backend.renderIdentifierPath identifier)).any
        backend.identifierNeedsQuoting) = false := by
      rw [written, namedParts_rewritten backend backend.renderIdentifier_either, List.any_map,
        List.any_eq_false]
      intro part _
      simp [identifierNeedsQuoting_rendered]
    have unchanged (name : String) (settled : (namedParts name).any backend.identifierNeedsQuoting =
        false) : backend.renderIdentifierPath name = name := if_neg (by rw [← namedParts, settled]; simp)
    exact unchanged _ settled
  · have kept : backend.renderIdentifierPath identifier = identifier := if_neg needed
    rw [kept, kept]

end

/-- Quoting or rendering a qualified name twice is doing so once. The iterator over its
parts ends, and they cover the name. -/
theorem quoting_idempotent (backend : DatabaseBackend) (identifier : String) :
    backend.quoteIdentifierPath (backend.quoteIdentifierPath identifier) =
        backend.quoteIdentifierPath identifier ∧
      backend.renderIdentifierPath (backend.renderIdentifierPath identifier) =
        backend.renderIdentifierPath identifier ∧
      Yields (some identifier.toList) ((identifierPathParts identifier).map String.toList) ∧
      join "." (identifierPathParts identifier) = identifier := by
  have lists : (identifierPathParts identifier).map String.toList =
      pathParts identifier.toList .plain true [] := by
    simp [identifierPathParts, Function.comp_def]
  refine ⟨backend.quoteIdentifierPath_idem identifier, backend.renderIdentifierPath_idem identifier,
    ?_, join_identifierPathParts identifier⟩
  rw [lists]
  exact yields_pathParts identifier.toList

end DatabaseBackend

end GraphqlOrm.Schema
