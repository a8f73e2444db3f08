import GraphqlOrm.Schema.Compare
import GraphqlOrm.Schema.IdentifierPaths

/-!
# Well-formed identifiers

When quoted and rendered names are read by a backend as the identifiers they should be.

## Main result

`wellFormed_iff`: names that arrive looking delimited are passed through unread, so they
have to be well formed themselves; every other name is.
-/
namespace GraphqlOrm.Schema

open Text

namespace DatabaseBackend

/-! ### Identifiers -/

def delimiters : DatabaseBackend → List (Char × Char)
  | sqlite => [('"', '"'), ('[', ']'), ('`', '`')]
  | postgres => [('"', '"')]
  | mssql => [('[', ']'), ('"', '"')]
  | mysql => []

/-- The text is read as exactly one delimited identifier: its closing delimiter comes at
the very end, and doubled before. A doubled `]` is read so on SQLite too, where brackets know no
doubling and end at the first one. -/
def Delimited (backend : DatabaseBackend) (text : String) : Prop :=
  ∃ pair ∈ backend.delimiters, ∃ body name, text.toList = pair.1 :: body ∧
    delimited pair.2 body = some (name, [])

def Plain (backend : DatabaseBackend) (text : String) : Prop :=
  ∃ first rest, text.toList = first :: rest ∧ backend.plainStart first = true ∧
    rest.all backend.plainRest = true ∧ lower text ∉ backend.reservedIdentifiers

def Sequence (backend : DatabaseBackend) (text : String) : Prop :=
  ∃ parts, text = join "." parts ∧ ∀ part ∈ parts, backend.Delimited part ∨ backend.Plain part

/-- Every closing delimiter of the text is followed by another that it is paired with. -/
def doubledInside (closing : Char) : List Char → Bool
  | [] => true
  | [c] => c != closing
  | c :: d :: rest =>
    if c = closing then d == closing && doubledInside closing rest
    else doubledInside closing (d :: rest)

/-- A name that starts and ends like a delimited identifier but is none: a lone quote, or
one with a closing delimiter inside that is not doubled. -/
def Malformed (backend : DatabaseBackend) (text : String) : Prop :=
  ∃ pair ∈ backend.delimiters, text.toList = [pair.1] ∧ pair.1 = pair.2 ∨
    ∃ body, text.toList = pair.1 :: (body ++ [pair.2]) ∧ doubledInside pair.2 body = false

/-! ### Delimited text -/

attribute [local simp] delimited

theorem delimited_cons {closing c : Char} (other : c ≠ closing) (rest : List Char) :
    delimited closing (c :: rest) =
      (delimited closing rest).map fun (body, left) => (c :: body, left) := by
  cases rest <;> simp [delimited, other]

theorem delimited_paired (closing : Char) (rest : List Char) :
    delimited closing (closing :: closing :: rest) =
      (delimited closing rest).map fun (body, left) => (closing :: body, left) := by
  simp [delimited]

/-- A text with its delimiters doubled is read up to the delimiter that stands alone. -/
theorem delimited_doubled_append {closing : Char} (text more : List Char)
    (apart : more.head? ≠ some closing) :
    delimited closing ((text.flatMap fun c => if c = closing then [closing, closing] else [c]) ++
      closing :: more) = some (text, more) := by
  induction text with
  | nil =>
    cases more with
    | nil => simp [delimited]
    | cons d more =>
      have other : d ≠ closing := by simpa using apart
      simp [delimited, other]
  | cons c text ih =>
    rw [List.flatMap_cons, List.append_assoc]
    split
    next same =>
      rw [List.cons_append, List.singleton_append, delimited_paired, ih, Option.map_some, same]
    next other => rw [List.singleton_append, delimited_cons other, ih, Option.map_some]

theorem delimited_doubled (closing : Char) (text : List Char) :
    delimited closing ((text.flatMap fun c => if c = closing then [closing, closing] else [c]) ++
      [closing]) = some (text, []) :=
  delimited_doubled_append text [] (by simp)

/-- A body is read to its end exactly if the closing delimiters inside are doubled. -/
theorem delimited_iff (closing : Char) (body : List Char) :
    (∃ name, delimited closing (body ++ [closing]) = some (name, [])) ↔
      doubledInside closing body = true := by
  induction body using doubledInside.induct closing with
  | case1 => simp [delimited, doubledInside]
  | case2 c =>
    by_cases same : c = closing
    · simp [delimited, doubledInside, same]
    · simp [delimited, doubledInside, same]
  | case3 d rest ih =>
    by_cases paired : d = closing
    · subst paired
      rw [doubledInside, if_pos rfl, beq_self_eq_true, Bool.true_and, ← ih, List.cons_append,
        List.cons_append, delimited_paired]
      simp
    · simp [delimited, doubledInside, paired]
  | case4 c d rest other ih =>
    rw [doubledInside, if_neg other, ← ih, List.cons_append, delimited_cons other]
    simp

theorem delimited_delimit (backend : DatabaseBackend) (known : backend ≠ mysql)
    (identifier : String) :
    backend.Delimited (delimit backend.ownDelimiters.1 backend.ownDelimiters.2 identifier) := by
  refine ⟨backend.ownDelimiters, ?_, _, identifier.toList, toList_delimit _ _ _,
    delimited_doubled _ _⟩
  cases backend with
  | mysql => exact absurd rfl known
  | sqlite | postgres | mssql => decide

/-- What is read as a delimited body is its name with the delimiters doubled. -/
theorem delimited_eq_some {closing : Char} {body name left : List Char}
    (read : delimited closing body = some (name, left)) :
    body = (name.flatMap fun c => if c = closing then [closing, closing] else [c]) ++
      closing :: left := by
  induction body using doubledInside.induct closing generalizing name with
  | case1 => cases read
  | case2 c =>
    by_cases same : c = closing
    · subst same
      simp only [delimited, if_true, Option.some.injEq, Prod.mk.injEq] at read
      obtain ⟨rfl, rfl⟩ := read
      rfl
    · rw [delimited_cons same] at read
      cases read
  | case3 d rest ih =>
    by_cases paired : d = closing
    · subst paired
      rw [delimited_paired] at read
      obtain ⟨⟨inner, left'⟩, found, same⟩ := Option.map_eq_some_iff.mp read
      obtain ⟨rfl, rfl⟩ := Prod.mk.inj same
      rw [ih found]
      simp
    · simp only [delimited, if_true, if_neg paired, Option.some.injEq, Prod.mk.injEq] at read
      obtain ⟨rfl, rfl⟩ := read
      rfl
  | case4 c d rest other ih =>
    rw [delimited_cons other] at read
    obtain ⟨⟨inner, left'⟩, found, same⟩ := Option.map_eq_some_iff.mp read
    obtain ⟨rfl, rfl⟩ := Prod.mk.inj same
    rw [ih found]
    simp [other]

/-! ### What is passed through -/

variable {backend : DatabaseBackend} {text : String}

theorem wrapped_iff {opening closing : Char} :
    wrapped opening closing text = true ↔
      text.toList = [opening] ∧ opening = closing ∨
        ∃ body, text.toList = opening :: (body ++ [closing]) := by
  rw [wrapped, startsWith, endsWith, Bool.and_eq_true, beq_iff_eq, beq_iff_eq]
  constructor
  · rintro ⟨first, last⟩
    obtain ⟨rest, whole⟩ := List.head?_eq_some_iff.mp first
    rw [whole] at last ⊢
    rcases List.eq_nil_or_concat rest with rfl | ⟨body, d, rfl⟩
    · exact .inl ⟨rfl, by simpa using last⟩
    · rw [List.concat_eq_append, ← List.cons_append, List.getLast?_concat, Option.some.injEq] at last
      exact .inr ⟨body, by rw [List.concat_eq_append, last]⟩
  · rintro (⟨whole, rfl⟩ | ⟨body, whole⟩)
    · simp [whole]
    · rw [whole, ← List.cons_append, List.getLast?_concat]
      simp

theorem quoteIdentifier_of_wrapped
    (passes : ∃ pair ∈ backend.delimiters, wrapped pair.1 pair.2 text = true) :
    backend.quoteIdentifier text = text := by
  cases backend with
  | mysql => rfl
  | sqlite | postgres | mssql =>
    simp only [delimiters, List.mem_cons, List.not_mem_nil, or_false, exists_eq_or_imp,
      exists_eq_left] at passes
    rw [quoteIdentifier, if_pos (by simpa [or_assoc] using passes)]

theorem quoteIdentifier_of_bare (known : backend ≠ mysql)
    (bare : ¬ ∃ pair ∈ backend.delimiters, wrapped pair.1 pair.2 text = true) :
    backend.quoteIdentifier text =
      delimit backend.ownDelimiters.1 backend.ownDelimiters.2 text := by
  cases backend with
  | mysql => exact absurd rfl known
  | sqlite | postgres | mssql =>
    simp only [delimiters, List.mem_cons, List.not_mem_nil, or_false, exists_eq_or_imp,
      exists_eq_left, not_or, Bool.not_eq_true] at bare
    simp [quoteIdentifier, ownDelimiters, bare]

/-- The opening delimiter decides the closing one. -/
theorem delimiters_functional {pair pair' : Char × Char} (mem : pair ∈ backend.delimiters)
    (mem' : pair' ∈ backend.delimiters) (same : pair.1 = pair'.1) : pair = pair' := by
  cases backend <;> simp only [delimiters, List.mem_cons, List.not_mem_nil, or_false] at mem mem'
  · rcases mem with rfl | rfl | rfl <;> rcases mem' with rfl | rfl | rfl <;> first | rfl | cases same
  · rw [mem, mem']
  · rcases mem with rfl | rfl <;> rcases mem' with rfl | rfl <;> first | rfl | cases same

theorem Malformed.wrapped (malformed : backend.Malformed text) :
    ∃ pair ∈ backend.delimiters, DatabaseBackend.wrapped pair.1 pair.2 text = true := by
  obtain ⟨pair, mem, lone | ⟨body, whole, -⟩⟩ := malformed
  · exact ⟨pair, mem, wrapped_iff.mpr (.inl lone)⟩
  · exact ⟨pair, mem, wrapped_iff.mpr (.inr ⟨body, whole⟩)⟩

theorem Malformed.not_delimited (malformed : backend.Malformed text) : ¬ backend.Delimited text := by
  rintro ⟨pair, mem, body, name, whole, read⟩
  obtain ⟨pair', mem', lone | ⟨inner, whole', undoubled⟩⟩ := malformed
  · rw [lone.1, List.cons.injEq] at whole
    rw [← whole.2] at read
    cases read
  · rw [whole', List.cons.injEq] at whole
    obtain rfl := delimiters_functional mem' mem whole.1
    rw [← whole.2] at read
    exact absurd ((delimited_iff _ _).mp ⟨name, read⟩) (by simp [undoubled])

/-- A name that is passed through is well formed unless it only looks so. -/
theorem delimited_of_wrapped (sound : ¬ backend.Malformed text)
    (passes : ∃ pair ∈ backend.delimiters, wrapped pair.1 pair.2 text = true) :
    backend.Delimited text := by
  obtain ⟨pair, mem, ends⟩ := passes
  rcases wrapped_iff.mp ends with lone | ⟨body, whole⟩
  · exact absurd ⟨pair, mem, .inl lone⟩ sound
  · have doubled : doubledInside pair.2 body = true := by
      by_contra undoubled
      exact sound ⟨pair, mem, .inr ⟨body, whole, by simpa using undoubled⟩⟩
    obtain ⟨name, read⟩ := (delimited_iff _ _).mpr doubled
    exact ⟨pair, mem, _, name, whole, read⟩

theorem delimited_quoteIdentifier_iff (known : backend ≠ mysql) :
    backend.Delimited (backend.quoteIdentifier text) ↔ ¬ backend.Malformed text := by
  by_cases passes : ∃ pair ∈ backend.delimiters, wrapped pair.1 pair.2 text = true
  · rw [quoteIdentifier_of_wrapped passes]
    exact ⟨fun delimited malformed => malformed.not_delimited delimited,
      fun sound => delimited_of_wrapped sound passes⟩
  · rw [quoteIdentifier_of_bare known passes]
    exact ⟨fun _ malformed => passes malformed.wrapped,
      fun _ => delimited_delimit backend known text⟩

/-! ### Identifiers as parts -/

theorem plainRest_of_plainStart {c : Char} (plain : backend.plainStart c = true) :
    backend.plainRest c = true := by
  simp [plainRest, plain]

/-- Neither a dot nor a delimiter is a character of a plain identifier. -/
theorem plainRest_separator {c : Char} (separator : c = '.' ∨ c = '"' ∨ c = '`' ∨ c = '[') :
    backend.plainRest c = false := by
  rcases separator with rfl | rfl | rfl | rfl <;> cases backend <;> decide

theorem partEnd_plain {chars : List Char} (plain : chars.all backend.plainRest = true) :
    ∀ start, partEnd chars .plain start = some .plain := by
  induction chars with
  | nil => exact fun _ => rfl
  | cons c rest ih =>
    intro start
    rw [List.all_cons, Bool.and_eq_true] at plain
    have other (d : Char) (separator : d = '.' ∨ d = '"' ∨ d = '`' ∨ d = '[') : c ≠ d := by
      rintro rfl
      rw [plainRest_separator separator] at plain
      exact absurd plain.1 Bool.false_ne_true
    have stepped : pathStep .plain start c = some .plain := by
      simp [pathStep, other '.', other '"', other '`', other '[']
    rw [partEnd, stepped, Option.bind_some, ih plain.2]

/-- An identifier is one part of a qualified name, and closes what it opens. -/
theorem partEnd_identifier (identifier : backend.Delimited text ∨ backend.Plain text) :
    ∃ state, partEnd text.toList .plain true = some state ∧ state.Closed := by
  rcases identifier with ⟨pair, mem, body, name, whole, read⟩ | ⟨first, rest, whole, start, plain, -⟩
  · have opened : pathStep .plain true pair.1 = some (.quoted pair.2) := by
      cases backend <;> simp only [delimiters, List.mem_cons, List.not_mem_nil, or_false] at mem
      · rcases mem with rfl | rfl | rfl <;> rfl
      · rw [mem]; rfl
      · rcases mem with rfl | rfl <;> rfl
    refine ⟨.closing pair.2, ?_, trivial⟩
    rw [whole, partEnd, opened, Option.bind_some, delimited_eq_some read, partEnd_doubled]
    simp [partEnd, pathStep]
  · refine ⟨.plain, ?_, trivial⟩
    rw [whole]
    apply @partEnd_plain backend
    rw [List.all_cons, plainRest_of_plainStart start, plain, Bool.and_true]

theorem Delimited.ne_empty (delimited : backend.Delimited text) : text ≠ "" := by
  rintro rfl
  obtain ⟨pair, -, body, name, whole, -⟩ := delimited
  cases whole

theorem Plain.ne_empty (plain : backend.Plain text) : text ≠ "" := by
  rintro rfl
  obtain ⟨first, rest, whole, -⟩ := plain
  cases whole

theorem Plain.not_malformed (plain : backend.Plain text) : ¬ backend.Malformed text := by
  intro malformed
  obtain ⟨pair, mem, ends⟩ := malformed.wrapped
  obtain ⟨first, rest, whole, start, -⟩ := plain
  have opening : first = pair.1 := by
    rcases wrapped_iff.mp ends with ⟨lone, -⟩ | ⟨body, same⟩
    · rw [whole, List.cons.injEq] at lone
      exact lone.1
    · rw [whole, List.cons.injEq] at same
      exact same.1
  have separator : pair.1 = '.' ∨ pair.1 = '"' ∨ pair.1 = '`' ∨ pair.1 = '[' := by
    cases backend <;> simp only [delimiters, List.mem_cons, List.not_mem_nil, or_false] at mem
    · rcases mem with rfl | rfl | rfl <;> decide
    · rw [mem]; decide
    · rcases mem with rfl | rfl <;> decide
  have none := @plainRest_separator backend _ separator
  rw [← opening, plainRest_of_plainStart start] at none
  cases none

theorem not_malformed (identifier : backend.Delimited text ∨ backend.Plain text) :
    ¬ backend.Malformed text :=
  identifier.elim (fun delimited malformed => malformed.not_delimited delimited) Plain.not_malformed

/-- The parts of a sequence of identifiers are these identifiers. -/
theorem Sequence.parts (sequence : backend.Sequence text) :
    text = "" ∨ ∀ part ∈ identifierPathParts text, backend.Delimited part ∨ backend.Plain part := by
  obtain ⟨parts, rfl, identifiers⟩ := sequence
  rcases eq_or_ne parts [] with rfl | some
  · exact .inl rfl
  have splits : Splits (parts.map String.toList) := by
    clear some
    induction parts with
    | nil => trivial
    | cons part rest ih =>
      obtain ⟨state, reached, closed⟩ := partEnd_identifier (identifiers part (.head _))
      exact ⟨⟨state, reached, fun _ => closed⟩,
        ih fun other mem => identifiers other (List.mem_cons_of_mem part mem)⟩
  rw [identifierPathParts_join some splits]
  exact .inr identifiers

theorem mem_namedParts {part : String} :
    part ∈ namedParts text ↔ part ∈ identifierPathParts text ∧ part ≠ "" := by
  simp [namedParts]

theorem namedParts_empty : namedParts "" = [] := by
  simp [namedParts, identifierPathParts, pathParts]

/-! ### Qualified names -/

theorem sequence_quoteIdentifierPath_iff (known : backend ≠ mysql) :
    backend.Sequence (backend.quoteIdentifierPath text) ↔
      ∀ part ∈ identifierPathParts text, part ≠ "" → ¬ backend.Malformed part := by
  have written : backend.quoteIdentifierPath text =
      join "." ((namedParts text).map backend.quoteIdentifier) := if_neg known
  constructor
  · intro sequence part mem filled
    rw [← delimited_quoteIdentifier_iff known]
    have named : backend.quoteIdentifier part ∈ namedParts (backend.quoteIdentifierPath text) := by
      rw [written, namedParts_rewritten backend fun _ => .inr rfl]
      exact List.mem_map_of_mem (mem_namedParts.mpr ⟨mem, filled⟩)
    rcases sequence.parts with empty | identifiers
    · rw [empty, namedParts_empty] at named
      cases named
    · -- A quoted part that is an identifier is no malformed one, and so delimited.
      have sound := not_malformed (identifiers _ (mem_namedParts.mp named).1)
      rw [← delimited_quoteIdentifier_iff known, quoteIdentifier_idem] at sound
      exact sound
  · intro sound
    refine ⟨_, written, fun part mem => ?_⟩
    obtain ⟨own, named, rfl⟩ := List.mem_map.mp mem
    obtain ⟨listed, filled⟩ := mem_namedParts.mp named
    exact .inl ((delimited_quoteIdentifier_iff known).mpr (sound own listed filled))

theorem plain_or_passed {part : String} (known : backend ≠ mysql)
    (bare : backend.identifierNeedsQuoting part = false) :
    backend.Plain part ∨ backend.quoteIdentifier part = part := by
  by_cases passed : backend.quoteIdentifier part = part
  · exact .inr passed
  left
  rw [identifierNeedsQuoting, if_neg (by simp [known, passed])] at bare
  cases chars : part.toList with
  | nil => simp [chars] at bare
  | cons first rest =>
    simp only [chars, Bool.or_eq_false_iff, Bool.not_eq_false', List.contains_eq_mem,
      decide_eq_false_iff_not] at bare
    exact ⟨first, rest, chars, bare.1.1, bare.1.2, bare.2⟩

/-- A rendered name is an identifier unless it was passed through malformed. -/
theorem renderIdentifier_iff {part : String} (known : backend ≠ mysql) :
    (backend.Delimited (backend.renderIdentifier part) ∨
      backend.Plain (backend.renderIdentifier part)) ↔ ¬ backend.Malformed part := by
  unfold renderIdentifier
  split
  next needed =>
    rw [← delimited_quoteIdentifier_iff known]
    constructor
    · intro identifier
      have sound := not_malformed identifier
      rwa [← delimited_quoteIdentifier_iff known, quoteIdentifier_idem] at sound
    · exact .inl
  next bare =>
    constructor
    · exact not_malformed
    · intro sound
      rcases plain_or_passed known (by simpa using bare) with plain | passed
      · exact .inr plain
      · rw [← delimited_quoteIdentifier_iff known, passed] at sound
        exact .inl sound

theorem sequence_renderIdentifierPath_iff (known : backend ≠ mysql) :
    backend.Sequence (backend.renderIdentifierPath text) ↔
      (∀ part ∈ identifierPathParts text, part ≠ "" → ¬ backend.Malformed part) ∧
        (text = "" ∨ "" ∉ identifierPathParts text ∨
          ∃ part ∈ identifierPathParts text,
            part ≠ "" ∧ backend.identifierNeedsQuoting part = true) := by
  by_cases needed : ((namedParts text).any backend.identifierNeedsQuoting) = true
  · have written : backend.renderIdentifierPath text =
        join "." ((namedParts text).map backend.renderIdentifier) := if_pos needed
    obtain ⟨first, named, quoted⟩ := List.any_eq_true.mp needed
    have some := mem_namedParts.mp named
    constructor
    · intro sequence
      refine ⟨fun part mem filled => ?_, .inr (.inr ⟨first, some.1, some.2, quoted⟩)⟩
      rw [← renderIdentifier_iff known]
      have rendered : backend.renderIdentifier part ∈
          namedParts (backend.renderIdentifierPath text) := by
        rw [written, namedParts_rewritten backend backend.renderIdentifier_either]
        exact List.mem_map_of_mem (mem_namedParts.mpr ⟨mem, filled⟩)
      rcases sequence.parts with empty | identifiers
      · rw [empty, namedParts_empty] at rendered
        cases rendered
      · exact identifiers _ (mem_namedParts.mp rendered).1
    · rintro ⟨sound, -⟩
      refine ⟨_, written, fun part mem => ?_⟩
      obtain ⟨own, listed, rfl⟩ := List.mem_map.mp mem
      exact (renderIdentifier_iff known).mpr
        (sound own (mem_namedParts.mp listed).1 (mem_namedParts.mp listed).2)
  · -- Nothing needs quoting, so the name is returned as it is, empty parts included.
    have kept : backend.renderIdentifierPath text = text := if_neg needed
    have bare {part : String} (mem : part ∈ identifierPathParts text) (filled : part ≠ "") :
        backend.identifierNeedsQuoting part = false := by
      simp only [List.any_eq_true, not_exists, not_and, Bool.not_eq_true] at needed
      exact needed part (mem_namedParts.mpr ⟨mem, filled⟩)
    rw [kept]
    constructor
    · intro sequence
      rcases sequence.parts with empty | identifiers
      · refine ⟨fun part mem filled => ?_, .inl empty⟩
        have named := mem_namedParts.mpr ⟨mem, filled⟩
        rw [empty, namedParts_empty] at named
        cases named
      · refine ⟨fun part mem _ => not_malformed (identifiers part mem), .inr (.inl ?_)⟩
        intro mem
        exact (identifiers "" mem).elim (fun delimited => delimited.ne_empty rfl)
          fun plain => plain.ne_empty rfl
    · rintro ⟨sound, rfl | full | ⟨part, mem, filled, quoted⟩⟩
      · exact ⟨[], rfl, fun _ mem => absurd mem List.not_mem_nil⟩
      · refine ⟨identifierPathParts text, (join_identifierPathParts text).symm, fun part mem => ?_⟩
        have filled : part ≠ "" := fun empty => full (empty ▸ mem)
        have same : backend.renderIdentifier part = part := by
          simp [renderIdentifier, bare mem filled]
        have identifier := (renderIdentifier_iff known).mpr (sound part mem filled)
        rwa [same] at identifier
      · rw [bare mem filled] at quoted
        cases quoted

/-- A name in quotes with a quote inside is taken for a delimited one. -/
theorem undoubled_quote_passes :
    ¬ postgres.Delimited (postgres.quoteIdentifier "\"a\" or \"b\"") := by
  rw [delimited_quoteIdentifier_iff (by decide), not_not]
  exact ⟨('"', '"'), List.mem_singleton_self _, .inr ⟨"a\" or \"b".toList, rfl, rfl⟩⟩

/-- Quoting gives one delimited identifier exactly for the names that are not malformed,
and quoting or rendering a qualified name a sequence of identifiers exactly if no part is.
A rendered name keeps its empty parts when nothing in it needs quoting. -/
theorem wellFormed_iff (known : backend ≠ mysql) (identifier : String) :
    (backend.Delimited (backend.quoteIdentifier identifier) ↔ ¬ backend.Malformed identifier) ∧
      (backend.Sequence (backend.quoteIdentifierPath identifier) ↔
        ∀ part ∈ identifierPathParts identifier, part ≠ "" → ¬ backend.Malformed part) ∧
      (backend.Sequence (backend.renderIdentifierPath identifier) ↔
        (∀ part ∈ identifierPathParts identifier, part ≠ "" → ¬ backend.Malformed part) ∧
          (identifier = "" ∨ "" ∉ identifierPathParts identifier ∨
            ∃ part ∈ identifierPathParts identifier,
              part ≠ "" ∧ backend.identifierNeedsQuoting part = true)) :=
  ⟨delimited_quoteIdentifier_iff known, sequence_quoteIdentifierPath_iff known,
    sequence_renderIdentifierPath_iff known⟩

/-- A reserved word in a qualified name is quoted by both functions, a name that only ends like a
delimited one as a whole. -/
theorem wellFormed_iff_reserved :
    mssql.Delimited (mssql.quoteIdentifier "order]") ∧
      mssql.Sequence (mssql.quoteIdentifierPath "sales.order") ∧
      mssql.Sequence (mssql.renderIdentifierPath "sales.order") := by
  have known : mssql ≠ mysql := by decide
  have ending : ¬ mssql.Malformed "order]" := fun malformed =>
    absurd malformed.wrapped (by decide)
  have bare : ∀ part ∈ identifierPathParts "sales.order",
      ¬ ∃ pair ∈ mssql.delimiters, wrapped pair.1 pair.2 part = true := by decide
  have parts : ∀ part ∈ identifierPathParts "sales.order", part ≠ "" → ¬ mssql.Malformed part :=
    fun part mem _ malformed => bare part mem malformed.wrapped
  exact ⟨(wellFormed_iff known "order]").1.mpr ending,
    (wellFormed_iff known "sales.order").2.1.mpr parts,
    (wellFormed_iff known "sales.order").2.2.mpr ⟨parts, .inr (.inl (by decide))⟩⟩

end DatabaseBackend

end GraphqlOrm.Schema
