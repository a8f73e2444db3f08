import GraphqlOrm.Query.StatementScan

/-!
# Rebasing the parameters of a statement

A statement without anonymous placeholders keeps every character; its parameters get numbers
from the start index on. Rebasing twice is rebasing once.

## Main result

* `normalizePostgresStatement_rebases`
-/
namespace GraphqlOrm.Query

open Schema Text

def parameterNumber (digits : List Char) : Nat := Nat.ofDigitChars 10 digits 0

/-- A parameter whose number is above zero, and is representable before and after, is counted from
another start on. -/
def Piece.rebased (offset : Nat) : Piece → Piece
  | parameter digits =>
    if 0 < parameterNumber digits ∧ parameterNumber digits + offset < 2 ^ 64 then
      .parameter (parameterNumber digits + offset).repr.toList
    else .parameter digits
  | text cs => .text cs
  | anonymous sign => .anonymous sign

theorem rebased_parameter (offset : Nat) (digits : List Char) :
    (Piece.parameter digits).rebased offset =
      if 0 < parameterNumber digits ∧ parameterNumber digits + offset < 2 ^ 64 then
        .parameter (parameterNumber digits + offset).repr.toList
      else .parameter digits := rfl

/-- The statement with its parameters counted from a start on. From zero or one on it stays as
it is. -/
def rebase (startIndex : Nat) (pieces : List Piece) : List Piece :=
  if startIndex ≤ 1 then pieces else pieces.map (Piece.rebased (startIndex - 1))

def Native (pieces : List Piece) : Prop := ∀ sign, Piece.anonymous sign ∉ pieces

theorem rebasedIndex_eq {offset : Nat} {digits : List Char} (some_ : digits ≠ []) :
    rebasedIndex offset digits =
      if 0 < parameterNumber digits ∧ parameterNumber digits + offset < 2 ^ 64 then
        some (parameterNumber digits + offset)
      else none := by
  have parsed : parseUsize digits =
      if parameterNumber digits < 2 ^ 64 then some (parameterNumber digits) else none := by
    unfold parseUsize parameterNumber
    simp only [ne_eq, some_, not_false_eq_true, true_and]
  rw [rebasedIndex, parsed]
  by_cases small : parameterNumber digits < 2 ^ 64
  · rw [if_pos small, Option.filter_some]
    by_cases positive : 0 < parameterNumber digits
    · simp only [positive, decide_true, if_true, Option.bind_some, true_and]
    · simp only [positive, decide_false, Bool.false_eq_true, if_false, Option.bind_none, false_and]
  · have large : ¬parameterNumber digits + offset < 2 ^ 64 := by omega
    simp only [small, large, if_false, and_false, Option.filter_none, Option.bind_none]

/-! ### What is written -/

section Written

variable {rest : List Char} {pieces : List Piece} {offset : Nat} {front gap : List Char}

/-- From the end of the last parameter, with a gap already scanned, the rest is written rebased. -/
def Writes (offset : Nat) (front gap rest : List Char) (pieces : List Piece) : Prop :=
  ∃ places, placesFrom (byteLength (front ++ gap)) pieces = .parameters places ∧
    writeParameters (front ++ gap ++ rest) offset (byteLength front) places =
      some (gap ++ spell (pieces.map (Piece.rebased offset)))

theorem Writes.text {part : List Char} (later : Writes offset front (gap ++ part) rest pieces) :
    Writes offset front gap (part ++ rest) (.text part :: pieces) := by
  obtain ⟨places, found, written⟩ := later
  rw [← List.append_assoc, byteLength_append] at found
  rw [← List.append_assoc front] at written
  refine ⟨places, found, ?_⟩
  rw [← List.append_assoc, written, List.append_assoc]
  rfl

theorem Writes.parameter {digits : List Char} (some_ : digits ≠ []) (digit : ∀ c ∈ digits, c.isDigit = true)
    (later : Writes offset (front ++ gap ++ '$' :: digits) [] rest pieces) :
    Writes offset front gap ('$' :: digits ++ rest) (.parameter digits :: pieces) := by
  obtain ⟨places, found, written⟩ := later
  have stop : byteLength (front ++ gap ++ '$' :: digits) =
      byteLength (front ++ gap) + 1 + digits.length := by
    rw [byteLength_append, byteLength_cons, byteLength_digits digit, ← Nat.add_assoc]
    rfl
  have start : byteLength front + byteLength gap = byteLength (front ++ gap) :=
    (byteLength_append front gap).symm
  have whole : front ++ gap ++ ('$' :: digits ++ rest) = front ++ gap ++ '$' :: digits ++ rest :=
    (List.append_assoc ..).symm
  have before := slice_append front gap ('$' :: digits ++ rest)
  have number := slice_append (front ++ gap ++ ['$']) digits rest
  have spelled := slice_append (front ++ gap) ('$' :: digits) rest
  rw [start, whole] at before
  rw [← byteLength_append, List.append_assoc (front ++ gap) ['$'] digits, List.singleton_append, stop,
    byteLength_append (front ++ gap) ['$']] at number
  rw [← byteLength_append, stop] at spelled
  rw [List.append_nil, stop] at found written
  refine ⟨(byteLength (front ++ gap), byteLength (front ++ gap) + 1 + digits.length) :: places, ?_, ?_⟩
  · rw [placesFrom, found]
    rfl
  · rw [whole, writeParameters, before]
    have one : byteLength ['$'] = 1 := rfl
    rw [one] at number
    generalize front ++ gap ++ '$' :: digits ++ rest = sql at *
    have index := @rebasedIndex_eq offset digits some_
    by_cases fits : 0 < parameterNumber digits ∧ parameterNumber digits + offset < 2 ^ 64
    · rw [if_pos fits] at index
      simp only [number, index, written, Option.bind_eq_bind, Option.bind_some, Option.pure_def,
        List.map_cons, spell, List.flatMap_cons, Piece.rebased, if_pos fits, Piece.spelled,
        List.nil_append, List.append_assoc, DatabaseBackend.placeholder, String.toList_append]
      rfl
    · rw [if_neg fits] at index
      simp only [number, index, spelled, written, Option.bind_eq_bind, Option.bind_some,
        Option.pure_def, List.map_cons, spell, List.flatMap_cons, Piece.rebased, if_neg fits,
        Piece.spelled, List.nil_append, List.append_assoc]

end Written

theorem writeParameters_lexed {context : Context} {text : List Char} {pieces : List Piece}
    (lexed : Lexed context text pieces) (native : Native pieces) (offset : Nat)
    (front gap : List Char) : Writes offset front gap text pieces := by
  induction lexed generalizing front gap with
  | nil =>
    refine ⟨[], rfl, ?_⟩
    rw [writeParameters, List.append_nil, splitAtByte_append, Option.map_some, List.map_nil, spell,
      List.flatMap_nil, List.append_nil]
  | region _ _ ih | plain _ _ ih => exact .text (ih (fun sign mem => native sign (.tail _ mem)) _ _)
  | @anonymous _ sign => exact absurd (.head _) (native sign)
  | parameter _ some_ digit _ _ ih =>
    exact .parameter some_ digit (ih (fun sign mem => native sign (.tail _ mem)) _ _)

/-- What the function returns for a native statement, by its reading. -/
theorem normalizePostgresStatement_lexed {sql : String} {pieces : List Piece}
    (lexed : Lexed .start sql.toList pieces) (native : Native pieces) (startIndex : Nat) :
    normalizePostgresStatement sql startIndex =
      some (String.ofList (spell (rebase startIndex pieces))) := by
  have scanned := scan_lexed lexed [] rfl
  obtain ⟨places, found, written⟩ := writeParameters_lexed lexed native (startIndex - 1) [] []
  simp only [List.nil_append, byteLength_nil] at scanned found written
  rw [found] at scanned
  rw [normalizePostgresStatement, scanned, Option.bind_some]
  by_cases small : startIndex ≤ 1
  · rw [rebase, if_pos small, lexed.spell, String.ofList_toList]
    exact if_pos (by omega)
  · rw [rebase, if_neg small]
    simp only [written, Option.map_some]
    exact if_neg (by omega)

theorem placesFrom_anonymous {pieces : List Piece} (foreign : ¬Native pieces) (i : Nat) :
    placesFrom i pieces = .anonymous := by
  induction pieces generalizing i with
  | nil => exact absurd (fun _ mem => by cases mem) foreign
  | cons piece pieces ih =>
    have later : (∀ sign, piece ≠ .anonymous sign) → ¬Native pieces := by
      intro other native
      refine foreign fun sign mem => ?_
      rcases List.mem_cons.mp mem with same | mem
      · exact other sign same.symm
      · exact native sign mem
    cases piece with
    | text cs => exact ih (later (by simp)) _
    | parameter digits =>
      rw [placesFrom, ih (later (by simp))]
      rfl
    | anonymous sign => rfl

/-! ### Rebasing twice -/

/-- Two texts that are the same up to the first dollar sign of the one, and have one there. -/
def SameAhead (rest other : List Char) : Prop :=
  rest = other ∨ ∃ common after after', rest = common ++ '$' :: after ∧ other = common ++ '$' :: after'

namespace SameAhead

variable {rest other : List Char}

theorem head (same : SameAhead rest other) : other.head? = rest.head? := by
  rcases same with rfl | ⟨common, after, after', rfl, rfl⟩
  · rfl
  · cases common <;> rfl

theorem nil (same : SameAhead [] other) : other = [] := by
  have none_ := same.head
  cases other with
  | nil => rfl
  | cons c other => cases none_

theorem append (same : SameAhead rest other) (part : List Char) :
    SameAhead (part ++ rest) (part ++ other) := by
  rcases same with rfl | ⟨common, after, after', rfl, rfl⟩
  · exact .inl rfl
  · exact .inr ⟨part ++ common, after, after', by simp, by simp⟩

theorem opens (same : SameAhead rest other) (opened : OpensDollar other) : OpensDollar rest := by
  rcases same with rfl | ⟨common, after, after', rfl, rfl⟩
  · exact opened
  · obtain ⟨tag, named, initial⟩ := opened
    -- A tag has no dollar sign, so the delimiter ends at the common one at the latest.
    have short : tag.length ≤ common.length := by
      by_contra long
      have inner : common ++ ['$'] <+: tag := by
        have one : common ++ ['$'] <+: common ++ '$' :: after' := ⟨after', by simp⟩
        exact List.prefix_of_prefix_length_le one ((List.prefix_append tag ['$']).trans initial)
          (by simp; omega)
      have dollar : '$' ∈ tag := inner.subset (by simp)
      exact absurd (named.2 '$' dollar) (by decide)
    have cut : tag ++ ['$'] <+: common ++ ['$'] :=
      List.prefix_of_prefix_length_le initial ⟨after', by simp⟩ (by simp; omega)
    exact ⟨tag, named, cut.trans ⟨after, by simp⟩⟩

theorem digitsEnd (same : SameAhead rest other) (ends : DigitsEnd rest) : DigitsEnd other := by
  unfold DigitsEnd
  rw [same.head]
  exact ends

theorem quoted {quote : Char} {escapes : Bool} {part : List Char} (same : SameAhead rest other)
    (quoted : QuotedPart quote escapes part rest) : QuotedPart quote escapes part other := by
  obtain ⟨inside, ending⟩ := quoted
  refine ⟨inside, ?_⟩
  cases ending with
  | closed single => exact .closed (same.head ▸ single)
  | unclosed =>
    obtain rfl := same.nil
    exact .unclosed
  | backslash allowed =>
    obtain rfl := same.nil
    exact .backslash allowed

theorem region {context : Context} {part : List Char} (same : SameAhead rest other)
    (region : Region context part rest) : Region context part other := by
  cases region with
  | string quoted => exact .string (same.quoted quoted)
  | identifier quoted => exact .identifier (same.quoted quoted)
  | line inside ends => exact .line inside (same.head ▸ ends)
  | block nested => exact .block nested
  | unclosedBlock nested => exact same.nil ▸ .unclosedBlock nested
  | dollar free named first => exact .dollar free named first
  | unclosedDollar free named never => exact same.nil ▸ .unclosedDollar free named never

theorem plain {context : Context} {c : Char} (same : SameAhead rest other)
    (plain : Plain context c rest) : Plain context c other where
  quotes := plain.quotes
  line dash := same.head ▸ plain.line dash
  block slash := same.head ▸ plain.block slash
  mark := plain.mark
  sign at_ := same.head ▸ plain.sign at_
  dollar dollar free := by
    obtain ⟨digit, opens⟩ := plain.dollar dollar free
    exact ⟨same.head ▸ digit, fun opened => opens (same.opens opened)⟩

end SameAhead

theorem past_digits (context : Context) {digits : List Char} (some_ : digits ≠ [])
    (digit : ∀ c ∈ digits, c.isDigit = true) : context.past ('$' :: digits) = ⟨true, false⟩ := by
  obtain ⟨front, c, rfl⟩ := (List.eq_nil_or_concat' digits).resolve_left some_
  have number := digit c (by simp)
  rw [← List.cons_append, Context.past_append, Context.past_cons, Context.past_nil, Context.after]
  have letter : (c == 'e' || c == 'E') = false := by
    rw [Bool.eq_false_iff]
    intro either
    rcases Bool.or_eq_true_iff.mp either with same | same <;> rw [eq_of_beq same] at number <;>
      cases number
  rw [letter, Bool.false_and]
  simp [identifierChar, Char.isAlphanum, number]

/-- The digits of a rebased parameter. -/
theorem rebased_digits (offset : Nat) {digits : List Char} (some_ : digits ≠ [])
    (digit : ∀ c ∈ digits, c.isDigit = true) :
    ∃ others, Piece.rebased offset (.parameter digits) = .parameter others ∧ others ≠ [] ∧
      ∀ c ∈ others, c.isDigit = true := by
  rw [rebased_parameter]
  split
  · refine ⟨_, rfl, ?_⟩
    rw [Nat.toList_repr]
    exact ⟨Nat.toDigits_ne_nil, fun c mem =>
      Nat.isDigit_of_mem_toDigits (by decide) (by decide) mem⟩
  · exact ⟨digits, rfl, some_, digit⟩

/-- A rebased statement is read as the rebased reading. -/
theorem Lexed.rebased (offset : Nat) {context : Context} {text : List Char} {pieces : List Piece}
    (lexed : Lexed context text pieces) (native : Native pieces) :
    SameAhead text (Query.spell (pieces.map (Piece.rebased offset))) ∧
      Lexed context (Query.spell (pieces.map (Piece.rebased offset)))
        (pieces.map (Piece.rebased offset)) := by
  induction lexed with
  | nil context => exact ⟨.inl rfl, .nil context⟩
  | region region _ ih =>
    obtain ⟨same, later⟩ := ih fun sign mem => native sign (.tail _ mem)
    exact ⟨same.append _, .region (same.region region) later⟩
  | plain plain _ ih =>
    obtain ⟨same, later⟩ := ih fun sign mem => native sign (.tail _ mem)
    exact ⟨same.append [_], .plain (same.plain plain) later⟩
  | anonymous => exact absurd (.head _) (native _)
  | @parameter context digits rest pieces free some_ digit ends _ ih =>
    obtain ⟨same, later⟩ := ih fun sign mem => native sign (.tail _ mem)
    obtain ⟨others, rebased, some', digit'⟩ := rebased_digits offset some_ digit
    rw [past_digits _ some_ digit, ← past_digits context some' digit'] at later
    rw [List.map_cons, rebased]
    exact ⟨.inr ⟨[], _, _, rfl, rfl⟩, .parameter free some' digit' (same.digitsEnd ends) later⟩

theorem parameterNumber_repr (n : Nat) : parameterNumber n.repr.toList = n := by
  rw [parameterNumber, Nat.toList_repr, Nat.ofDigitChars_ten_toDigits]

theorem rebased_rebased {first second : Nat} {piece : Piece}
    (fits : ∀ digits, piece = .parameter digits →
      parameterNumber digits + first + second < 2 ^ 64) :
    (piece.rebased first).rebased second = piece.rebased (first + second) := by
  cases piece with
  | text cs => rfl
  | anonymous sign => rfl
  | parameter digits =>
    have small := fits digits rfl
    by_cases positive : 0 < parameterNumber digits
    · have once : parameterNumber digits + first < 2 ^ 64 := by omega
      have both : parameterNumber digits + (first + second) < 2 ^ 64 := by omega
      simp only [Piece.rebased, positive, once, both, and_self, if_true, parameterNumber_repr,
        Nat.add_pos_left positive, Nat.add_assoc]
    · simp only [Piece.rebased, positive, false_and, if_false]

theorem Native.rebased {pieces : List Piece} (native : Native pieces) (offset : Nat) :
    Native (pieces.map (Piece.rebased offset)) := by
  intro sign mem
  obtain ⟨piece, inside, same⟩ := List.mem_map.mp mem
  cases piece with
  | anonymous other => exact native other inside
  | text cs => cases same
  | parameter digits =>
    rw [rebased_parameter] at same
    split at same <;> cases same

/-- A statement without anonymous placeholders keeps every character outside of its parameters, and
each parameter above zero is counted from the start index on, if that is above one and its new number
is representable. It is rebased without a stop, and counting from one start and then from another is
counting from both. -/
theorem normalizePostgresStatement_rebases (sql : String) :
    (∃ pieces, Lexed .start sql.toList pieces) ∧
    ∀ pieces, Lexed .start sql.toList pieces → Native pieces →
      (∀ startIndex, normalizePostgresStatement sql startIndex =
        some (String.ofList (spell (rebase startIndex pieces)))) ∧
      ∀ a b, 1 ≤ a → 1 ≤ b →
        (∀ digits, .parameter digits ∈ pieces →
          parameterNumber digits + (a - 1) + (b - 1) < 2 ^ 64) →
        (normalizePostgresStatement sql a).bind (normalizePostgresStatement · b) =
          normalizePostgresStatement sql (a + b - 1) := by
  refine ⟨Lexed.exists_pieces _ _, ?_⟩
  intro pieces lexed native
  refine ⟨normalizePostgresStatement_lexed lexed native, fun a b first second fits => ?_⟩
  obtain ⟨pieces', native', lexed', once⟩ : ∃ pieces', Native pieces' ∧
      Lexed .start (spell pieces') pieces' ∧ rebase a pieces = pieces' := by
    unfold rebase
    split
    · exact ⟨pieces, native, lexed.spell.symm ▸ lexed, rfl⟩
    · exact ⟨_, native.rebased _, (lexed.rebased _ native).2, rfl⟩
  rw [normalizePostgresStatement_lexed lexed native, normalizePostgresStatement_lexed lexed native,
    Option.bind_some, once]
  have text : (String.ofList (spell pieces')).toList = spell pieces' := String.toList_ofList ..
  have composed : rebase b pieces' = rebase (a + b - 1) pieces := by
    rw [← once]
    unfold rebase
    by_cases none_ : a ≤ 1
    · rw [if_pos none_, show a + b - 1 = b by omega]
    by_cases none' : b ≤ 1
    · rw [if_neg none_, if_pos none', show a + b - 1 = a by omega, if_neg none_]
    · rw [if_neg none_, if_neg none', if_neg (by omega), List.map_map,
        show a + b - 1 - 1 = (a - 1) + (b - 1) by omega]
      apply List.map_congr_left
      intro piece mem
      apply rebased_rebased
      rintro digits rfl
      exact fits digits mem
  rw [normalizePostgresStatement_lexed (text.symm ▸ lexed') native', composed]

/-- The parameter of a short statement gets the number two above its own. -/
theorem normalizePostgresStatement_rebases_select :
    Lexed .start "$2".toList [.parameter ['2']] ∧
      normalizePostgresStatement "$2" 3 = some "$4" ∧
      (normalizePostgresStatement "$2" 3).bind (normalizePostgresStatement · 2) =
        normalizePostgresStatement "$2" 4 := by
  have lexed : Lexed .start "$2".toList [.parameter ['2']] :=
    @Lexed.parameter .start ['2'] [] [] rfl (by simp)
      (List.forall_mem_singleton.mpr rfl) (by simp [DigitsEnd]) (.nil _)
  have native : Native [.parameter ['2']] := by simp [Native]
  obtain ⟨once, twice⟩ := (normalizePostgresStatement_rebases "$2").2 _ lexed native
  refine ⟨lexed, (once 3).trans rfl, twice 3 2 (by decide) (by decide) ?_⟩
  intro digits mem
  cases List.mem_singleton.mp mem
  decide

/-- From zero on nothing is renumbered, and neither is a parameter directly after another one. -/
theorem normalizePostgresStatement_keeps :
    normalizePostgresStatement "$2" 0 = some "$2" ∧
      "$2" ≠ DatabaseBackend.postgres.placeholder (2 + 0 - 1) ∧
      normalizePostgresStatement "$1$2" 3 = some "$3$2" ∧
      "$3$2" ≠ DatabaseBackend.postgres.placeholder (1 + 3 - 1) ++
        DatabaseBackend.postgres.placeholder (2 + 3 - 1) := by
  have first : Lexed .start "$2".toList [.parameter ['2']] :=
    @Lexed.parameter .start ['2'] [] [] rfl (by simp)
      (List.forall_mem_singleton.mpr rfl) (by simp [DigitsEnd]) (.nil _)
  have second : Lexed .start "$1$2".toList [.parameter ['1'], .text ['$'], .text ['2']] := by
    refine @Lexed.parameter .start ['1'] ['$', '2'] _ rfl (by simp)
      (List.forall_mem_singleton.mpr rfl) (by simp [DigitsEnd]) ?_
    refine .plain ⟨by decide, by simp, by simp, by decide, by simp, fun _ free => by cases free⟩ ?_
    exact .plain ⟨by decide, by simp, by simp, by decide, by simp, by simp⟩ (.nil _)
  refine ⟨?_, by decide, ?_, by decide⟩
  · rw [normalizePostgresStatement_lexed first (by simp [Native])]
    rfl
  · rw [normalizePostgresStatement_lexed second (by simp [Native])]
    rfl

end GraphqlOrm.Query
