import Mathlib
import GraphqlOrm.Foundation.Lexemes
import GraphqlOrm.Protocol.Descriptor

/-!
# GraphQL type signatures

The parser of type signatures takes `!` and brackets off the ends of the text. It is compared
with the grammar of types, in which a named type or a list is followed by at most one `!`.

## Main results

* `parse_iff`: what is accepted, and as what
* `parseGraphqlType_exact_iff`: when that is what the grammar derives
-/
namespace GraphqlOrm.Catalog

open Text Lexemes

/-! ### References -/

inductive GraphqlSemanticTypeKind where
  | scalar | enum | object
deriving DecidableEq

inductive GraphqlSemanticTypeRef where
  | named (name : String) (kind : GraphqlSemanticTypeKind) (nullable : Bool)
  | list (nullable : Bool) (maximumItems : Option Nat) (item : GraphqlSemanticTypeRef)
deriving DecidableEq

structure GraphqlSemanticError where
  message : String
deriving DecidableEq

/-! ### Taking characters off -/

def validGraphqlName (value : List Char) : Bool := Protocol.isGraphqlName value

def scalarNames : List String :=
  ["BigInt", "Boolean", "Bytes", "Date", "DateTime", "Decimal", "Float", "ID", "Int", "JSON",
    "Time", "UUID", "Upload", "String"]

def kindOf (name : String) : GraphqlSemanticTypeKind :=
  if name ∈ scalarNames then .scalar else .object

def stripSuffix (c : Char) (value : List Char) : Option (List Char) :=
  if value.getLast? = some c then some value.dropLast else none

def stripPrefix (c : Char) (value : List Char) : Option (List Char) :=
  if value.head? = some c then some value.tail else none

def stripBrackets (value : List Char) : Option (List Char) :=
  (stripPrefix '[' value).bind (stripSuffix ']')

theorem stripSuffix_eq_some {c : Char} {value inner : List Char} :
    stripSuffix c value = some inner ↔ value = inner ++ [c] := by
  unfold stripSuffix
  constructor
  · intro stripped
    split at stripped
    next last =>
      cases stripped
      exact (List.dropLast_append_getLast? _ last).symm
    next => cases stripped
  · rintro rfl
    simp

theorem stripBrackets_eq_some {value inner : List Char} :
    stripBrackets value = some inner ↔ value = '[' :: (inner ++ [']']) := by
  unfold stripBrackets stripPrefix
  constructor
  · intro stripped
    split at stripped
    next first =>
      rw [Option.bind_some, stripSuffix_eq_some] at stripped
      cases value with
      | nil => cases first
      | cons d value => cases first; rw [← stripped, List.tail_cons]
    next => cases stripped
  · rintro rfl
    simp only [List.head?_cons, if_true, Option.bind_some, List.tail_cons]
    exact stripSuffix_eq_some.mpr rfl

theorem length_trimList_le {p : Char → Bool} (cs : List Char) :
    (trimList p cs).length ≤ cs.length := by
  obtain ⟨before, after, whole, -⟩ := exists_trimList (p := p) cs
  have size := congrArg List.length whole
  simp only [List.length_append] at size
  omega

/-! ### The parser -/

/-- The function inside `parse_graphql_type`. -/
def parse (value : List Char) (nullable : Bool) :
    Except GraphqlSemanticError GraphqlSemanticTypeRef :=
  match _ : stripSuffix '!' (trimList isWhitespace value) with
  | some inner => parse inner false
  | none =>
    match _ : stripBrackets (trimList isWhitespace value) with
    | some inner => (parse inner true).map (.list nullable none)
    | none =>
      let name := trimList isWhitespace value
      if validGraphqlName name then
        .ok (.named (String.ofList name) (kindOf (String.ofList name)) nullable)
      else .error ⟨"semantic GraphQL type is invalid"⟩
termination_by value.length
decreasing_by
  · have size := congrArg List.length (stripSuffix_eq_some.mp ‹stripSuffix '!' _ = some inner›)
    have shorter := @length_trimList_le isWhitespace value
    rw [List.length_append, List.length_singleton] at size
    omega
  · have size := congrArg List.length (stripBrackets_eq_some.mp ‹stripBrackets _ = some inner›)
    have shorter := @length_trimList_le isWhitespace value
    rw [List.length_cons, List.length_append] at size
    omega

def parseGraphqlType (value : String) : Except GraphqlSemanticError GraphqlSemanticTypeRef :=
  parse value.toList true

/-- `render_type_ref` -/
def renderTypeRef : GraphqlSemanticTypeRef → String
  | .named name _ nullable => name ++ if nullable then "" else "!"
  | .list nullable _ item => "[" ++ renderTypeRef item ++ "]" ++ if nullable then "" else "!"

section
variable {value inner : List Char} {nullable : Bool}

theorem parse_marked (marked : trimList isWhitespace value = inner ++ ['!']) :
    parse value nullable = parse inner false := by
  rw [parse]
  split
  next found =>
    have same := (stripSuffix_eq_some.mp found).symm.trans marked
    rw [List.append_cancel_right same]
  next unmarked => rw [stripSuffix_eq_some.mpr marked] at unmarked; cases unmarked

theorem parse_bracketed (bracketed : trimList isWhitespace value = '[' :: (inner ++ [']'])) :
    parse value nullable = (parse inner true).map (.list nullable none) := by
  rw [parse]
  split
  next found =>
    -- A text that ends with a bracket does not end with a mark.
    have ends := congrArg List.getLast? ((stripSuffix_eq_some.mp found).symm.trans bracketed)
    rw [← List.cons_append, List.getLast?_concat, List.getLast?_concat] at ends
    simp at ends
  next =>
    split
    next found =>
      have same := (stripBrackets_eq_some.mp found).symm.trans bracketed
      rw [List.append_cancel_right (List.cons.inj same).2]
    next unbracketed => rw [stripBrackets_eq_some.mpr bracketed] at unbracketed; cases unbracketed

/-- What is neither marked nor bracketed has to be a name. -/
theorem parse_bare (unmarked : ∀ inner, trimList isWhitespace value ≠ inner ++ ['!'])
    (unbracketed : ∀ inner, trimList isWhitespace value ≠ '[' :: (inner ++ [']'])) :
    parse value nullable =
      if validGraphqlName (trimList isWhitespace value) then
        .ok (.named (String.ofList (trimList isWhitespace value))
          (kindOf (String.ofList (trimList isWhitespace value))) nullable)
      else .error ⟨"semantic GraphQL type is invalid"⟩ := by
  rw [parse]
  split
  next inner found => exact absurd (stripSuffix_eq_some.mp found) (unmarked inner)
  next =>
    split
    next inner found => exact absurd (stripBrackets_eq_some.mp found) (unbracketed inner)
    next => rfl

end

/-! ### The grammar -/

structure GraphqlName where
  chars : List Char
  valid : validGraphqlName chars = true

/-- A type with what is written behind each of its parts: named types and lists, each
followed by some marks. -/
inductive Signature where
  | named (name : GraphqlName) (marks : Nat)
  | list (item : Signature) (marks : Nat)

def isMark (c : Char) : Bool := c == '!' || c == '[' || c == ']'

def tokens (value : List Char) : List Lexeme := lexemes isWhitespace isMark value

namespace Signature

def tokens : Signature → List Lexeme
  | named name marks => .word name.chars :: List.replicate marks (.mark '!')
  | list item marks => .mark '[' :: (item.tokens ++ .mark ']' :: List.replicate marks (.mark '!'))

/-- The grammar derives the signature: no part is followed by more than one mark. -/
def Proper : Signature → Prop
  | named _ marks => marks ≤ 1
  | list item marks => item.Proper ∧ marks ≤ 1

/-- The reference with the structure and the names of the signature, where `nullable` tells
of the whole signature whether it would be nullable without its marks. -/
def typeRef (nullable : Bool) : Signature → GraphqlSemanticTypeRef
  | named name marks => .named (String.ofList name.chars) (kindOf (String.ofList name.chars))
      (nullable && marks == 0)
  | list item marks => .list (nullable && marks == 0) none (item.typeRef true)

end Signature

/-! ### Names are words -/

theorem isLetter_of_name {c : Char} (named : c = '_' ∨ c.isAlphanum = true) :
    isLetter isWhitespace isMark c = true := by
  have code : c.toNat = 95 ∨ (65 ≤ c.toNat ∧ c.toNat ≤ 90) ∨ (97 ≤ c.toNat ∧ c.toNat ≤ 122) ∨
      (48 ≤ c.toNat ∧ c.toNat ≤ 57) := by
    rcases named with rfl | letter
    · exact .inl rfl
    · simp only [Char.isAlphanum, Char.isAlpha, Char.isUpper, Char.isLower, Char.isDigit,
        Bool.or_eq_true, Bool.and_eq_true, decide_eq_true_eq, UInt32.le_iff_toNat_le] at letter
      exact .inr (or_assoc.mp letter)
  rw [isLetter_iff]
  constructor
  · simp only [isWhitespace, Bool.or_eq_false_iff, Bool.and_eq_false_iff, beq_eq_false_iff_ne, ne_eq,
      decide_eq_false_iff_not, UInt32.le_iff_toNat_le, ← UInt32.toNat_inj]
    simp
    omega
  · simp only [isMark, Bool.or_eq_false_iff, beq_eq_false_iff_ne]
    refine ⟨⟨?_, ?_⟩, ?_⟩
    · rintro rfl
      revert code
      decide
    · rintro rfl
      revert code
      decide
    · rintro rfl
      revert code
      decide

theorem letters_of_valid {name : List Char} (valid : validGraphqlName name = true) :
    name ≠ [] ∧ ∀ c ∈ name, isLetter isWhitespace isMark c = true := by
  cases name with
  | nil => cases valid
  | cons first rest =>
    simp only [validGraphqlName, Protocol.isGraphqlName, Bool.and_eq_true, Bool.or_eq_true,
      beq_iff_eq, List.all_eq_true] at valid
    refine ⟨by simp, List.forall_mem_cons.mpr ⟨isLetter_of_name ?_, fun c mem =>
      isLetter_of_name (valid.2 c mem)⟩⟩
    exact valid.1.imp_right fun letter => by simp [Char.isAlphanum, letter]

theorem tokens_name {name : List Char} (valid : validGraphqlName name = true) :
    tokens name = [.word name] := by
  obtain ⟨content, letters⟩ := letters_of_valid valid
  obtain ⟨c, rest, rfl⟩ := List.exists_cons_of_ne_nil content
  exact lexemes_word letters

/-! ### What is accepted -/

theorem tokens_trim (value : List Char) : tokens (trimList isWhitespace value) = tokens value :=
  lexemes_trimList value

theorem tokens_append_mark {c : Char} (isMark : isMark c = true) (front back : List Char) :
    tokens (front ++ c :: back) = tokens front ++ .mark c :: tokens back := by
  apply lexemes_append_mark _ isMark
  simp only [Catalog.isMark, Bool.or_eq_true, beq_iff_eq] at isMark
  rcases isMark with (rfl | rfl) | rfl
  · decide
  · decide
  · decide

theorem tokens_cons_mark {c : Char} (isMark : isMark c = true) (back : List Char) :
    tokens (c :: back) = .mark c :: tokens back :=
  tokens_append_mark isMark [] back

namespace Signature

def marked : Signature → Signature
  | named name marks => named name (marks + 1)
  | list item marks => list item (marks + 1)

theorem tokens_marked (s : Signature) : s.marked.tokens = s.tokens ++ [.mark '!'] := by
  cases s with
  | named name marks | list item marks => simp [marked, tokens, List.replicate_succ']

theorem typeRef_marked (nullable : Bool) (s : Signature) :
    s.marked.typeRef nullable = s.typeRef false := by
  cases s with
  | named name marks | list item marks => simp [marked, typeRef]

/-- The end of a signature tells what it is. -/
theorem cases_marks (s : Signature) : (∃ inner : Signature, s = inner.marked) ∨
    (∃ name, s = named name 0) ∨ ∃ item, s = list item 0 := by
  cases s with
  | named name marks =>
    cases marks with
    | zero => exact .inr (.inl ⟨name, rfl⟩)
    | succ marks => exact .inl ⟨named name marks, rfl⟩
  | list item marks =>
    cases marks with
    | zero => exact .inr (.inr ⟨item, rfl⟩)
    | succ marks => exact .inl ⟨list item marks, rfl⟩

end Signature

variable {ref : GraphqlSemanticTypeRef}

theorem parse_sound {value : List Char} {nullable : Bool} (parsed : parse value nullable = .ok ref) :
    ∃ s : Signature, tokens value = s.tokens ∧ s.typeRef nullable = ref := by
  obtain ⟨n, size⟩ : ∃ n, value.length = n := ⟨_, rfl⟩
  induction n using Nat.strongRecOn generalizing value nullable ref with
  | ind n ih =>
    have shorter := @length_trimList_le isWhitespace value
    rw [← tokens_trim]
    by_cases marked : ∃ inner, trimList isWhitespace value = inner ++ ['!']
    · obtain ⟨inner, whole⟩ := marked
      rw [parse_marked whole] at parsed
      rw [whole, List.length_append, List.length_singleton] at shorter
      obtain ⟨s, read, found⟩ := ih inner.length (by omega) parsed rfl
      refine ⟨s.marked, ?_, (s.typeRef_marked nullable).trans found⟩
      rw [whole, tokens_append_mark rfl, read, s.tokens_marked]
      rfl
    · by_cases bracketed : ∃ inner, trimList isWhitespace value = '[' :: (inner ++ [']'])
      · obtain ⟨inner, whole⟩ := bracketed
        rw [parse_bracketed whole] at parsed
        rw [whole, List.length_cons, List.length_append, List.length_singleton] at shorter
        cases item : parse inner true with
        | error e => rw [item] at parsed; cases parsed
        | ok ref' =>
          rw [item] at parsed
          cases parsed
          obtain ⟨s, read, found⟩ := ih inner.length (by omega) item rfl
          refine ⟨.list s 0, ?_, by simp [Signature.typeRef, found]⟩
          rw [whole, tokens_cons_mark rfl, tokens_append_mark rfl, read]
          rfl
      · rw [parse_bare (not_exists.mp marked) (not_exists.mp bracketed)] at parsed
        split at parsed
        next valid =>
          cases parsed
          exact ⟨.named ⟨_, valid⟩ 0, tokens_name valid, by simp [Signature.typeRef]⟩
        next => cases parsed

variable {s : Signature}

theorem parse_complete {value : List Char} {nullable : Bool} (read : tokens value = s.tokens) :
    parse value nullable = .ok (s.typeRef nullable) := by
  obtain ⟨n, size⟩ : ∃ n, value.length = n := ⟨_, rfl⟩
  induction n using Nat.strongRecOn generalizing s value nullable with
  | ind n ih =>
    have shorter := @length_trimList_le isWhitespace value
    obtain ⟨starts, ends⟩ := @trimmed_trimList isWhitespace value
    rw [← tokens_trim] at read
    rcases s.cases_marks with ⟨inner, rfl⟩ | ⟨name, rfl⟩ | ⟨item, rfl⟩
    · rw [Signature.tokens_marked] at read
      obtain ⟨front, whole, read'⟩ := exists_of_last_mark ends read
      rw [whole, List.length_append, List.length_singleton] at shorter
      rw [parse_marked whole, Signature.typeRef_marked]
      exact ih front.length (by omega) read' rfl
    · obtain ⟨before, after, whole, content, front, back⟩ := exists_of_word read
      obtain ⟨-, letters⟩ := letters_of_valid name.valid
      have trimmed : Trimmed isWhitespace name.chars :=
        ⟨fun c mem => (isLetter_iff.mp (letters c (List.mem_of_mem_head? mem))).1,
          fun c mem => (isLetter_iff.mp (letters c (List.mem_of_mem_getLast? mem))).1⟩
      have kept : trimList isWhitespace value = name.chars := by
        rw [← trimList_idem, whole, trimList_eq front trimmed back]
      have unmarked : ∀ inner, trimList isWhitespace value ≠ inner ++ ['!'] := by
        intro inner same
        rw [kept] at same
        have letter := letters '!' (by rw [same]; simp)
        cases letter
      have unbracketed : ∀ inner, trimList isWhitespace value ≠ '[' :: (inner ++ [']']) := by
        intro inner same
        rw [kept] at same
        have letter := letters '[' (by rw [same]; simp)
        cases letter
      rw [parse_bare unmarked unbracketed, kept, if_pos name.valid, Signature.typeRef, beq_self_eq_true,
        Bool.and_true]
    · rw [Signature.tokens, List.replicate_zero, ← List.cons_append] at read
      obtain ⟨front, whole, read'⟩ := exists_of_last_mark ends read
      have starts' : ∀ c ∈ front.head?, isWhitespace c = false := by
        intro c mem
        apply starts c
        rw [whole, List.head?_append, Option.mem_def.mp mem]
        rfl
      obtain ⟨inner, rfl, read''⟩ := exists_of_head_mark starts' read'
      rw [whole, List.length_append, List.length_cons, List.length_singleton] at shorter
      rw [parse_bracketed whole, ih inner.length (by omega) read'' rfl, Signature.typeRef,
        beq_self_eq_true, Bool.and_true]
      rfl

/-- Whatever a signature spells is accepted, whatever the number of its marks. -/
theorem parse_iff {value : List Char} {nullable : Bool} :
    parse value nullable = .ok ref ↔
      ∃ s : Signature, tokens value = s.tokens ∧ s.typeRef nullable = ref := by
  constructor
  · exact parse_sound
  · rintro ⟨s, read, rfl⟩
    exact parse_complete read

/-! ### Signatures are printed and parsed again -/

/-- What is printed of a reference is a signature with that reference. -/
theorem tokens_render (s : Signature) (nullable : Bool) :
    ∃ t : Signature, tokens (renderTypeRef (s.typeRef nullable)).toList = t.tokens ∧
      t.typeRef true = s.typeRef nullable := by
  induction s generalizing nullable with
  | named name marks =>
    have spelled := tokens_name name.valid
    simp only [Signature.typeRef, renderTypeRef, String.toList_append, String.toList_ofList]
    cases nullable && marks == 0 with
    | true =>
      refine ⟨.named name 0, ?_, rfl⟩
      rw [if_pos rfl, String.toList_empty, List.append_nil]
      exact spelled
    | false =>
      refine ⟨.named name 1, ?_, rfl⟩
      exact (tokens_append_mark rfl name.chars []).trans (by rw [spelled]; rfl)
  | list item marks ih =>
    obtain ⟨t, read, same⟩ := ih true
    have spelled (back : List Char) :
        tokens ('[' :: ((renderTypeRef (item.typeRef true)).toList ++ ']' :: back)) =
          .mark '[' :: (t.tokens ++ .mark ']' :: tokens back) := by
      rw [tokens_cons_mark rfl, tokens_append_mark rfl, read]
    simp only [Signature.typeRef, renderTypeRef, String.toList_append]
    cases nullable && marks == 0 with
    | true =>
      refine ⟨.list t 0, Eq.trans ?_ (spelled []), by simp [Signature.typeRef, same]⟩
      simp
    | false =>
      refine ⟨.list t 1, Eq.trans ?_ (spelled ['!']), by simp [Signature.typeRef, same]⟩
      simp

theorem parseGraphqlType_render {value : String} (parsed : parseGraphqlType value = .ok ref) :
    parseGraphqlType (renderTypeRef ref) = .ok ref := by
  obtain ⟨s, -, rfl⟩ := parse_iff.mp parsed
  exact parse_iff.mpr (tokens_render s true)

/-! ### Repeated marks -/

def dropRepeated : List Lexeme → List Lexeme
  | [] => []
  | token :: rest =>
    if token = .mark '!' ∧ rest.head? = some (.mark '!') then dropRepeated rest
    else token :: dropRepeated rest

theorem dropRepeated_cons {token : Lexeme} (other : token ≠ .mark '!') (rest : List Lexeme) :
    dropRepeated (token :: rest) = token :: dropRepeated rest := by
  rw [dropRepeated, if_neg fun both => other both.1]

theorem head_dropRepeated (read : List Lexeme) : (dropRepeated read).head? = read.head? := by
  induction read with
  | nil => rfl
  | cons token rest ih =>
    rw [dropRepeated]
    split
    next both => rw [ih, both.2, both.1, List.head?_cons]
    next => rfl

variable {rest : List Lexeme}

theorem dropRepeated_marks (marks : Nat) (ends : rest.head? ≠ some (.mark '!')) :
    dropRepeated (List.replicate marks (.mark '!') ++ rest) =
      List.replicate (min marks 1) (.mark '!') ++ dropRepeated rest := by
  induction marks with
  | zero => rfl
  | succ marks ih =>
    rw [List.replicate_succ, List.cons_append, dropRepeated]
    cases marks with
    | zero => rw [if_neg (by simp [ends]), ih]; rfl
    | succ marks => rw [if_pos (by simp [List.replicate_succ]), ih]; simp

namespace Signature

def normal : Signature → Signature
  | named name marks => named name (min marks 1)
  | list item marks => list item.normal (min marks 1)

theorem dropRepeated_tokens (s : Signature) (ends : rest.head? ≠ some (.mark '!')) :
    dropRepeated (s.tokens ++ rest) = s.normal.tokens ++ dropRepeated rest := by
  induction s generalizing rest with
  | named name marks =>
    rw [tokens, List.cons_append, dropRepeated_cons (by simp), dropRepeated_marks marks ends]
    rfl
  | list item marks ih =>
    rw [tokens, List.cons_append, dropRepeated_cons (by simp), List.append_assoc,
      ih (by simp), List.cons_append, dropRepeated_cons (by simp), dropRepeated_marks marks ends,
      normal, tokens]
    simp

theorem normal_eq_self (proper : s.Proper) : s.normal = s := by
  induction s with
  | named name marks => rw [normal, Nat.min_eq_left proper]
  | list item marks ih => rw [normal, ih proper.1, Nat.min_eq_left proper.2]

theorem proper_normal (s : Signature) : s.normal.Proper := by
  induction s with
  | named name marks => exact Nat.min_le_right marks 1
  | list item marks ih => exact ⟨ih, Nat.min_le_right marks 1⟩

theorem length_normal_le (s : Signature) : s.normal.tokens.length ≤ s.tokens.length := by
  induction s with
  | named name marks => simp [normal, tokens]
  | list item marks ih =>
    simp only [normal, tokens, List.length_cons, List.length_append, List.length_replicate]
    omega

theorem proper_of_length (same : s.normal.tokens.length = s.tokens.length) :
    s.Proper := by
  induction s with
  | named name marks =>
    simp only [normal, tokens, List.length_cons, List.length_replicate] at same
    exact (by omega : marks ≤ 1)
  | list item marks ih =>
    have shorter := item.length_normal_le
    simp only [normal, tokens, List.length_cons, List.length_append, List.length_replicate] at same
    exact ⟨ih (by omega), by omega⟩

/-- A signature is proper when no marks are repeated in it. -/
theorem proper_iff (s : Signature) : s.Proper ↔ dropRepeated s.tokens = s.tokens := by
  have dropped := @dropRepeated_tokens [] s (by simp)
  rw [List.append_nil, dropRepeated, List.append_nil] at dropped
  rw [dropped]
  constructor
  · intro proper
    rw [normal_eq_self proper]
  · intro same
    exact proper_of_length (congrArg List.length same)

end Signature

variable {read : List Lexeme}

theorem exists_of_dropRepeated_cons {token : Lexeme} (other : token ≠ .mark '!')
    (dropped : dropRepeated read = token :: rest) :
    ∃ later, read = token :: later ∧ dropRepeated later = rest := by
  have first := head_dropRepeated read
  rw [dropped, List.head?_cons] at first
  cases read with
  | nil => cases first
  | cons token' later =>
    cases first
    rw [dropRepeated_cons other] at dropped
    exact ⟨later, rfl, (List.cons.inj dropped).2⟩

/-- Marks that were dropped can be put back. -/
theorem exists_of_dropRepeated_marks {marks : Nat} (ends : rest.head? ≠ some (.mark '!'))
    (dropped : dropRepeated read = List.replicate marks (.mark '!') ++ rest) :
    ∃ marks' later, read = List.replicate marks' (.mark '!') ++ later ∧
      dropRepeated later = rest ∧ later.head? ≠ some (.mark '!') := by
  induction read generalizing marks with
  | nil =>
    cases marks with
    | zero => exact ⟨0, [], rfl, dropped, by simp⟩
    | succ marks => cases dropped
  | cons token read ih =>
    by_cases other : token = .mark '!'
    · subst other
      rw [dropRepeated] at dropped
      split at dropped
      next both =>
        obtain ⟨marks', later, rfl, same, ends'⟩ := ih dropped
        exact ⟨marks' + 1, later, rfl, same, ends'⟩
      next apart =>
        have apart' : read.head? ≠ some (.mark '!') := fun next => apart ⟨rfl, next⟩
        cases marks with
        | zero =>
          rw [List.replicate_zero, List.nil_append] at dropped
          rw [← dropped] at ends
          exact absurd rfl ends
        | succ marks =>
          rw [List.replicate_succ, List.cons_append] at dropped
          obtain ⟨marks', later, rfl, same, ends'⟩ := ih (List.cons.inj dropped).2
          exact ⟨marks' + 1, later, rfl, same, ends'⟩
    · have first := head_dropRepeated (token :: read)
      cases marks with
      | zero =>
        refine ⟨0, token :: read, rfl, dropped, ?_⟩
        rw [List.head?_cons]
        exact fun same => other (Option.some.inj same)
      | succ marks =>
        rw [dropped, List.head?_cons] at first
        exact absurd (Option.some.inj first).symm other

/-- What is a signature without its repeated marks is one with them. -/
theorem exists_of_dropRepeated (s : Signature) (ends : rest.head? ≠ some (.mark '!'))
    (dropped : dropRepeated read = s.tokens ++ rest) :
    ∃ (s' : Signature) (later : List Lexeme), read = s'.tokens ++ later ∧
      dropRepeated later = rest ∧ later.head? ≠ some (.mark '!') := by
  induction s generalizing read rest with
  | named name marks =>
    obtain ⟨read', rfl, dropped'⟩ := exists_of_dropRepeated_cons (by simp) dropped
    obtain ⟨marks', later, rfl, same, ends'⟩ := exists_of_dropRepeated_marks ends dropped'
    exact ⟨.named name marks', later, rfl, same, ends'⟩
  | list item marks ih =>
    rw [Signature.tokens, List.cons_append, List.append_assoc, List.cons_append] at dropped
    obtain ⟨read', rfl, dropped'⟩ := exists_of_dropRepeated_cons (by simp) dropped
    obtain ⟨item', later', rfl, closing, -⟩ := ih (by simp) dropped'
    obtain ⟨read'', rfl, dropped''⟩ := exists_of_dropRepeated_cons (by simp) closing
    obtain ⟨marks', later, rfl, same, ends'⟩ := exists_of_dropRepeated_marks ends dropped''
    exact ⟨.list item' marks', later, by simp [Signature.tokens], same, ends'⟩

/-! ### The parser and the grammar -/

/-- The text is accepted when the grammar derives it up to blanks, and then as what it says. -/
def Exact (value : String) : Prop :=
  ∀ ref, parseGraphqlType value = .ok ref ↔
    ∃ s : Signature, s.Proper ∧ tokens value.toList = s.tokens ∧ s.typeRef true = ref

/-- Either no mark is repeated in the text, or the text is no type even without the
repeated ones. -/
def MarkedOnce (value : String) : Prop :=
  dropRepeated (tokens value.toList) = tokens value.toList ∨
    ∀ s : Signature, s.Proper → dropRepeated (tokens value.toList) ≠ s.tokens

theorem exact_iff (value : String) : Exact value ↔ MarkedOnce value := by
  constructor
  · intro agrees
    by_cases repeated : dropRepeated (tokens value.toList) = tokens value.toList
    · exact .inl repeated
    · refine .inr fun s _ dropped => repeated ?_
      obtain ⟨s', later, read, rest, -⟩ :=
        @exists_of_dropRepeated [] _ s (by simp) (by rw [dropped, List.append_nil])
      have nothing : later = [] := by
        have first := head_dropRepeated later
        rw [rest] at first
        exact List.head?_eq_none_iff.mp first.symm
      rw [nothing, List.append_nil] at read
      obtain ⟨s'', proper, read', -⟩ := (agrees _).mp (parse_complete read)
      rw [read', ← s''.proper_iff]
      exact proper
  · intro once ref
    rw [parseGraphqlType, parse_iff]
    constructor
    · rintro ⟨s, read, found⟩
      refine ⟨s, ?_, read, found⟩
      rw [MarkedOnce, read] at once
      rcases once with same | underived
      · exact s.proper_iff.mpr same
      · have dropped := @Signature.dropRepeated_tokens [] s (by simp)
        rw [List.append_nil, dropRepeated, List.append_nil] at dropped
        exact absurd dropped (underived s.normal s.proper_normal)
    · rintro ⟨s, -, read, found⟩
      exact ⟨s, read, found⟩

theorem marks_of_nullable {m n : Nat} (proper : m ≤ 1) (proper' : n ≤ 1)
    (same : (true && m == 0) = (true && n == 0)) : m = n := by
  have zero : m = 0 ↔ n = 0 := by simpa using same
  omega

theorem GraphqlName.ext {a b : GraphqlName} (same : a.chars = b.chars) : a = b := by
  cases a
  cases b
  cases same
  rfl

/-- A reference has one signature without repeated marks. -/
theorem Signature.typeRef_injective {t : Signature} (proper : s.Proper) (proper' : t.Proper)
    (same : s.typeRef true = t.typeRef true) : s = t := by
  induction s generalizing t with
  | named name marks =>
    cases t with
    | named name' marks' =>
      obtain ⟨names, -, nullable⟩ := GraphqlSemanticTypeRef.named.inj same
      rw [GraphqlName.ext (String.ofList_injective names), marks_of_nullable proper proper' nullable]
    | list item' marks' => cases same
  | list item marks ih =>
    cases t with
    | named name' marks' => cases same
    | list item' marks' =>
      obtain ⟨nullable, -, items⟩ := GraphqlSemanticTypeRef.list.inj same
      rw [ih proper.1 proper'.1 items, marks_of_nullable proper.2 proper'.2 nullable]

/-- Two texts are read as the grammar derives them, a reference is printed as a text with that
reference, and texts with one reference are the same up to blanks, just when neither text is a
type apart from repeated marks. -/
theorem parseGraphqlType_exact_iff (a b : String) :
    (Exact a ∧ Exact b ∧
      (∀ ref, parseGraphqlType a = .ok ref → parseGraphqlType (renderTypeRef ref) = .ok ref) ∧
      ∀ ref, parseGraphqlType a = .ok ref → parseGraphqlType b = .ok ref →
        tokens a.toList = tokens b.toList) ↔ MarkedOnce a ∧ MarkedOnce b := by
  constructor
  · rintro ⟨first, second, -⟩
    exact ⟨(exact_iff a).mp first, (exact_iff b).mp second⟩
  · rintro ⟨once, once'⟩
    have first := (exact_iff a).mpr once
    have second := (exact_iff b).mpr once'
    refine ⟨first, second, fun ref parsed => parseGraphqlType_render parsed, ?_⟩
    intro ref parsed parsed'
    obtain ⟨s, proper, read, found⟩ := (first ref).mp parsed
    obtain ⟨t, proper', read', found'⟩ := (second ref).mp parsed'
    rw [read, read', Signature.typeRef_injective proper proper' (found.trans found'.symm)]

/-- `Int!!` is accepted, with the reference of `Int!`. -/
theorem parseGraphqlType_accepts_repeated :
    (∃ ref, parseGraphqlType "Int!!" = .ok ref ∧ parseGraphqlType "Int!" = .ok ref) ∧
      (¬ ∃ s : Signature, s.Proper ∧ tokens "Int!!".toList = s.tokens) ∧
      tokens "Int!!".toList ≠ tokens "Int!".toList := by
  have twice : tokens "Int!!".toList = (Signature.named ⟨['I', 'n', 't'], by decide⟩ 2).tokens := by
    decide
  have single : tokens "Int!".toList = (Signature.named ⟨['I', 'n', 't'], by decide⟩ 1).tokens := by
    decide
  refine ⟨⟨.named "Int" .scalar false, parse_complete twice, parse_complete single⟩, ?_,
    by decide⟩
  rintro ⟨s, proper, read⟩
  have dropped := s.proper_iff.mp proper
  rw [← read] at dropped
  revert dropped
  decide

end GraphqlOrm.Catalog
