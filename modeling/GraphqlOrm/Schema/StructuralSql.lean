import GraphqlOrm.Foundation.Scanning
import GraphqlOrm.Foundation.Slices
import GraphqlOrm.Foundation.StableSort
import GraphqlOrm.Schema.IdentifierQuoting
import Mathlib.Data.List.TakeDrop

/-!
# Closed-set predicates

Reading the predicate of a partial index back from SQL text: the tokens, the redundant
parentheses around them, and the two forms of a membership test.
-/
namespace GraphqlOrm.Schema

open Text Scanning

inductive StructuralSqlToken where
  | ident (value : String)
  | string (value : String)
  | number (value : String)
  | leftParen
  | rightParen
  | leftBracket
  | rightBracket
  | comma
  | equals
  | doubleColon
  | semicolon
deriving DecidableEq

def isIdentChar (c : Char) : Bool := c.isAlphanum || c == '_'

def signToken (c : Char) : Option StructuralSqlToken :=
  if c = '(' then some .leftParen
  else if c = ')' then some .rightParen
  else if c = '[' then some .leftBracket
  else if c = ']' then some .rightBracket
  else if c = ',' then some .comma
  else if c = '=' then some .equals
  else if c = ';' then some .semicolon
  else none

/-- One token from its first character on. The kind of an identifier is not kept: bare and
quoted ones are alike. -/
def readStructuralToken (c : Char) (rest : List Char) :
    Option (StructuralSqlToken × List Char) :=
  if (signToken c).isSome then (signToken c).map fun token => (token, rest)
  else if c = ':' then
    if rest.head? = some ':' then some (.doubleColon, rest.tail) else none
  else if c = '\'' then
    (delimited '\'' rest).map fun (value, left) => (.string (String.ofList value), left)
  else if c = '"' then
    (delimited '"' rest).map fun (value, left) => (.ident (String.ofList value), left)
  else if c.isAlpha ∨ c = '_' then
    some (.ident (String.ofList (c :: (rest.span isIdentChar).1)), (rest.span isIdentChar).2)
  else if c.isDigit then
    some (.number (String.ofList (c :: (rest.span Char.isDigit).1)), (rest.span Char.isDigit).2)
  else none

def tokenizeStructuralSql (sql : String) : Option (List StructuralSqlToken) :=
  scan isWhitespace readStructuralToken sql.toList.length sql.toList

def structuralIdent (token : Option StructuralSqlToken) (expected : String) : Bool :=
  match token with
  | some (.ident value) => eqIgnoreCase value expected
  | _ => false

/-! ### Parentheses -/

/-- `usize::MAX` on a 64-bit machine. -/
def usizeMax : Nat := 2 ^ 64 - 1

/-- The depth after the tokens; nothing when a parenthesis closes the first one too early.
The depth below zero is the largest number, which only text behind such a parenthesis
could reach. -/
def enclosingDepth : Nat → List StructuralSqlToken → Option Nat
  | depth, [] => some depth
  | depth, token :: rest =>
    if token = .leftParen then enclosingDepth (depth + 1) rest
    else if token = .rightParen then
      let next := if depth = 0 then usizeMax else depth - 1
      if next = 0 ∧ rest ≠ [] then none else enclosingDepth next rest
    else enclosingDepth depth rest

def stripFrom : Nat → List StructuralSqlToken → List StructuralSqlToken
  | 0, tokens => tokens
  | fuel + 1, tokens =>
    if tokens.head? ≠ some .leftParen ∨ tokens.getLast? ≠ some .rightParen then tokens
    else if enclosingDepth 0 tokens = some 0 then stripFrom fuel tokens.tail.dropLast
    else tokens

def stripRedundantOuterParentheses (tokens : List StructuralSqlToken) :
    List StructuralSqlToken :=
  stripFrom tokens.length tokens

/-! ### The parser -/

def parseStructuralStringValue :
    List StructuralSqlToken → Option (String × List StructuralSqlToken)
  | .string value :: rest =>
    if rest.head? = some .doubleColon then
      if structuralIdent rest.tail.head? "text" then some (value, rest.tail.tail) else none
    else some (value, rest)
  | _ => none

def parseValues : Nat → List StructuralSqlToken →
    Option (List String × List StructuralSqlToken)
  | 0, _ => none
  | fuel + 1, tokens => do
    let (value, rest) ← parseStructuralStringValue tokens
    if rest.head? = some .comma then
      let (values, left) ← parseValues fuel rest.tail
      return (value :: values, left)
    else return ([value], rest)

/-- Behind an array: its bracket, and perhaps a cast to an array of texts. -/
def parseArrayEnd : List StructuralSqlToken → Option (List StructuralSqlToken)
  | .rightBracket :: rest =>
    if rest.head? = some .doubleColon then
      if structuralIdent rest.tail.head? "text" ∧
          rest.tail.tail.take 2 = [.leftBracket, .rightBracket] then
        some (rest.tail.tail.drop 2)
      else none
    else some rest
  | _ => none

/-- `sort` and `dedup`: equal neighbours are merged. -/
def dedup : List String → List String
  | [] => []
  | [value] => [value]
  | value :: next :: rest =>
    if value = next then dedup (next :: rest) else value :: dedup (next :: rest)

def closedSet (values : List String) : List String := dedup (sortBy id values)

/-- What stands between the column and the values: `IN (` or `= ANY (ARRAY[`. Tells the
forms apart and gives the tokens behind. -/
def membershipStart (tokens : List StructuralSqlToken) :
    Option (Bool × List StructuralSqlToken) :=
  if structuralIdent tokens.head? "in" then
    if tokens.tail.head? = some .leftParen then some (true, tokens.tail.tail) else none
  else if tokens.head? = some .equals ∧ structuralIdent tokens.tail.head? "any" ∧
      tokens.tail.tail.head? = some .leftParen ∧
      structuralIdent tokens.tail.tail.tail.head? "array" ∧
      tokens.tail.tail.tail.tail.head? = some .leftBracket then
    some (false, tokens.drop 5)
  else none

def membershipValues (isIn : Bool) (inside : List StructuralSqlToken) : Option (List String) := do
  let (values, left) ← parseValues inside.length inside
  let closing ← if isIn then some left else parseArrayEnd left
  if closing = [.rightParen] then return closedSet values else none

def parseClosedSetTokens : List StructuralSqlToken → Option IndexPredicateModel
  | .ident column :: rest =>
    if column = "" then none
    else do
      let (isIn, inside) ← membershipStart rest
      let values ← membershipValues isIn inside
      return { column, values }
  | _ => none

def parseClosedSetIndexPredicate (expression : String) : Option IndexPredicateModel := do
  let tokens ← tokenizeStructuralSql expression
  parseClosedSetTokens (stripRedundantOuterParentheses tokens)

/-! ### How tokens are written -/

variable {c : Char} {rest left more : List Char} {token : StructuralSqlToken}
  {tokens : List StructuralSqlToken}

theorem span_length (p : Char → Bool) (cs : List Char) : (cs.span p).2.length ≤ cs.length := by
  rw [List.span_eq_takeWhile_dropWhile]
  exact (List.dropWhile_sublist p).length_le

theorem delimited_length {closing : Char} {body name left : List Char}
    (read : delimited closing body = some (name, left)) : left.length ≤ body.length := by
  rw [DatabaseBackend.delimited_eq_some read, List.length_append, List.length_cons]
  omega

theorem readStructuralToken_consumes : Consumes readStructuralToken := by
  intro c rest token left read
  unfold readStructuralToken at read
  split at read
  · obtain ⟨sign, -, same⟩ := Option.map_eq_some_iff.mp read
    cases same
    exact Nat.le_refl _
  split at read
  · split at read
    · cases read
      rw [List.length_tail]
      exact Nat.sub_le _ _
    · cases read
  split at read
  · obtain ⟨found, body, same⟩ := Option.map_eq_some_iff.mp read
    cases same
    exact delimited_length body
  split at read
  · obtain ⟨found, body, same⟩ := Option.map_eq_some_iff.mp read
    cases same
    exact delimited_length body
  split at read
  · cases read
    exact span_length _ _
  split at read
  · cases read
    exact span_length _ _
  · cases read

def Tokens (cs : List Char) (tokens : List StructuralSqlToken) : Prop :=
  Spells isWhitespace readStructuralToken cs tokens

theorem tokenizeStructuralSql_iff {sql : String} :
    tokenizeStructuralSql sql = some tokens ↔ Tokens sql.toList tokens :=
  scan_iff readStructuralToken_consumes

/-- No token starts with a blank. -/
theorem not_whitespace {first : Char} (start : first.isAlpha = true ∨ first = '_') :
    isWhitespace first = false := by
  rcases start with letter | rfl
  · rw [isAlpha_iff, isUpper_iff, isLower_iff] at letter
    rw [← Char.ofNat_toNat first]
    rcases letter with ⟨low, high⟩ | ⟨low, high⟩
    · interval_cases first.toNat <;> rfl
    · interval_cases first.toNat <;> rfl
  · rfl

theorem readStructuralToken_word {first : Char} {rest : List Char}
    (start : first.isAlpha = true ∨ first = '_') :
    readStructuralToken first rest =
      some (.ident (String.ofList (first :: (rest.span isIdentChar).1)),
        (rest.span isIdentChar).2) := by
  have other (c : Char) (sign : c.isAlpha = false) (plain : c ≠ '_') : first ≠ c := by
    rintro rfl
    rcases start with letter | same
    · rw [sign] at letter
      cases letter
    · exact plain same
  have noSign : (signToken first).isSome = false := by
    simp only [signToken, if_neg (other '(' rfl (by decide)), if_neg (other ')' rfl (by decide)),
      if_neg (other '[' rfl (by decide)), if_neg (other ']' rfl (by decide)),
      if_neg (other ',' rfl (by decide)), if_neg (other '=' rfl (by decide)),
      if_neg (other ';' rfl (by decide)), Option.isSome_none]
  rw [readStructuralToken, if_neg (by simp [noSign]), if_neg (other ':' rfl (by decide)),
    if_neg (other '\'' rfl (by decide)), if_neg (other '"' rfl (by decide)), if_pos start]

namespace Tokens

theorem sign (blank : isWhitespace c = false)
    (read : ∀ rest, readStructuralToken c rest = some (token, rest)) (after : Tokens more tokens) :
    Tokens (c :: more) (token :: tokens) :=
  .token blank (read more) after

theorem space (after : Tokens more tokens) : Tokens (' ' :: more) tokens := .blank rfl after

theorem doubleColon (after : Tokens more tokens) :
    Tokens (':' :: ':' :: more) (.doubleColon :: tokens) :=
  .token rfl rfl after

theorem string (value : List Char) (apart : more.head? ≠ some '\'') (after : Tokens more tokens) :
    Tokens ('\'' :: ((value.flatMap fun c => if c = '\'' then ['\'', '\''] else [c]) ++
      '\'' :: more)) (.string (String.ofList value) :: tokens) := by
  refine .token rfl ?_ after
  simp [readStructuralToken, signToken, DatabaseBackend.delimited_doubled_append _ _ apart]

theorem quoted (value : List Char) (apart : more.head? ≠ some '"') (after : Tokens more tokens) :
    Tokens ('"' :: ((value.flatMap fun c => if c = '"' then ['"', '"'] else [c]) ++
      '"' :: more)) (.ident (String.ofList value) :: tokens) := by
  refine .token rfl ?_ after
  simp [readStructuralToken, signToken, DatabaseBackend.delimited_doubled_append _ _ apart]

theorem word {first : Char} {rest : List Char} (start : first.isAlpha = true ∨ first = '_')
    (word : rest.all isIdentChar = true) (apart : ∀ c ∈ more.head?, isIdentChar c = false)
    (after : Tokens more tokens) :
    Tokens (first :: (rest ++ more)) (.ident (String.ofList (first :: rest)) :: tokens) := by
  have run : (rest ++ more).span isIdentChar = (rest, more) := by
    rw [List.span_eq_takeWhile_dropWhile, List.takeWhile_append_of_pos (by simpa using word),
      List.dropWhile_append_of_pos (by simpa using word), dropWhile_eq_self apart]
    cases more with
    | nil => simp
    | cons c more => simp [apart c rfl]
  refine .token (not_whitespace start) ?_ after
  rw [readStructuralToken_word start, run]

end Tokens

/-! ### Redundant parentheses -/

/-- Tokens that open what they close, when the parentheses around them are left out. -/
inductive BalancedTokens : List StructuralSqlToken → Prop
  | nil : BalancedTokens []
  | token {token : StructuralSqlToken} {tokens : List StructuralSqlToken} :
    token ≠ .leftParen → token ≠ .rightParen → BalancedTokens tokens → BalancedTokens (token :: tokens)
  | group {inside tokens : List StructuralSqlToken} :
    BalancedTokens inside → BalancedTokens tokens → BalancedTokens (.leftParen :: (inside ++ .rightParen :: tokens))

/-- Inside parentheses balanced tokens are passed over. -/
theorem enclosingDepth_balanced {inside : List StructuralSqlToken} (balanced : BalancedTokens inside)
    (depth : Nat) (tokens : List StructuralSqlToken) :
    enclosingDepth (depth + 1) (inside ++ tokens) = enclosingDepth (depth + 1) tokens := by
  induction balanced generalizing depth tokens with
  | nil => rfl
  | token noLeft noRight _ ih =>
    rw [List.cons_append, enclosingDepth, if_neg noLeft, if_neg noRight, ih]
  | group _ _ inner outer =>
    rw [List.cons_append, enclosingDepth, if_pos rfl, List.append_assoc, inner,
      List.cons_append, enclosingDepth, if_neg (by decide), if_pos rfl]
    simp [outer]

def enclosed (count : Nat) (tokens : List StructuralSqlToken) : List StructuralSqlToken :=
  List.replicate count .leftParen ++ tokens ++ List.replicate count .rightParen

theorem enclosed_succ (count : Nat) (tokens : List StructuralSqlToken) :
    enclosed (count + 1) tokens = .leftParen :: (enclosed count tokens ++ [.rightParen]) := by
  have right : List.replicate (count + 1) StructuralSqlToken.rightParen =
      List.replicate count .rightParen ++ [.rightParen] := List.replicate_succ'
  rw [enclosed, right, List.replicate_succ]
  simp [enclosed]

section

variable {tokens : List StructuralSqlToken} (balanced : BalancedTokens tokens)
include balanced

theorem BalancedTokens.enclosed (count : Nat) : BalancedTokens (Schema.enclosed count tokens) := by
  induction count with
  | zero => simpa [Schema.enclosed] using balanced
  | succ count ih =>
    rw [enclosed_succ]
    exact .group ih .nil

theorem stripFrom_enclosed (bare : tokens.head? ≠ some .leftParen) {count : Nat} :
    ∀ fuel, count ≤ fuel → stripFrom fuel (enclosed count tokens) = tokens := by
  induction count with
  | zero =>
    intro fuel _
    have same : enclosed 0 tokens = tokens := by simp [enclosed]
    rw [same]
    cases fuel with
    | zero => rfl
    | succ fuel => rw [stripFrom, if_pos (.inl bare)]
  | succ count ih =>
    intro fuel enough
    obtain ⟨fuel, rfl⟩ : ∃ n, fuel = n + 1 := ⟨fuel - 1, by omega⟩
    have closes : enclosingDepth 0 (enclosed (count + 1) tokens) = some 0 := by
      rw [enclosed_succ, enclosingDepth, if_pos rfl,
        enclosingDepth_balanced (balanced.enclosed count)]
      rfl
    have first : (enclosed (count + 1) tokens).head? = some .leftParen := by
      rw [enclosed_succ]
      rfl
    have last : (enclosed (count + 1) tokens).getLast? = some .rightParen := by
      rw [enclosed_succ, ← List.cons_append, List.getLast?_concat]
    rw [stripFrom, if_neg (by simp [first, last]), if_pos closes, enclosed_succ,
      List.tail_cons, List.dropLast_concat]
    exact ih fuel (Nat.le_of_succ_le_succ enough)

theorem stripRedundantOuterParentheses_enclosed (bare : tokens.head? ≠ some .leftParen) (count : Nat) :
    stripRedundantOuterParentheses (enclosed count tokens) = tokens := by
  apply stripFrom_enclosed balanced bare
  simp only [enclosed, List.length_append, List.length_replicate]
  omega

end

/-- Only whole pairs of parentheses are taken away. -/
theorem exists_enclosed (tokens : List StructuralSqlToken) :
    ∃ count, tokens = enclosed count (stripRedundantOuterParentheses tokens) := by
  suffices any : ∀ fuel tokens, ∃ count, tokens = enclosed count (stripFrom fuel tokens) from
    any _ tokens
  intro fuel
  induction fuel with
  | zero => exact fun tokens => ⟨0, by simp [stripFrom, enclosed]⟩
  | succ fuel ih =>
    intro tokens
    rw [stripFrom]
    split
    · exact ⟨0, by simp [enclosed]⟩
    next ends =>
      split
      next closes =>
        rw [not_or, not_not, not_not] at ends
        obtain ⟨first, last⟩ := ends
        obtain ⟨count, inner⟩ := ih tokens.tail.dropLast
        refine ⟨count + 1, ?_⟩
        obtain ⟨rest, rfl⟩ := List.head?_eq_some_iff.mp first
        rcases List.eq_nil_or_concat rest with rfl | ⟨inside, token, rfl⟩
        · cases last
        rw [List.concat_eq_append] at last inner ⊢
        rw [← List.cons_append, List.getLast?_concat, Option.some.injEq] at last
        rw [List.tail_cons, List.dropLast_concat] at inner ⊢
        rw [enclosed_succ, ← inner, last]
      · exact ⟨0, by simp [enclosed]⟩

/-! ### The stored values -/

variable {values : List String}

theorem mem_dedup {value : String} :
    value ∈ dedup values ↔ value ∈ values := by
  induction values using dedup.induct with
  | case1 | case2 => rfl
  | case3 first rest ih =>
    rw [dedup, if_pos rfl, ih]
    simp
  | case4 first next rest differ ih =>
    rw [dedup, if_neg differ, List.mem_cons, ih, ← List.mem_cons]

/-- In sorted values equal ones are neighbours. -/
theorem dedup_pairwise (sorted : values.Pairwise (· ≤ ·)) :
    (dedup values).Pairwise (· < ·) := by
  induction values using dedup.induct with
  | case1 => exact .nil
  | case2 => exact List.pairwise_singleton _ _
  | case3 first rest ih =>
    rw [dedup, if_pos rfl]
    exact ih sorted.of_cons
  | case4 first next rest differ ih =>
    rw [dedup, if_neg differ]
    refine .cons ?_ (ih sorted.of_cons)
    intro value mem
    obtain ⟨before, after⟩ := List.pairwise_cons.mp sorted
    have smaller : first < next := lt_of_le_of_ne (before next (.head _)) differ
    rcases List.mem_cons.mp (mem_dedup.mp mem) with rfl | later
    · exact smaller
    · exact lt_of_lt_of_le smaller (List.rel_of_pairwise_cons after later)

theorem mem_closedSet {value : String} :
    value ∈ closedSet values ↔ value ∈ values := by
  rw [closedSet, mem_dedup, mem_sortBy]

theorem closedSet_pairwise (values : List String) : (closedSet values).Pairwise (· < ·) :=
  dedup_pairwise (sortBy_ordered id values)

/-! ### The two forms -/

def listed (cast : List StructuralSqlToken) : List String → List StructuralSqlToken
  | [] => []
  | [value] => .string value :: cast
  | value :: next :: rest => .string value :: (cast ++ .comma :: listed cast (next :: rest))

def textCast : List StructuralSqlToken := [.doubleColon, .ident "text"]

def Ends (tokens : List StructuralSqlToken) : Prop :=
  tokens.head? ≠ some .comma ∧ tokens.head? ≠ some .doubleColon

variable {cast : List StructuralSqlToken}

theorem parseStructuralStringValue_cast (known : cast = [] ∨ cast = textCast) (value : String)
    {more : List StructuralSqlToken} (apart : more.head? ≠ some .doubleColon) :
    parseStructuralStringValue (.string value :: (cast ++ more)) = some (value, more) := by
  rcases known with rfl | rfl
  · rw [List.nil_append, parseStructuralStringValue, if_neg apart]
  · have text : structuralIdent (some (.ident "text")) "text" = true := by decide
    simp [parseStructuralStringValue, textCast, text]

theorem parseValues_listed (known : cast = [] ∨ cast = textCast) (filled : values ≠ [])
    {more : List StructuralSqlToken} (ends : Ends more) :
    ∀ fuel, values.length ≤ fuel →
      parseValues fuel (listed cast values ++ more) = some (values, more) := by
  induction values using listed.induct with
  | case1 => exact absurd rfl filled
  | case2 value =>
    intro fuel enough
    obtain ⟨fuel, rfl⟩ : ∃ n, fuel = n + 1 := ⟨fuel - 1, by simp at enough; omega⟩
    rw [listed, List.cons_append, parseValues, parseStructuralStringValue_cast known _ ends.2]
    simp [ends.1]
  | case3 value next rest ih =>
    intro fuel enough
    obtain ⟨fuel, rfl⟩ : ∃ n, fuel = n + 1 := ⟨fuel - 1, by simp at enough; omega⟩
    rw [listed, List.cons_append, List.append_assoc, parseValues,
      parseStructuralStringValue_cast known _ (by simp)]
    simp [ih (by simp) fuel (Nat.le_of_succ_le_succ enough)]

theorem length_listed (cast : List StructuralSqlToken) (values : List String) :
    values.length ≤ (listed cast values).length := by
  induction values using listed.induct with
  | case1 => exact Nat.le_refl _
  | case2 value => simp [listed]
  | case3 value next rest ih =>
    simp only [listed, List.length_cons, List.length_append] at ih ⊢
    omega

theorem parseValues_whole (known : cast = [] ∨ cast = textCast) (filled : values ≠ [])
    {more : List StructuralSqlToken} (ends : Ends more) :
    parseValues (listed cast values ++ more).length (listed cast values ++ more) =
      some (values, more) := by
  apply parseValues_listed known filled ends
  have shorter := length_listed cast values
  rw [List.length_append]
  omega

/-- `column IN (values)`. -/
def inTokens (column : String) (values : List String) : List StructuralSqlToken :=
  .ident column :: .ident "IN" :: .leftParen :: (listed [] values ++ [.rightParen])

/-- `column = ANY (ARRAY[values])`, every value cast to text. -/
def anyTokens (column : String) (values : List String) : List StructuralSqlToken :=
  .ident column :: .equals :: .ident "ANY" :: .leftParen :: .ident "ARRAY" :: .leftBracket ::
    (listed textCast values ++ [.rightBracket, .rightParen])

theorem membershipValues_in (filled : values ≠ []) :
    membershipValues true (listed [] values ++ [.rightParen]) = some (closedSet values) := by
  have ends : Ends [.rightParen] := ⟨by simp, by simp⟩
  rw [membershipValues, parseValues_whole (.inl rfl) filled ends]
  rfl

theorem membershipValues_any (filled : values ≠ []) :
    membershipValues false (listed textCast values ++ [.rightBracket, .rightParen]) =
      some (closedSet values) := by
  have ends : Ends [.rightBracket, .rightParen] := ⟨by simp, by simp⟩
  rw [membershipValues, parseValues_whole (.inr rfl) filled ends]
  rfl

theorem parseClosedSetTokens_in {column : String} (named : column ≠ "") (filled : values ≠ []) :
    parseClosedSetTokens (inTokens column values) =
      some { column, values := closedSet values } := by
  have start (inside : List StructuralSqlToken) :
      membershipStart (.ident "IN" :: .leftParen :: inside) = some (true, inside) := by
    have test : structuralIdent (some (.ident "IN")) "in" = true := by decide
    simp [membershipStart, test]
  rw [inTokens, parseClosedSetTokens, if_neg named, start]
  simp [membershipValues_in filled]

theorem parseClosedSetTokens_any {column : String} (named : column ≠ "") (filled : values ≠ []) :
    parseClosedSetTokens (anyTokens column values) =
      some { column, values := closedSet values } := by
  have start (inside : List StructuralSqlToken) :
      membershipStart (.equals :: .ident "ANY" :: .leftParen :: .ident "ARRAY" :: .leftBracket ::
        inside) = some (false, inside) := by
    have noIn : structuralIdent (some .equals) "in" = false := rfl
    have test : structuralIdent (some (.ident "ANY")) "any" = true := by decide
    have array : structuralIdent (some (.ident "ARRAY")) "array" = true := by decide
    simp [membershipStart, noIn, test, array]
  rw [anyTokens, parseClosedSetTokens, if_neg named, start]
  simp [membershipValues_any filled]

end GraphqlOrm.Schema
