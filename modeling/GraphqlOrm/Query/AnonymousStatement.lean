import GraphqlOrm.Query.StatementRebase

/-!
# Statements with anonymous placeholders

On the first anonymous placeholder a statement is read a second time, with quotes as the only
lexical structure. The numbers are right where the two readings find the same placeholders, as long
as they fit `usize`.

## Main result

* `normalizePostgresStatement_anonymous_iff`
-/
namespace GraphqlOrm.Query

open Schema Text

/-! ### Readings -/

/-- A character that is copied, or a placeholder with its spelling. -/
inductive Item where
  | copied (c : Char)
  | sign (spelling : List Char)

namespace Item

def spelled : Item → List Char
  | copied c => [c]
  | sign spelling => spelling

def shape : Item → Option Char
  | copied c => some c
  | sign _ => none

end Item

def source (items : List Item) : List Char := items.flatMap Item.spelled

def signCount (items : List Item) : Nat := (items.map Item.shape).count none

def numbered : Nat → List Item → List Char
  | _, [] => []
  | index, .copied c :: items => c :: numbered index items
  | index, .sign _ :: items => '$' :: (index.repr.toList ++ numbered (index + 1) items)

/-- How a placeholder is spelled. -/
inductive Spelling : List Char → Prop where
  | dollar {digits : List Char} (digit : ∀ c ∈ digits, c.isDigit = true) : Spelling ('$' :: digits)
  | anonymous {sign : List Char} (read : Sign sign) : Spelling sign

/-- The placeholders are spelled as such and take all digits that follow. -/
def Proper : List Item → Prop
  | [] => True
  | .copied _ :: items => Proper items
  | .sign spelling :: items => Spelling spelling ∧ DigitsEnd (source items) ∧ Proper items

/-- Two readings of one text have the same placeholders with the same numbers, except that a dollar
sign with the digits of its number may be a placeholder in one of them only. -/
inductive Alike : Nat → Nat → List Item → List Item → Prop where
  | nil {index other : Nat} : Alike index other [] []
  | copied {index other : Nat} {items others : List Item} (c : Char)
    (rest : Alike index other items others) : Alike index other (.copied c :: items) (.copied c :: others)
  | sign {index : Nat} {items others : List Item} (spelling : List Char)
    (rest : Alike (index + 1) (index + 1) items others) :
    Alike index index (.sign spelling :: items) (.sign spelling :: others)
  | left {index other : Nat} {items others : List Item}
    (rest : Alike (index + 1) other items others) :
    Alike index other (.sign ('$' :: index.repr.toList) :: items)
      (('$' :: index.repr.toList).map .copied ++ others)
  | right {index other : Nat} {items others : List Item}
    (rest : Alike index (other + 1) items others) :
    Alike index other (('$' :: other.repr.toList).map .copied ++ items)
      (.sign ('$' :: other.repr.toList) :: others)

theorem numbered_copied (index : Nat) (cs : List Char) (items : List Item) :
    numbered index (cs.map .copied ++ items) = cs ++ numbered index items := by
  induction cs with
  | nil => rfl
  | cons c cs ih => rw [List.map_cons, List.cons_append, numbered, ih, List.cons_append]

section Unique

variable {index other : Nat} {items others : List Item}

theorem Alike.numbered (alike : Alike index other items others) :
    Query.numbered index items = Query.numbered other others := by
  induction alike with
  | nil => rfl
  | copied c _ ih | sign _ _ ih => rw [Query.numbered, Query.numbered, ih]
  | left _ ih | right _ ih =>
    rw [Query.numbered, numbered_copied, ih, List.cons_append]

/-! ### Runs of digits -/

variable {rest : List Char}

theorem digits_append_inj {cs ds other : List Char} (left : ∀ c ∈ cs, c.isDigit = true)
    (right : ∀ c ∈ ds, c.isDigit = true) (ends : DigitsEnd rest) (ends' : DigitsEnd other)
    (same : cs ++ rest = ds ++ other) : cs = ds ∧ rest = other := by
  have first := takeWhile_digits left ends
  have second := takeWhile_digits right ends'
  rw [same, second] at first
  subst first
  exact ⟨rfl, List.append_cancel_left same⟩

theorem repr_digits (n : Nat) : ∀ c ∈ n.repr.toList, c.isDigit = true := by
  rw [Nat.toList_repr]
  exact fun c mem => Nat.isDigit_of_mem_toDigits (by decide) (by decide) mem

theorem digitsEnd_numbered (ends : DigitsEnd (source items)) (index : Nat) (proper : Proper items) :
    DigitsEnd (numbered index items) := by
  cases items with
  | nil => exact ends
  | cons item items =>
    cases item with
    | copied c => exact ends
    | sign spelling =>
      intro c first
      cases first
      rfl

theorem source_copied (c : Char) (items : List Item) :
    source (.copied c :: items) = c :: source items := rfl

theorem source_sign (spelling : List Char) (items : List Item) :
    source (.sign spelling :: items) = spelling ++ source items := rfl

/-- A placeholder starts with a mark or a sign. -/
theorem Spelling.first {spelling : List Char} (spelled : Spelling spelling) :
    ∃ c rest, spelling = c :: rest ∧ c.isDigit = false ∧
      (c = '$' → ∀ d ∈ rest, d.isDigit = true) := by
  cases spelled with
  | dollar digit => exact ⟨'$', _, rfl, rfl, fun _ => digit⟩
  | anonymous read =>
    cases read with
    | mark digit => exact ⟨'?', _, rfl, rfl, fun _ => digit⟩
    | sign letter digit => exact ⟨'@', _, rfl, rfl, fun same => absurd same (by decide)⟩

variable {digits : List Char}

/-- Digits at the front of a reading are copied. -/
theorem exists_copied (proper : Proper items) (digit : ∀ c ∈ digits, c.isDigit = true)
    (same : source items = digits ++ rest) :
    ∃ later, items = digits.map .copied ++ later ∧ source later = rest ∧ Proper later := by
  induction digits generalizing items with
  | nil => exact ⟨items, rfl, same, proper⟩
  | cons d digits ih =>
    cases items with
    | nil => cases same
    | cons item items =>
      cases item with
      | copied c =>
        obtain ⟨rfl, tail⟩ : c = d ∧ source items = digits ++ rest := List.cons.inj same
        have tail_proper : Proper items := proper
        obtain ⟨later, shape, text, proper'⟩ :=
          ih tail_proper (fun c mem => digit c (.tail _ mem)) tail
        exact ⟨later, by rw [shape]; rfl, text, proper'⟩
      | sign spelling =>
        obtain ⟨c, rest', rfl, other, -⟩ := proper.1.first
        obtain ⟨rfl, -⟩ : c = d ∧ _ := List.cons.inj same
        rw [digit c (.head _)] at other
        cases other

/-- Two placeholders at one place are one. -/
theorem spelling_unique {cs ds other : List Char} (left : Spelling cs) (right : Spelling ds)
    (ends : DigitsEnd rest) (ends' : DigitsEnd other) (same : cs ++ rest = ds ++ other) :
    cs = ds ∧ rest = other := by
  have tail {c : Char} {xs ys : List Char} (digit : ∀ d ∈ xs, d.isDigit = true)
      (digit' : ∀ d ∈ ys, d.isDigit = true) (same : c :: xs ++ rest = c :: ys ++ other) :
      c :: xs = c :: ys ∧ rest = other := by
    obtain ⟨rfl, rest_⟩ := digits_append_inj digit digit' ends ends' (List.cons.inj same).2
    exact ⟨rfl, rest_⟩
  cases left with
  | dollar digit =>
    cases right with
    | dollar digit' => exact tail digit digit' same
    | anonymous read => cases read <;> cases (List.cons.inj same).1
  | anonymous read =>
    cases read with
    | mark digit =>
      cases right with
      | dollar digit' => cases (List.cons.inj same).1
      | anonymous read' =>
        cases read' with
        | mark digit' => exact tail digit digit' same
        | sign letter digit' => cases (List.cons.inj same).1
    | sign letter digit =>
      cases right with
      | dollar digit' => cases (List.cons.inj same).1
      | anonymous read' =>
        cases read' with
        | mark digit' => cases (List.cons.inj same).1
        | sign letter' digit' =>
          have later := (List.cons.inj same).2
          obtain ⟨rfl, -⟩ := List.cons.inj later
          obtain ⟨spelled, rest_⟩ := tail digit digit' later
          exact ⟨by rw [spelled], rest_⟩

theorem numbered_sign_inj (digit : ∀ c ∈ digits, c.isDigit = true) (ends : DigitsEnd (source items))
    (proper : Proper items) (ends' : DigitsEnd rest)
    (same : index.repr.toList ++ numbered other items = digits ++ rest) :
    index.repr.toList = digits ∧ numbered other items = rest :=
  digits_append_inj (repr_digits index) digit (digitsEnd_numbered ends other proper) ends' same

/-- Where only one reading has a placeholder, it is a dollar sign with the digits of its number. -/
theorem numbered_mixed {c : Char} {spelling : List Char}
    (same : source (.sign spelling :: items) = source (.copied c :: others))
    (left : Proper (.sign spelling :: items)) (right : Proper (.copied c :: others))
    (equal : numbered index (.sign spelling :: items) = numbered other (.copied c :: others)) :
    ∃ later, spelling = '$' :: index.repr.toList ∧
      .copied c :: others = ('$' :: index.repr.toList).map .copied ++ later ∧
      source items = source later ∧ Proper later ∧
      numbered (index + 1) items = numbered other later := by
  obtain ⟨spelled, ends, proper⟩ := left
  have proper' : Proper others := right
  obtain ⟨d, digits, rfl, -, digit⟩ := spelled.first
  rw [source_sign, source_copied] at same
  rw [numbered, numbered] at equal
  obtain ⟨rfl, text⟩ : d = c ∧ digits ++ source items = source others := List.cons.inj same
  obtain ⟨rfl, written⟩ := List.cons.inj equal
  have all := digit rfl
  obtain ⟨later, rfl, text', proper''⟩ := exists_copied proper' all text.symm
  have ends' : DigitsEnd (numbered other later) :=
    digitsEnd_numbered (text' ▸ ends) other proper''
  rw [numbered_copied] at written
  obtain ⟨rfl, rest⟩ := numbered_sign_inj all ends proper ends' written
  exact ⟨later, rfl, rfl, text'.symm, proper'', rest⟩

/-- Two readings of one text are numbered alike exactly if their placeholders are alike. -/
theorem numbered_eq_iff (same : source items = source others) (left : Proper items)
    (right : Proper others) :
    numbered index items = numbered other others ↔ Alike index other items others := by
  refine ⟨fun equal => ?_, Alike.numbered⟩
  induction size : items.length + others.length using Nat.strong_induction_on
    generalizing index other items others with
  | _ n ih =>
  subst size
  cases items with
  | nil =>
    cases others with
    | nil => exact .nil
    | cons item others =>
      cases item with
      | copied c => cases same
      | sign spelling =>
        obtain ⟨c, rest, rfl, -⟩ := right.1.first
        cases same
  | cons item items =>
    cases others with
    | nil =>
      cases item with
      | copied c => cases same
      | sign spelling =>
        obtain ⟨c, rest, rfl, -⟩ := left.1.first
        cases same
    | cons item' others =>
      cases item with
      | copied c =>
        cases item' with
        | copied d =>
          obtain ⟨rfl, text⟩ : c = d ∧ source items = source others := List.cons.inj same
          have left' : Proper items := left
          have right' : Proper others := right
          exact .copied c (ih _ (by simp only [List.length_cons]; omega) text left' right'
            (List.cons.inj equal).2 rfl)
        | sign spelling =>
          obtain ⟨later, rfl, shape, text, proper, rest⟩ :=
            numbered_mixed same.symm right left equal.symm
          rw [shape]
          have shorter := congrArg List.length shape
          simp only [List.length_cons, List.length_append, List.length_map] at shorter
          exact .right (ih _ (by simp only [List.length_cons]; omega) text.symm proper right.2.2
            rest.symm rfl)
      | sign spelling =>
        cases item' with
        | copied d =>
          obtain ⟨later, rfl, shape, text, proper, rest⟩ := numbered_mixed same left right equal
          rw [shape]
          have shorter := congrArg List.length shape
          simp only [List.length_cons, List.length_append, List.length_map] at shorter
          exact .left (ih _ (by simp only [List.length_cons]; omega) text left.2.2 proper rest rfl)
        | sign spelling' =>
          obtain ⟨rfl, text⟩ := spelling_unique left.1 right.1 left.2.1 right.2.1 same
          obtain ⟨numbers, rest⟩ := numbered_sign_inj (repr_digits other) left.2.1 left.2.2
            (digitsEnd_numbered right.2.1 (other + 1) right.2.2) (List.cons.inj equal).2
          obtain rfl := repr_inj (String.toList_injective numbers)
          exact .sign spelling (ih _ (by simp only [List.length_cons]; omega) text left.2.2 right.2.2
            rest rfl)

end Unique

/-! ### The second reading -/

/-- How `normalize_sql_placeholders` reads a statement: the digits that still belong to the
placeholder before, and the items after them. -/
def plainFrom : ScanMode → List Char → List Char × List Item
  | _, [] => ([], [])
  | .quoted _, [c] => ([], [.copied c])
  | .quoted close, c :: d :: rest =>
    if c = close then
      if d = close then ([], .copied c :: .copied d :: (plainFrom (.quoted close) rest).2)
      else ([], .copied c :: (plainFrom (.outside false) (d :: rest)).2)
    else ([], .copied c :: (plainFrom (.quoted close) (d :: rest)).2)
  | .outside digits, [c] =>
    if digits ∧ c.isDigit then ([c], [])
    else if c = '?' ∨ c = '$' then ([], [.sign [c]])
    else ([], [.copied c])
  | .outside digits, c :: d :: rest =>
    if digits ∧ c.isDigit then
      (c :: (plainFrom (.outside true) (d :: rest)).1, (plainFrom (.outside true) (d :: rest)).2)
    else match quoteEnd false c with
      | some close => ([], .copied c :: (plainFrom (.quoted close) (d :: rest)).2)
      | none =>
        if c = '?' ∨ c = '$' then
          ([], .sign (c :: (plainFrom (.outside true) (d :: rest)).1) ::
            (plainFrom (.outside true) (d :: rest)).2)
        else if c = '@' ∧ isP d then
          ([], .sign (c :: d :: (plainFrom (.outside true) rest).1) ::
            (plainFrom (.outside true) rest).2)
        else ([], .copied c :: (plainFrom (.outside false) (d :: rest)).2)

def plainItems (sql : List Char) : List Item := (plainFrom (.outside false) sql).2

/-- What the reading copies and numbers is what the scanner does. -/
theorem rewriteFrom_plainFrom (mode : ScanMode) (cs : List Char) :
    rewriteFrom false mode cs = (plainFrom mode cs).2.map Item.shape := by
  fun_induction plainFrom mode cs
  case case13 free opens mark sign ih =>
    simp only [rewriteFrom, opens]
    rw [if_neg free, if_neg mark, if_neg sign, ih]
    rfl
  all_goals simp_all [rewriteFrom, Item.shape]

/-- What holds of a reading from a mode on. -/
structure PlainReading (mode : ScanMode) (cs : List Char) (reading : List Char × List Item) : Prop where
  text : cs = reading.1 ++ source reading.2
  proper : Proper reading.2
  digits : ∀ c ∈ reading.1, c.isDigit = true
  none_ : mode ≠ .outside true → reading.1 = []
  ends : mode = .outside true → DigitsEnd (source reading.2)

namespace PlainReading

variable {mode next : ScanMode} {c : Char} {cs : List Char} {reading : List Char × List Item}

theorem copied (rest : PlainReading next cs reading) (apart : next ≠ .outside true)
    (free : mode = .outside true → c.isDigit = false) :
    PlainReading mode (c :: cs) ([], .copied c :: reading.2) where
  text := by
    have whole := rest.text
    rw [rest.none_ apart] at whole
    exact congrArg (c :: ·) whole
  proper := rest.proper
  digits := by simp
  none_ _ := rfl
  ends same d first := by
    cases first
    exact free same

theorem digit (rest : PlainReading (.outside true) cs reading) (number : c.isDigit = true) :
    PlainReading (.outside true) (c :: cs) (c :: reading.1, reading.2) where
  text := congrArg (c :: ·) rest.text
  proper := rest.proper
  digits d mem := (List.mem_cons.mp mem).elim (fun same => same ▸ number) (rest.digits d)
  none_ apart := absurd rfl apart
  ends := rest.ends

theorem sign {front : List Char} (rest : PlainReading (.outside true) cs reading)
    (spelled : Spelling (front ++ reading.1)) : PlainReading mode (front ++ cs)
      ([], .sign (front ++ reading.1) :: reading.2) where
  text := by
    rw [List.nil_append, source_sign, List.append_assoc, ← rest.text]
  proper := ⟨spelled, rest.ends rfl, rest.proper⟩
  digits := by simp
  none_ _ := rfl
  ends _ d first := by
    obtain ⟨c, more, shape, other, -⟩ := spelled.first
    rw [source_sign, shape] at first
    cases first
    exact other

theorem nil : PlainReading mode [] ([], []) where
  text := rfl
  proper := trivial
  digits := by simp
  none_ _ := rfl
  ends _ := by simp [DigitsEnd, source]

end PlainReading

theorem spelling_mark {c : Char} (mark : c = '?' ∨ c = '$') {digits : List Char}
    (digit : ∀ d ∈ digits, d.isDigit = true) : Spelling ([c] ++ digits) := by
  rcases mark with rfl | rfl
  · exact .anonymous (.mark digit)
  · exact .dollar digit

theorem plainFrom_reading (mode : ScanMode) (cs : List Char) :
    PlainReading mode cs (plainFrom mode cs) := by
  fun_induction plainFrom mode cs with
  | case1 mode => exact .nil
  | case2 close c => exact @PlainReading.copied _ (.quoted close) c [] _ .nil (by simp) (by simp)
  | case3 close rest ih =>
    have inner : PlainReading (.quoted close) (close :: rest) _ := .copied ih (by simp) (by simp)
    exact .copied inner (by simp) (by simp)
  | case4 close d rest other ih | case5 close c d rest other ih =>
    exact .copied ih (by simp) (by simp)
  | case6 digits c number =>
    rw [number.1]
    exact .digit .nil number.2
  | case7 digits c other mark =>
    exact @PlainReading.sign _ [] ([], []) [c] .nil (spelling_mark mark (by simp))
  | case8 digits c other mark =>
    refine @PlainReading.copied _ (.outside false) c [] _ .nil (by simp) fun same => ?_
    cases same
    simpa using other
  | case9 digits c d rest number ih =>
    rw [number.1]
    exact .digit ih number.2
  | case10 digits c d rest other close opens ih | case13 digits c d rest other opens mark sign ih =>
    refine .copied ih (by simp) fun same => ?_
    cases same
    simpa using other
  | case11 digits c d rest other opens mark ih =>
    exact @PlainReading.sign _ (d :: rest) _ [c] ih (spelling_mark mark ih.digits)
  | case12 digits c d rest other opens mark sign ih =>
    obtain ⟨rfl, letter⟩ := sign
    exact @PlainReading.sign _ rest _ ['@', d] ih (.anonymous (.sign letter ih.digits))

theorem source_plainItems (sql : List Char) : source (plainItems sql) = sql := by
  have reading := plainFrom_reading (.outside false) sql
  have whole := reading.text
  rw [reading.none_ (by simp)] at whole
  exact whole.symm

theorem proper_plainItems (sql : List Char) : Proper (plainItems sql) :=
  (plainFrom_reading (.outside false) sql).proper

theorem spellPieces_numberFrom (index : Nat) (items : List Item) :
    spellPieces .postgres (numberFrom index (items.map Item.shape)) =
      String.ofList (numbered index items) := by
  unfold spellPieces
  apply congrArg
  induction items generalizing index with
  | nil => rfl
  | cons item items ih =>
    cases item with
    | copied c =>
      rw [List.map_cons, Item.shape, numberFrom, List.flatMap_cons, ih, numbered]
      simp [SqlPiece.spelled]
    | sign spelling =>
      rw [List.map_cons, Item.shape, numberFrom, List.flatMap_cons, ih, numbered]
      simp [SqlPiece.spelled, DatabaseBackend.placeholder]

theorem normalizeSqlPlaceholders_plainItems (sql : String) (startIndex : Nat) :
    normalizeSqlPlaceholders .postgres sql startIndex =
      String.ofList (numbered startIndex (plainItems sql.toList)) := by
  rw [normalizeSqlPlaceholders, if_pos (show numbers .postgres = true from rfl), rewritten,
    decide_eq_false (by decide), rewriteFrom_plainFrom, spellPieces_numberFrom]
  rfl

theorem emitted_plainItems (sql : String) :
    emitted .postgres sql = signCount (plainItems sql.toList) := by
  rw [emitted, rewritten, decide_eq_false (by decide), rewriteFrom_plainFrom]
  rfl

/-! ### The first reading -/

def Piece.items : Piece → List Item
  | text cs => cs.map .copied
  | parameter digits => [.sign ('$' :: digits)]
  | anonymous sign => [.sign sign]

def itemsOf (pieces : List Piece) : List Item := pieces.flatMap Piece.items

theorem source_append (items others : List Item) :
    source (items ++ others) = source items ++ source others := List.flatMap_append

theorem source_itemsOf (pieces : List Piece) : source (itemsOf pieces) = spell pieces := by
  induction pieces with
  | nil => rfl
  | cons piece pieces ih =>
    have here : source piece.items = piece.spelled := by
      cases piece with
      | text cs =>
        rw [Piece.items, source]
        induction cs with
        | nil => rfl
        | cons c cs ih => rw [List.map_cons, List.flatMap_cons, ih]; rfl
      | parameter digits | anonymous sign => exact List.append_nil _
    rw [itemsOf, List.flatMap_cons, source_append, here]
    exact congrArg _ ih

theorem proper_copied (cs : List Char) {items : List Item} (proper : Proper items) :
    Proper (cs.map .copied ++ items) := by
  induction cs with
  | nil => exact proper
  | cons c cs ih => exact ih

theorem Lexed.proper {context : Context} {text : List Char} {pieces : List Piece}
    (lexed : Lexed context text pieces) : Proper (itemsOf pieces) := by
  induction lexed with
  | nil => trivial
  | region _ _ ih => exact proper_copied _ ih
  | plain _ _ ih => exact ih
  | parameter _ _ digit ends after ih =>
    refine ⟨.dollar digit, ?_, ih⟩
    change DigitsEnd (source (itemsOf _))
    rwa [source_itemsOf, after.spell]
  | anonymous read ends after ih =>
    refine ⟨.anonymous read, ?_, ih⟩
    change DigitsEnd (source (itemsOf _))
    rwa [source_itemsOf, after.spell]

/-! ### The two readings -/

theorem normalizePostgresStatement_foreign {sql : String} {pieces : List Piece}
    (lexed : Lexed .start sql.toList pieces) (foreign : ¬Native pieces) (startIndex : Nat) :
    normalizePostgresStatement sql startIndex =
      if startIndex + signCount (plainItems sql.toList) < 2 ^ 64 then
        some (String.ofList (numbered startIndex (plainItems sql.toList)))
      else none := by
  have scanned := scan_lexed lexed [] rfl
  rw [List.nil_append, byteLength_nil, placesFrom_anonymous foreign] at scanned
  rw [normalizePostgresStatement, scanned, ← emitted_plainItems, ← normalizeSqlPlaceholders_plainItems]
  rfl

theorem alike_self (index : Nat) (items : List Item) : Alike index index items items := by
  induction items generalizing index with
  | nil => exact .nil
  | cons item items ih =>
    cases item with
    | copied c => exact .copied c (ih index)
    | sign spelling => exact .sign spelling (ih (index + 1))

/-- A statement with an anonymous placeholder keeps every character outside of its placeholders, and
these are numbered in order, exactly if quotes alone show where they are and no number overflows. -/
theorem normalizePostgresStatement_anonymous_iff {sql : String} {pieces : List Piece}
    (lexed : Lexed .start sql.toList pieces) (foreign : ¬Native pieces) (startIndex : Nat) :
    normalizePostgresStatement sql startIndex =
        some (String.ofList (numbered startIndex (itemsOf pieces))) ↔
      startIndex + signCount (plainItems sql.toList) < 2 ^ 64 ∧
        Alike startIndex startIndex (plainItems sql.toList) (itemsOf pieces) := by
  have same : source (plainItems sql.toList) = source (itemsOf pieces) := by
    rw [source_plainItems, source_itemsOf, lexed.spell]
  rw [normalizePostgresStatement_foreign lexed foreign]
  by_cases fits : startIndex + signCount (plainItems sql.toList) < 2 ^ 64
  · rw [if_pos fits, Option.some.injEq, String.ofList_inj,
      numbered_eq_iff same (proper_plainItems _) lexed.proper]
    exact (and_iff_right fits).symm
  · rw [if_neg fits]
    exact iff_of_false nofun (fun both => fits both.1)

/-- A question mark in quotes stays, and the two outside of them get numbers. -/
theorem normalizePostgresStatement_anonymous_quoted :
    let pieces : List Piece := [.anonymous ['?'], .text ['='], .text ['\'', '?', '\''], .text ['='],
      .anonymous ['?']]
    Lexed .start "?='?'=?".toList pieces ∧
      normalizePostgresStatement "?='?'=?" 2 = some "$2='?'=$3" := by
  intro pieces
  have lexed : Lexed .start "?='?'=?".toList pieces := by
    change Lexed .start ['?', '=', '\'', '?', '\'', '=', '?'] _
    refine @Lexed.anonymous _ ['?'] _ _ (.mark (by simp)) (by simp [DigitsEnd]) ?_
    refine .plain ⟨by decide, by simp, by simp, by decide, by simp, by simp⟩ ?_
    -- The quoted part, with the mark in it.
    refine @Lexed.region _ ['\'', '?', '\''] _ _ (.string (@QuotedPart.mk _ _ ['?'] ['\''] _ ?_ ?_)) ?_
    · exact .plain (by decide) (by simp) .nil
    · exact .closed (by simp)
    refine .plain ⟨by decide, by simp, by simp, by decide, by simp, by simp⟩ ?_
    exact @Lexed.anonymous _ ['?'] [] [] (.mark (by simp)) (by simp [DigitsEnd]) (.nil _)
  refine ⟨lexed, (normalizePostgresStatement_anonymous_iff lexed (by simp [Native, pieces]) 2).mpr ?_⟩
  exact ⟨by decide, alike_self 2 _⟩

/-- The second reading takes the delimiters of a dollar-quoted string for placeholders. -/
theorem normalizePostgresStatement_breaks_dollar :
    let pieces : List Piece :=
      [.anonymous ['?'], .text [','], .text ['$', '$', 'a', '$', '$']]
    Lexed .start "?,$$a$$".toList pieces ∧
      normalizePostgresStatement "?,$$a$$" 1 = some "$1,$2$3a$4$5" ∧
      String.ofList (numbered 1 (itemsOf pieces)) = "$1,$$a$$" := by
  intro pieces
  have first : ∀ front, front ++ delimiterOf [] <+: ['a'] ++ delimiterOf [] →
      ['a'].length ≤ front.length := by
    intro front occurs
    cases front with
    | nil => exact absurd occurs (by decide)
    | cons c front => simp
  have lexed : Lexed .start "?,$$a$$".toList pieces := by
    change Lexed .start ['?', ',', '$', '$', 'a', '$', '$'] _
    refine @Lexed.anonymous _ ['?'] _ _ (.mark (by simp)) (by simp [DigitsEnd]) ?_
    refine .plain ⟨by decide, by simp, by simp, by decide, by simp, by simp⟩ ?_
    exact @Lexed.region _ _ [] [] (@Region.dollar _ [] ['a'] [] rfl (by simp [IsTag]) first) (.nil _)
  refine ⟨lexed, ?_, by decide⟩
  rw [normalizePostgresStatement_foreign lexed (by simp [Native, pieces]), if_pos (by decide)]
  decide

end GraphqlOrm.Query
