import GraphqlOrm.Query.PostgresStatement

/-!
# The scan reads a statement

The scan goes over bytes, the reading of a statement over characters. No byte of a longer
character is ASCII, so a test for bytes says the same of each byte of a character; the scan
therefore stops at the pieces of the reading and nowhere else.

## Main result

* `scan_lexed`: the scan finds the parameters of the reading, up to an anonymous placeholder.
-/
namespace GraphqlOrm.Query

open Schema Text

/-! ### Bytes of characters -/

@[simp] theorem encode_nil : encode [] = [] := rfl

theorem encode_cons (c : Char) (cs : List Char) :
    encode (c :: cs) = String.utf8EncodeChar c ++ encode cs := List.flatMap_cons

theorem encode_append (cs ds : List Char) : encode (cs ++ ds) = encode cs ++ encode ds :=
  List.flatMap_append

variable {c : Char}

theorem encode_ascii (small : c.toNat < 128) (cs : List Char) :
    encode (c :: cs) = byte c :: encode cs := by
  rw [encode_cons, utf8EncodeChar_ascii small]
  rfl

theorem length_encode (cs : List Char) : (encode cs).length = byteLength cs := by
  induction cs with
  | nil => rfl
  | cons c cs ih => rw [encode_cons, List.length_append, String.length_utf8EncodeChar, ih,
      byteLength_cons]

theorem drop_encode (done text : List Char) :
    (encode (done ++ text)).drop (byteLength done) = encode text := by
  rw [encode_append, ← length_encode, List.drop_left]

theorem exists_bytes (c : Char) :
    ∃ b bs, String.utf8EncodeChar c = b :: bs ∧ ∀ d ∈ bs, 128 ≤ d.toNat := by
  have filled : (String.utf8EncodeChar c).length ≠ 0 := by
    rw [String.length_utf8EncodeChar]
    exact Nat.ne_of_gt c.utf8Size_pos
  rcases Nat.lt_or_ge c.toNat 128 with small | wide
  · exact ⟨_, [], utf8EncodeChar_ascii small, by simp⟩
  · have high := utf8EncodeChar_wide wide
    cases bytes : String.utf8EncodeChar c with
    | nil => exact absurd (congrArg List.length bytes) filled
    | cons b bs =>
      rw [bytes] at high
      exact ⟨b, bs, rfl, fun d mem => high d (.tail _ mem)⟩

/-- A test for bytes says of each byte of a character what a test for characters says of it. -/
def BytesAgree (p : UInt8 → Bool) (q : Char → Bool) : Prop :=
  ∀ c, ∀ b ∈ String.utf8EncodeChar c, p b = q c

section BytesAgree

variable {p : UInt8 → Bool} {q : Char → Bool} (agrees : BytesAgree p q)

theorem agrees_of {p : UInt8 → Bool} {q : Char → Bool}
    (small : ∀ n < 128, p (UInt8.ofNat n) = q (Char.ofNat n))
    (wide : ∃ answer, (∀ b : UInt8, 128 ≤ b.toNat → p b = answer) ∧
      ∀ c : Char, 128 ≤ c.toNat → q c = answer) : BytesAgree p q := by
  intro c b mem
  rcases Nat.lt_or_ge c.toNat 128 with ascii | high
  · rw [utf8EncodeChar_ascii ascii, List.mem_singleton] at mem
    rw [mem, small _ ascii, Char.ofNat_toNat]
  · obtain ⟨answer, bytes, chars⟩ := wide
    rw [bytes b (utf8EncodeChar_wide high b mem), chars c high]

include agrees

theorem BytesAgree.takeWhile (cs : List Char) :
    (encode cs).takeWhile p = encode (cs.takeWhile q) := by
  induction cs with
  | nil => rfl
  | cons c cs ih =>
    rw [encode_cons]
    cases answer : q c with
    | true =>
      have all : ∀ b ∈ String.utf8EncodeChar c, p b = true := fun b mem =>
        (agrees c b mem).trans answer
      rw [List.takeWhile_append_of_pos all, ih, List.takeWhile_cons_of_pos answer, encode_cons]
    | false =>
      obtain ⟨b, bs, bytes, -⟩ := exists_bytes c
      have first : ¬p b = true := by
        rw [agrees c b (by rw [bytes]; exact .head _), answer]
        decide
      rw [bytes, List.cons_append, List.takeWhile_cons_of_neg first,
        List.takeWhile_cons_of_neg (by rw [answer]; decide)]
      rfl

theorem BytesAgree.dropWhile (cs : List Char) :
    (encode cs).dropWhile p = encode (cs.dropWhile q) := by
  have whole := (encode cs).takeWhile_append_dropWhile (p := p)
  have chars := congrArg encode (cs.takeWhile_append_dropWhile (p := q))
  rw [encode_append] at chars
  rw [agrees.takeWhile] at whole
  exact List.append_cancel_left (whole.trans chars.symm)

theorem BytesAgree.head (cs : List Char) : (encode cs).head?.any p = cs.head?.any q := by
  cases cs with
  | nil => rfl
  | cons c cs =>
    obtain ⟨b, bs, bytes, -⟩ := exists_bytes c
    rw [encode_cons, bytes]
    exact agrees c b (by rw [bytes]; exact .head _)

theorem BytesAgree.last (front : List Char) (c : Char) (text : List Char) :
    (encode (front ++ [c] ++ text))[byteLength (front ++ [c]) - 1]?.any p = q c := by
  have filled := c.utf8Size_pos
  have inside : byteLength (front ++ [c]) - 1 < (encode (front ++ [c])).length := by
    rw [length_encode, byteLength_append, byteLength_cons]
    omega
  have outside : (encode front).length ≤ byteLength (front ++ [c]) - 1 := by
    rw [length_encode, byteLength_append, byteLength_cons]
    omega
  rw [encode_append, List.getElem?_append_left inside, encode_append,
    List.getElem?_append_right outside, encode_cons, encode_nil, List.append_nil]
  have place : byteLength (front ++ [c]) - 1 - (encode front).length <
      (String.utf8EncodeChar c).length := by
    rw [String.length_utf8EncodeChar, length_encode, byteLength_append, byteLength_cons,
      byteLength_nil]
    omega
  rw [List.getElem?_eq_getElem place]
  exact agrees c _ (List.getElem_mem place)

end BytesAgree

/-! ### The tests of the scan -/

theorem wide_isDigit (wide : 128 ≤ c.toNat) : c.isDigit = false := by
  rw [Bool.eq_false_iff]
  intro digit
  have high : c.toNat ≤ 57 := (Bool.and_eq_true_iff.mp digit).2 |> of_decide_eq_true
  omega

variable {b : UInt8}

theorem wide_isDigitByte (wide : 128 ≤ b.toNat) : isDigitByte b = false := by
  have high : ¬b ≤ byte '9' := by
    rw [UInt8.le_iff_toNat_le]
    change ¬b.toNat ≤ 57
    omega
  simp [isDigitByte, high]

theorem wide_byte (wide : 128 ≤ b.toNat) : (0x80 : UInt8) ≤ b :=
  UInt8.le_iff_toNat_le.mpr wide

theorem agrees_byte {d : Char} (small : d.toNat < 128) :
    BytesAgree (fun b => b = byte d) (fun c => c = d) := by
  intro c b mem
  rcases Nat.lt_or_ge c.toNat 128 with ascii | wide
  · rw [utf8EncodeChar_ascii ascii, List.mem_singleton] at mem
    rw [decide_eq_decide, mem, byte, ← UInt8.toNat_inj, UInt8.toNat_ofNat', UInt8.toNat_ofNat',
      Nat.mod_eq_of_lt (by omega), Nat.mod_eq_of_lt (by omega)]
    exact Char.toNat_inj
  · have high := utf8EncodeChar_wide wide b mem
    have apart : b ≠ byte d := by
      rintro rfl
      rw [byte, UInt8.toNat_ofNat', Nat.mod_eq_of_lt (by omega)] at high
      omega
    have other : c ≠ d := by
      rintro rfl
      omega
    simp [apart, other]

theorem agrees_letters : BytesAgree (fun b => b = byte 'p' || b = byte 'P') isP := by
  intro c b mem
  have small := agrees_byte (show ('p').toNat < 128 by decide) c b mem
  have capital := agrees_byte (show ('P').toNat < 128 by decide) c b mem
  simp only at small capital ⊢
  rw [small, capital, isP, Bool.decide_or]

theorem agrees_digit : BytesAgree isDigitByte Char.isDigit :=
  agrees_of (by decide) ⟨false, fun _ => wide_isDigitByte, fun _ => wide_isDigit⟩

theorem agrees_identifier : BytesAgree postgresIdentifierByte identifierChar :=
  agrees_of (by decide) ⟨true, fun _ wide => by simp [postgresIdentifierByte, wide_byte wide],
    fun _ wide => by simp [identifierChar, wide]⟩

theorem agrees_tagStart : BytesAgree tagStartByte tagStart :=
  agrees_of (by decide) ⟨true, fun _ wide => by simp [tagStartByte, wide_byte wide],
    fun _ wide => by simp [tagStart, wide]⟩

theorem agrees_tag : BytesAgree tagByte tagChar :=
  agrees_of (by decide) ⟨true, fun _ wide => by simp [tagByte, wide_byte wide],
    fun _ wide => by simp [tagChar, wide]⟩

/-- The first byte is that of an ASCII character exactly if the character is the first one. -/
theorem head_encode {d : Char} (small : d.toNat < 128) (cs : List Char) :
    (encode cs).head? = some (byte d) ↔ cs.head? = some d := by
  have same := (agrees_byte small).head cs
  have any {α : Type} [DecidableEq α] (o : Option α) (x : α) :
      o.any (fun y => y = x) = true ↔ o = some x := by
    cases o <;> simp
  rw [← any, same, any]

/-! ### Inner loops -/

variable {body : List Char}

section Quoted

variable {quote : Char} {escapes : Bool}

theorem skipQuoted_plain {q : UInt8} (other : b ≠ q) (stays : ¬(escapes = true ∧ b = byte '\\'))
    (rest : List UInt8) : skipQuoted q escapes (b :: rest) = skipQuoted q escapes rest := by
  cases rest with
  | nil => rfl
  | cons c rest => rw [skipQuoted, if_neg stays, if_neg other]

theorem skipQuoted_bytes {q : UInt8} {bs : List UInt8}
    (plain : ∀ b ∈ bs, b ≠ q ∧ ¬(escapes = true ∧ b = byte '\\')) (rest : List UInt8) :
    skipQuoted q escapes (bs ++ rest) = skipQuoted q escapes rest := by
  induction bs with
  | nil => rfl
  | cons b bs ih =>
    obtain ⟨other, stays⟩ := plain b (.head _)
    rw [List.cons_append, skipQuoted_plain other stays,
      ih fun d mem => plain d (.tail _ mem)]

def ProperQuote (quote : Char) : Prop := quote = '\'' ∨ quote = '"'

theorem skipQuoted_inside (proper : ProperQuote quote) (inside : Inside quote escapes body)
    (rest : List Char) :
    skipQuoted (byte quote) escapes (encode (body ++ rest)) =
      skipQuoted (byte quote) escapes (encode rest) := by
  have small : quote.toNat < 128 := by rcases proper with rfl | rfl <;> decide
  have slash : byte quote ≠ byte '\\' := by rcases proper with rfl | rfl <;> decide
  induction inside with
  | nil => rfl
  | @escaped c cs allowed _ ih =>
    obtain ⟨b, bs, bytes, high⟩ := exists_bytes c
    have plain : ∀ d ∈ bs, d ≠ byte quote ∧ ¬(escapes = true ∧ d = byte '\\') := by
      intro d mem
      have wide := high d mem
      constructor
      · rintro rfl
        rcases proper with rfl | rfl <;> exact absurd wide (by decide)
      · rintro ⟨-, rfl⟩
        exact absurd wide (by decide)
    -- the byte after the backslash is skipped, and the others of its character are no quotes
    rw [List.cons_append, List.cons_append, encode_ascii (by decide), encode_cons, bytes,
      List.cons_append, skipQuoted, if_pos ⟨allowed, rfl⟩, skipQuoted_bytes plain, ih]
  | doubled _ ih =>
    rw [List.cons_append, List.cons_append, encode_ascii small, encode_ascii small, skipQuoted,
      if_neg (fun both => slash both.2), if_pos rfl, if_pos rfl, ih]
  | @plain c cs other stays _ ih =>
    have bytes : ∀ d ∈ String.utf8EncodeChar c, d ≠ byte quote ∧
        ¬(escapes = true ∧ d = byte '\\') := by
      intro d mem
      have noQuote := agrees_byte small c d mem
      have noSlash := agrees_byte (show ('\\').toNat < 128 by decide) c d mem
      rw [decide_eq_decide] at noQuote noSlash
      rw [Ne, noQuote, noSlash]
      exact ⟨other, stays⟩
    rw [List.cons_append, encode_cons, skipQuoted_bytes bytes, ih]

theorem skipQuoted_ending (proper : ProperQuote quote) {tail rest : List Char}
    (ending : Ending quote escapes tail rest) :
    skipQuoted (byte quote) escapes (encode (tail ++ rest)) = encode rest := by
  have small : quote.toNat < 128 := by rcases proper with rfl | rfl <;> decide
  have slash : byte quote ≠ byte '\\' := by rcases proper with rfl | rfl <;> decide
  cases ending with
  | closed single =>
    have next : (encode rest).head? ≠ some (byte quote) :=
      fun same => single ((head_encode small rest).mp same)
    rw [List.cons_append, encode_ascii small, List.nil_append]
    cases bytes : encode rest with
    | nil => rfl
    | cons c bs =>
      rw [bytes] at next
      have other : c ≠ byte quote := fun same => next (by rw [same]; rfl)
      rw [skipQuoted, if_neg (fun both => slash both.2), if_pos rfl, if_neg other]
  | unclosed => rfl
  | backslash => rfl

end Quoted

theorem skipLine_encode {rest : List Char} (inside : ∀ c ∈ body, c ≠ '\n' ∧ c ≠ '\r')
    (ends : ∀ c ∈ rest.head?, c = '\n' ∨ c = '\r') :
    skipLine (encode (body ++ rest)) = encode rest := by
  have agrees : BytesAgree (fun b => decide ¬(b = byte '\n' ∨ b = byte '\r'))
      (fun c => decide ¬(c = '\n' ∨ c = '\r')) := by
    intro c b mem
    have feed := agrees_byte (show ('\n').toNat < 128 by decide) c b mem
    have back := agrees_byte (show ('\r').toNat < 128 by decide) c b mem
    rw [decide_eq_decide] at feed back ⊢
    rw [feed, back]
  have all : ∀ c ∈ body, decide (¬(c = '\n' ∨ c = '\r')) = true := fun c mem =>
    decide_eq_true (not_or.mpr (inside c mem))
  rw [skipLine, agrees.dropWhile, List.dropWhile_append_of_pos all]
  apply congrArg
  apply dropWhile_eq_self
  intro c mem
  exact decide_eq_false (not_not.mpr (ends c mem))

theorem byte_inj {d : Char} (small : c.toNat < 128) (ascii : d.toNat < 128) :
    byte c = byte d ↔ c = d := by
  have mem : byte c ∈ String.utf8EncodeChar c := by
    rw [utf8EncodeChar_ascii small]
    exact List.mem_singleton_self (byte c)
  exact decide_eq_decide.mp (agrees_byte ascii c (byte c) mem)

section Block

theorem skipBlock_plain {depth : Nat} {rest : List UInt8}
    (noOpening : ¬(b = byte '/' ∧ rest.head? = some (byte '*')))
    (noClosing : ¬(b = byte '*' ∧ rest.head? = some (byte '/'))) :
    skipBlock (depth + 1) (b :: rest) = skipBlock (depth + 1) rest := by
  cases rest with
  | nil => rfl
  | cons c rest =>
    rw [List.head?_cons, Option.some.injEq] at noOpening noClosing
    rw [skipBlock, if_neg noOpening, if_neg noClosing]

theorem skipBlock_char {depth : Nat} {rest : List Char}
    (noOpening : ¬(c = '/' ∧ rest.head? = some '*'))
    (noClosing : ¬(c = '*' ∧ rest.head? = some '/')) :
    skipBlock (depth + 1) (encode (c :: rest)) = skipBlock (depth + 1) (encode rest) := by
  rcases Nat.lt_or_ge c.toNat 128 with small | wide
  · have same {d : Char} (ascii : d.toNat < 128) : byte c = byte d ↔ c = d := byte_inj small ascii
    rw [encode_ascii small]
    apply skipBlock_plain
    · rwa [same (by decide), head_encode (by decide)]
    · rwa [same (by decide), head_encode (by decide)]
  · rw [encode_cons]
    have high := utf8EncodeChar_wide wide
    generalize String.utf8EncodeChar c = bs at high
    induction bs with
    | nil => rfl
    | cons b bs ih =>
      have top := high b (.head _)
      rw [List.cons_append, skipBlock_plain, ih fun d mem => high d (.tail _ mem)]
      · rintro ⟨rfl, -⟩
        exact absurd top (by decide)
      · rintro ⟨rfl, -⟩
        exact absurd top (by decide)

/-- What is left when the depth has become `last`, unless the text ends before. -/
theorem skipBlock_nested {last depth : Nat} {rest : List Char} (nested : Nested last depth body)
    (ends : last = 0 ∨ rest = []) :
    skipBlock depth (encode (body ++ rest)) = encode rest := by
  induction nested with
  | done =>
    rcases ends with rfl | rfl
    · rw [List.nil_append, skipBlock]
    · cases last <;> rfl
  | opens _ ih =>
    rw [List.cons_append, List.cons_append, encode_ascii (by decide), encode_ascii (by decide),
      skipBlock, if_pos ⟨rfl, rfl⟩, ih]
  | closes _ ih =>
    rw [List.cons_append, List.cons_append, encode_ascii (by decide), encode_ascii (by decide),
      skipBlock, if_neg (by decide), if_pos ⟨rfl, rfl⟩, ih]
  | @skips depth c cs noOpening noClosing inner ih =>
    have head : (cs ++ rest).head? = cs.head? ∨ cs ++ rest = [] := by
      cases cs with
      | nil =>
        -- nothing is left of the comment only where the text ends with it
        rcases ends with rfl | rfl
        · cases inner
        · exact .inr rfl
      | cons d cs => exact .inl rfl
    have follows {d : Char} (next : (cs ++ rest).head? = some d) : cs.head? = some d := by
      rcases head with same | none_
      · rwa [← same]
      · rw [none_] at next
        cases next
    rw [List.cons_append, skipBlock_char (fun both => noOpening ⟨both.1, follows both.2⟩)
      (fun both => noClosing ⟨both.1, follows both.2⟩), ih]

end Block

/-! ### Dollar quotes -/

def frontTag (rest : List Char) : List Char :=
  if rest.head?.any tagStart then rest.takeWhile tagChar else []

theorem leadingTag_encode (rest : List Char) : leadingTag (encode rest) = encode (frontTag rest) := by
  unfold leadingTag frontTag
  rw [agrees_tagStart.head, agrees_tag.takeWhile]
  split <;> rfl

theorem frontTag_append (rest : List Char) : frontTag rest ++ rest.drop (frontTag rest).length = rest := by
  have initial : frontTag rest <+: rest := by
    unfold frontTag
    split
    · exact List.takeWhile_prefix _
    · exact List.nil_prefix
  exact List.prefix_iff_eq_append.mp initial

theorem isTag_frontTag (rest : List Char) : IsTag (frontTag rest) := by
  unfold frontTag
  split
  next starts =>
    refine ⟨fun c first => ?_, fun c mem => List.mem_takeWhile_imp mem⟩
    cases rest with
    | nil => cases first
    | cons d rest =>
      rw [List.takeWhile_cons] at first
      split at first
      · cases first
        exact starts
      · cases first
  next => exact ⟨by simp, by simp⟩

theorem frontTag_of_opens {tag : List Char} (named : IsTag tag) (after : List Char) :
    frontTag (tag ++ '$' :: after) = tag := by
  unfold frontTag
  cases tag with
  | nil => exact if_neg (by decide : ¬tagStart '$' = true)
  | cons c tag =>
    have starts : (c :: tag ++ '$' :: after).head?.any tagStart = true := named.1 c rfl
    rw [if_pos starts, List.takeWhile_append_of_pos named.2,
      List.takeWhile_cons_of_neg (by decide), List.append_nil]

theorem find_first {needle rest : List Char} (filled : needle ≠ [])
    (first : ∀ front, front ++ needle <+: body ++ needle → body.length ≤ front.length) :
    find needle (body ++ needle ++ rest) = some (byteLength body) := by
  induction body with
  | nil =>
    cases needle with
    | nil => exact absurd rfl filled
    | cons c needle =>
      have here : (c :: needle).isPrefixOf (c :: (needle ++ rest)) = true :=
        List.isPrefixOf_iff_prefix.mpr ⟨rest, rfl⟩
      rw [List.nil_append, List.cons_append, find, if_pos here]
      rfl
  | cons c body ih =>
    have later : ¬needle.isPrefixOf (c :: (body ++ needle ++ rest)) = true := by
      intro here
      have short : needle.length ≤ (c :: body ++ needle).length := by simp; omega
      have early : needle <+: c :: body ++ needle :=
        List.prefix_of_prefix_length_le (List.isPrefixOf_iff_prefix.mp here) ⟨rest, rfl⟩ short
      exact absurd (first [] early) (by simp)
    rw [List.cons_append, List.cons_append, find, if_neg later, ih, byteLength_cons]
    · rfl
    · intro front occurs
      have shifted := first (c :: front) (List.cons_prefix_cons.mpr ⟨rfl, occurs⟩)
      simpa using shifted

theorem find_absent {needle text : List Char} (never : ¬needle <:+: text) : find needle text = none := by
  induction text with
  | nil =>
    apply if_neg
    rintro rfl
    exact never List.nil_infix
  | cons c text ih =>
    have here : ¬needle.isPrefixOf (c :: text) = true := fun initial =>
      never (List.isPrefixOf_iff_prefix.mp initial).isInfix
    rw [find, if_neg here, ih fun later => never (later.trans (List.suffix_cons c text).isInfix)]
    rfl

variable {sql : List Char}

section Dollar

variable {done tag : List Char}

theorem byteLength_delimiterOf (tag : List Char) :
    byteLength (delimiterOf tag) = 1 + (encode tag).length + 1 := by
  rw [length_encode, delimiterOf, byteLength_cons, byteLength_append]
  rfl

/-- Where a dollar quote opens, the text after its delimiter is searched for the delimiter. -/
theorem skipDollar_opened (named : IsTag tag) (after : List Char) (length : Nat) :
    skipDollar (done ++ delimiterOf tag ++ after) length (byteLength done)
        (encode (tag ++ '$' :: after)) =
      some (((find (delimiterOf tag) after).map fun offset =>
        byteLength (done ++ delimiterOf tag) + offset + byteLength (delimiterOf tag)).getD length) := by
  have stop : byteLength done + 1 + (encode tag).length + 1 =
      byteLength done + byteLength (delimiterOf tag) := by
    rw [byteLength_delimiterOf]
    omega
  have dollar : ((encode (tag ++ '$' :: after)).drop (encode tag).length).head? =
      some (byte '$') := by
    rw [encode_append, List.drop_left]
    exact (head_encode (by decide) _).mpr rfl
  have cut := splitAtByte_append (done ++ delimiterOf tag) after
  have delimiter := slice_append done (delimiterOf tag) after
  rw [← byteLength_append] at stop delimiter
  rw [skipDollar, leadingTag_encode, frontTag_of_opens named, if_pos dollar, stop]
  simp only [delimiter, cut, Option.bind_eq_bind, Option.bind_some, Option.pure_def]
  cases find (delimiterOf tag) after <;> rfl

/-- A dollar quote that is closed is skipped as a whole. -/
theorem skipDollar_closed (named : IsTag tag) {rest : List Char} (length : Nat)
    (first : ∀ front, front ++ delimiterOf tag <+: body ++ delimiterOf tag →
      body.length ≤ front.length) :
    skipDollar (done ++ delimiterOf tag ++ (body ++ delimiterOf tag ++ rest)) length
        (byteLength done) (encode (tag ++ '$' :: (body ++ delimiterOf tag ++ rest))) =
      some (byteLength (done ++ (delimiterOf tag ++ body ++ delimiterOf tag))) := by
  rw [skipDollar_opened named, find_first (by simp [delimiterOf]) first]
  simp only [byteLength_append, Option.map_some, Option.getD_some, Option.some.injEq]
  omega

theorem skipDollar_unclosed (named : IsTag tag) (length : Nat) (never : ¬delimiterOf tag <:+: body) :
    skipDollar (done ++ delimiterOf tag ++ body) length (byteLength done)
      (encode (tag ++ '$' :: body)) = some length := by
  rw [skipDollar_opened named, find_absent never]
  rfl

theorem skipDollar_plain {rest : List Char} (length start : Nat) (opens : ¬OpensDollar rest) :
    skipDollar sql length start (encode rest) = some (start + 1) := by
  apply if_neg
  intro dollar
  have whole := frontTag_append rest
  have front : encode rest = encode (frontTag rest) ++ encode (rest.drop (frontTag rest).length) := by
    rw [← encode_append, whole]
  rw [leadingTag_encode, front, List.drop_left, head_encode (by decide)] at dollar
  obtain ⟨after, rest_⟩ := List.head?_eq_some_iff.mp dollar
  rw [rest_] at whole
  exact opens ⟨frontTag rest, isTag_frontTag rest, after, by rw [List.append_assoc]; exact whole⟩

end Dollar

/-! ### What stands before -/

section Before

variable (text : List Char)

/-- The context of a position is what the scan finds in the bytes before it. -/
theorem identifierBefore_context (done : List Char) :
    identifierBefore (encode (done ++ text)) (byteLength done) = (Context.start.past done).identifier := by
  rcases List.eq_nil_or_concat' done with rfl | ⟨front, c, rfl⟩
  · rfl
  · have filled := c.utf8Size_pos
    have moved : (byteLength (front ++ [c]) == 0) = false := by
      rw [byteLength_append, byteLength_cons, beq_eq_false_iff_ne]
      omega
    rw [identifierBefore, moved, agrees_identifier.last, Context.past_append]
    exact Bool.not_not _

theorem escapesAt_context (done : List Char) :
    escapesAt (encode (done ++ text)) (byteLength done) = (Context.start.past done).escape := by
  rcases List.eq_nil_or_concat' done with rfl | ⟨front, c, rfl⟩
  · rfl
  · have filled := c.utf8Size_pos
    have moved : decide (0 < byteLength (front ++ [c])) = true := by
      rw [byteLength_append, byteLength_cons, decide_eq_true_eq]
      omega
    have agrees : BytesAgree (fun b => b = byte 'e' || b = byte 'E') (fun c => c == 'e' || c == 'E') := by
      intro d b mem
      have small := agrees_byte (show ('e').toNat < 128 by decide) d b mem
      have capital := agrees_byte (show ('E').toNat < 128 by decide) d b mem
      simp only at small capital ⊢
      rw [small, capital]
      rfl
    rw [escapesAt, moved, agrees.last, Context.past_append, Bool.true_and]
    change _ = ((c == 'e' || c == 'E') && !(Context.start.past front).identifier)
    by_cases letter : (c == 'e' || c == 'E') = true
    · have one : c.utf8Size = 1 := by
        rcases Bool.or_eq_true_iff.mp letter with same | same <;> rw [eq_of_beq same] <;> rfl
      -- the letter is a single byte, so the byte before it ends what stands in front
      rw [← identifierBefore_context ([c] ++ text) front, letter, Bool.true_and, Bool.true_and,
        identifierBefore, Bool.not_not, byteLength_append, byteLength_cons, one, byteLength_nil,
        ← List.append_assoc]
      have start : (byteLength front + (1 + 0) == 1) = (byteLength front == 0) := by
        rw [Bool.eq_iff_iff, beq_iff_eq, beq_iff_eq]
        omega
      rw [start]
      rfl
    · rw [Bool.not_eq_true] at letter
      rw [letter, Bool.false_and, Bool.false_and]

end Before

/-! ### The scan -/

/-- What the scan finds from an offset on, by the pieces of the reading. -/
def placesFrom : Nat → List Piece → Scanned
  | _, [] => .parameters []
  | i, .text cs :: pieces => placesFrom (i + byteLength cs) pieces
  | i, .parameter digits :: pieces =>
    (placesFrom (i + 1 + digits.length) pieces).push (i, i + 1 + digits.length)
  | _, .anonymous _ :: _ => .anonymous

variable {bytes : List UInt8}

theorem scan_nil {i : Nat} (at_ : bytes.drop i = []) :
    scan sql bytes i = some (.parameters []) := by
  rw [scan]
  split
  next => rfl
  next b rest at' =>
    rw [at_] at at'
    cases at'

/-- One turn of the loop. -/
theorem scan_cons {rest : List UInt8} {i : Nat} (at_ : bytes.drop i = b :: rest) :
    scan sql bytes i =
      if b = byte '\'' ∨ b = byte '"' then
        scan sql bytes
          (bytes.length - (skipQuoted b (b = byte '\'' && escapesAt bytes i) rest).length)
      else if b = byte '-' ∧ rest.head? = some (byte '-') then
        scan sql bytes (bytes.length - (skipLine rest.tail).length)
      else if b = byte '/' ∧ rest.head? = some (byte '*') then
        scan sql bytes (bytes.length - (skipBlock 1 rest.tail).length)
      else if b = byte '$' ∧ identifierBefore bytes i = false then
        if rest.head?.any isDigitByte then
          (scan sql bytes (i + 1 + (rest.takeWhile isDigitByte).length)).map
            (.push (i, i + 1 + (rest.takeWhile isDigitByte).length))
        else (skipDollar sql bytes.length i rest).bind (scan sql bytes)
      else if b = byte '?' then some .anonymous
      else if b = byte '@' ∧ rest.head?.any (fun c => c = byte 'p' || c = byte 'P') then
        some .anonymous
      else scan sql bytes (i + 1) := by
  rw [scan]
  split
  next at' =>
    rw [at_] at at'
    cases at'
  next b' rest' at' =>
    rw [at_] at at'
    obtain ⟨rfl, rfl⟩ := List.cons.inj at'
    cases next_ : skipDollar sql bytes.length i rest <;> simp only <;> rfl

section Pieces

variable {done rest : List Char}

/-- The bytes at an offset. -/
theorem drop_encode_ascii (small : c.toNat < 128) (done rest : List Char) :
    (encode (done ++ c :: rest)).drop (byteLength done) = byte c :: encode rest := by
  rw [drop_encode, encode_ascii small]

theorem index_encode (done part rest : List Char) :
    (encode (done ++ (part ++ rest))).length - (encode rest).length = byteLength (done ++ part) := by
  rw [length_encode, length_encode, byteLength_append, byteLength_append, byteLength_append]
  omega

theorem scan_quoted {quote : Char} {escapes : Bool} {part : List Char} (proper : ProperQuote quote)
    (escaped : (decide (quote = '\'') && (Context.start.past done).escape) = escapes)
    (quoted : QuotedPart quote escapes part rest) :
    scan (done ++ (part ++ rest)) (encode (done ++ (part ++ rest))) (byteLength done) =
      scan (done ++ (part ++ rest)) (encode (done ++ (part ++ rest))) (byteLength (done ++ part)) := by
  have small : quote.toNat < 128 := by rcases proper with rfl | rfl <;> decide
  have opens : byte quote = byte '\'' ∨ byte quote = byte '"' := by
    rcases proper with rfl | rfl
    · exact .inl rfl
    · exact .inr rfl
  have which : decide (byte quote = byte '\'') = decide (quote = '\'') := by
    rcases proper with rfl | rfl <;> rfl
  obtain ⟨inside, ending⟩ := quoted
  rename_i body tail
  have left : skipQuoted (byte quote) escapes (encode (body ++ tail ++ rest)) = encode rest := by
    rw [List.append_assoc, skipQuoted_inside proper inside, skipQuoted_ending proper ending]
  rw [List.cons_append, scan_cons (drop_encode_ascii small _ _), if_pos opens,
    escapesAt_context, which, escaped, left]
  congr 1
  exact index_encode done (quote :: (body ++ tail)) rest

theorem scan_block {last : Nat} (nested : Nested last 1 body) (ends : last = 0 ∨ rest = []) :
    scan (done ++ ('/' :: '*' :: body ++ rest)) (encode (done ++ ('/' :: '*' :: body ++ rest)))
        (byteLength done) =
      scan (done ++ ('/' :: '*' :: body ++ rest)) (encode (done ++ ('/' :: '*' :: body ++ rest)))
        (byteLength (done ++ '/' :: '*' :: body)) := by
  have index := index_encode done ('/' :: '*' :: body) rest
  rw [List.cons_append, List.cons_append] at index ⊢
  rw [scan_cons (drop_encode_ascii (by decide) _ _), if_neg (by decide), encode_ascii (by decide),
    if_neg (by simp [byte]), if_pos ⟨rfl, rfl⟩, List.tail_cons, skipBlock_nested nested ends, index]

/-- Where a dollar sign opens a dollar quote, the scan goes on where `skipDollar` says. -/
theorem scan_dollar (free : (Context.start.past done).identifier = false) (after : List Char)
    (number : after.head?.any Char.isDigit = false) :
    scan (done ++ '$' :: after) (encode (done ++ '$' :: after)) (byteLength done) =
      (skipDollar (done ++ '$' :: after) (encode (done ++ '$' :: after)).length (byteLength done)
        (encode after)).bind (scan (done ++ '$' :: after) (encode (done ++ '$' :: after))) := by
  have noDigit : ¬(encode after).head?.any isDigitByte = true := by
    rw [agrees_digit.head, number]
    decide
  rw [scan_cons (drop_encode_ascii (by decide) _ _), if_neg (by decide), if_neg (by simp [byte]),
    if_neg (by simp [byte]), identifierBefore_context, if_pos ⟨rfl, free⟩, if_neg noDigit]

theorem tag_no_digit {tag : List Char} (named : IsTag tag) (after : List Char) :
    (tag ++ '$' :: after).head?.any Char.isDigit = false := by
  cases tag with
  | nil => rfl
  | cons c tag =>
    change c.isDigit = false
    rw [Bool.eq_false_iff]
    intro digit
    have starts := named.1 c rfl
    have high : c.toNat ≤ 57 := (Bool.and_eq_true_iff.mp digit).2 |> of_decide_eq_true
    simp only [tagStart, Bool.or_eq_true, isAlpha_iff, isUpper_iff, isLower_iff, beq_iff_eq,
      decide_eq_true_eq] at starts
    rcases starts with ((⟨low, -⟩ | ⟨low, -⟩) | rfl) | wide
    · omega
    · omega
    · exact absurd high (by decide)
    · omega

theorem scan_region {part : List Char} (region : Region (Context.start.past done) part rest) :
    scan (done ++ (part ++ rest)) (encode (done ++ (part ++ rest))) (byteLength done) =
      scan (done ++ (part ++ rest)) (encode (done ++ (part ++ rest))) (byteLength (done ++ part)) := by
  cases region with
  | string quoted => exact scan_quoted (.inl rfl) (by simp) quoted
  | identifier quoted => exact scan_quoted (.inr rfl) (by simp) quoted
  | @line body _ inside ends =>
    have index := index_encode done ('-' :: '-' :: body) rest
    rw [List.cons_append, List.cons_append] at index ⊢
    rw [scan_cons (drop_encode_ascii (by decide) _ _), if_neg (by decide), encode_ascii (by decide),
      if_pos ⟨rfl, rfl⟩, List.tail_cons, skipLine_encode inside ends, index]
  | block nested => exact scan_block nested (.inl rfl)
  | unclosedBlock nested => exact scan_block nested (.inr rfl)
  | @dollar tag body _ free named first =>
    have shape : delimiterOf tag ++ body ++ delimiterOf tag ++ rest =
        '$' :: (tag ++ '$' :: (body ++ delimiterOf tag ++ rest)) := by simp [delimiterOf]
    have skipped := @skipDollar_closed body done tag named rest
      (encode (done ++ (delimiterOf tag ++ body ++ delimiterOf tag ++ rest))).length first
    have whole : done ++ delimiterOf tag ++ (body ++ delimiterOf tag ++ rest) =
        done ++ (delimiterOf tag ++ body ++ delimiterOf tag ++ rest) := by simp
    rw [whole] at skipped
    rw [shape] at skipped ⊢
    rw [scan_dollar free _ (tag_no_digit named _), skipped]
    rfl
  | @unclosedDollar tag body free named never =>
    have shape : delimiterOf tag ++ body ++ [] = '$' :: (tag ++ '$' :: body) := by simp [delimiterOf]
    have skipped := @skipDollar_unclosed body done tag named
      (encode (done ++ (delimiterOf tag ++ body))).length never
    have whole : done ++ delimiterOf tag ++ body = done ++ (delimiterOf tag ++ body ++ []) := by simp
    rw [whole, List.append_nil] at skipped
    rw [shape] 
    rw [List.append_nil] at shape
    rw [shape] at skipped ⊢
    rw [scan_dollar free _ (tag_no_digit named _), skipped, length_encode]
    rfl

/-- The bytes of a longer character are passed one by one. -/
theorem scan_wide {bs after : List UInt8} {i : Nat} (at_ : bytes.drop i = bs ++ after)
    (high : ∀ b ∈ bs, 128 ≤ b.toNat) :
    scan sql bytes i = scan sql bytes (i + bs.length) := by
  induction bs generalizing i with
  | nil => rfl
  | cons b bs ih =>
    have top := high b (.head _)
    have apart {d : Char} (low : (byte d).toNat < 128) : b ≠ byte d := by
      rintro rfl
      omega
    have next : bytes.drop (i + 1) = bs ++ after := by
      rw [← List.drop_drop, at_]
      rfl
    rw [scan_cons at_, if_neg (not_or.mpr ⟨apart (by decide), apart (by decide)⟩),
      if_neg (fun both => apart (by decide) both.1), if_neg (fun both => apart (by decide) both.1),
      if_neg (fun both => apart (by decide) both.1), if_neg (apart (by decide)),
      if_neg (fun both => apart (by decide) both.1),
      ih next fun d mem => high d (.tail _ mem), List.length_cons]
    congr 1
    omega

theorem scan_plain (plain : Plain (Context.start.past done) c rest) :
    scan (done ++ c :: rest) (encode (done ++ c :: rest)) (byteLength done) =
      scan (done ++ c :: rest) (encode (done ++ c :: rest)) (byteLength (done ++ [c])) := by
  have index : byteLength (done ++ [c]) = byteLength done + c.utf8Size := by
    rw [byteLength_append, byteLength_cons, byteLength_nil]
    rfl
  rcases Nat.lt_or_ge c.toNat 128 with small | wide
  · have same {d : Char} (ascii : d.toNat < 128) : byte c = byte d ↔ c = d := byte_inj small ascii
    have quotes : ¬(byte c = byte '\'' ∨ byte c = byte '"') := by
      rw [same (by decide), same (by decide)]
      exact not_or.mpr plain.quotes
    have line : ¬(byte c = byte '-' ∧ (encode rest).head? = some (byte '-')) := by
      rw [same (by decide), head_encode (by decide)]
      exact fun both => plain.line both.1 both.2
    have block : ¬(byte c = byte '/' ∧ (encode rest).head? = some (byte '*')) := by
      rw [same (by decide), head_encode (by decide)]
      exact fun both => plain.block both.1 both.2
    have mark : ¬byte c = byte '?' := by
      rw [same (by decide)]
      exact plain.mark
    have sign : ¬(byte c = byte '@' ∧
        (encode rest).head?.any (fun b => b = byte 'p' || b = byte 'P') = true) := by
      rw [same (by decide), agrees_letters.head]
      rintro ⟨at_, letter⟩
      rw [(Option.any_eq_false _ _).mpr (plain.sign at_)] at letter
      cases letter
    have end_ : byteLength done + 1 = byteLength (done ++ [c]) := by rw [index, utf8Size_ascii small]
    rw [scan_cons (drop_encode_ascii small _ _), if_neg quotes, if_neg line, if_neg block, if_neg mark,
      if_neg sign, end_]
    split
    next dollar =>
      rw [same (by decide), identifierBefore_context] at dollar
      obtain ⟨digit, opens⟩ := plain.dollar dollar.1 dollar.2
      have noDigit : ¬(encode rest).head?.any isDigitByte = true := by
        rw [agrees_digit.head, (Option.any_eq_false _ _).mpr digit]
        decide
      rw [if_neg noDigit, skipDollar_plain _ _ opens, Option.bind_some, end_]
    next => rfl
  · have at_ : (encode (done ++ c :: rest)).drop (byteLength done) =
        String.utf8EncodeChar c ++ encode rest := by
      rw [drop_encode, encode_cons]
    rw [scan_wide at_ (utf8EncodeChar_wide wide), String.length_utf8EncodeChar, index]

variable {digits : List Char}

theorem byteLength_digits (digit : ∀ c ∈ digits, c.isDigit = true) :
    byteLength digits = digits.length := by
  induction digits with
  | nil => rfl
  | cons c digits ih =>
    have small : c.toNat < 128 := by
      by_contra high
      have none_ := wide_isDigit (Nat.le_of_not_lt high)
      rw [digit c (.head _)] at none_
      cases none_
    rw [byteLength_cons, utf8Size_ascii small,
      ih fun d mem => digit d (.tail _ mem), List.length_cons, Nat.add_comm]

theorem takeWhile_digits (digit : ∀ c ∈ digits, c.isDigit = true) (ends : DigitsEnd rest) :
    (digits ++ rest).takeWhile Char.isDigit = digits := by
  rw [List.takeWhile_append_of_pos digit]
  cases rest with
  | nil => rw [List.takeWhile_nil, List.append_nil]
  | cons c rest =>
    rw [List.takeWhile_cons_of_neg (by rw [ends c rfl]; decide), List.append_nil]

theorem scan_parameter (free : (Context.start.past done).identifier = false) (some_ : digits ≠ [])
    (digit : ∀ c ∈ digits, c.isDigit = true) (ends : DigitsEnd rest) :
    scan (done ++ ('$' :: digits ++ rest)) (encode (done ++ ('$' :: digits ++ rest))) (byteLength done) =
      (scan (done ++ ('$' :: digits ++ rest)) (encode (done ++ ('$' :: digits ++ rest)))
        (byteLength (done ++ '$' :: digits))).map
        (.push (byteLength done, byteLength done + 1 + digits.length)) := by
  have starts : (encode (digits ++ rest)).head?.any isDigitByte = true := by
    obtain ⟨d, digits, rfl⟩ := List.exists_cons_of_ne_nil some_
    rw [agrees_digit.head]
    exact digit d (.head _)
  have stop : byteLength (done ++ '$' :: digits) = byteLength done + 1 + digits.length := by
    rw [byteLength_append, byteLength_cons, byteLength_digits digit, ← Nat.add_assoc]
    rfl
  rw [List.cons_append, scan_cons (drop_encode_ascii (by decide) _ _), if_neg (by decide),
    if_neg (by simp [byte]), if_neg (by simp [byte]), identifierBefore_context, if_pos ⟨rfl, free⟩,
    if_pos starts, agrees_digit.takeWhile, takeWhile_digits digit ends, length_encode,
    byteLength_digits digit, stop]

end Pieces

theorem scan_sign {done sign rest : List Char} (read : Sign sign) :
    scan (done ++ (sign ++ rest)) (encode (done ++ (sign ++ rest))) (byteLength done) =
      some .anonymous := by
  cases read with
  | mark =>
    rw [List.cons_append, scan_cons (drop_encode_ascii (by decide) _ _), if_neg (by decide),
      if_neg (by simp [byte]), if_neg (by simp [byte]), if_neg (by simp [byte]), if_pos rfl]
  | @sign p digits letter digit =>
    have letters : (encode (p :: digits ++ rest)).head?.any
        (fun b => b = byte 'p' || b = byte 'P') = true := by
      rw [agrees_letters.head]
      exact letter
    rw [List.cons_append, scan_cons (drop_encode_ascii (by decide) _ _), if_neg (by decide),
      if_neg (by simp [byte]), if_neg (by simp [byte]), if_neg (by simp [byte]), if_neg (by decide),
      if_pos ⟨rfl, letters⟩]

/-- The scan finds the pieces of the reading. -/
theorem scan_lexed {context : Context} {text : List Char} {pieces : List Piece}
    (lexed : Lexed context text pieces) (done : List Char)
    (before : Context.start.past done = context) :
    scan (done ++ text) (encode (done ++ text)) (byteLength done) =
      some (placesFrom (byteLength done) pieces) := by
  induction lexed generalizing done with
  | nil =>
    apply scan_nil
    rw [drop_encode]
    rfl
  | @region context part rest pieces region after ih =>
    subst before
    have rest_ := ih (done ++ part) (Context.past_append ..)
    rw [List.append_assoc] at rest_
    rw [scan_region region, rest_, placesFrom, byteLength_append]
  | @parameter context digits rest pieces free some_ digit ends after ih =>
    subst before
    have rest_ := ih (done ++ '$' :: digits) (Context.past_append ..)
    have stop : byteLength (done ++ '$' :: digits) = byteLength done + 1 + digits.length := by
      rw [byteLength_append, byteLength_cons, byteLength_digits digit, ← Nat.add_assoc]
      rfl
    rw [List.append_assoc] at rest_
    rw [scan_parameter free some_ digit ends, rest_, placesFrom, stop]
    rfl
  | @anonymous context sign rest pieces read ends after ih =>
    rw [scan_sign read, placesFrom]
  | @plain context c rest pieces alone after ih =>
    subst before
    have rest_ := ih (done ++ [c]) (Context.past_append ..)
    rw [List.append_assoc, List.singleton_append] at rest_
    rw [scan_plain alone, rest_, placesFrom, byteLength_append]

end GraphqlOrm.Query
