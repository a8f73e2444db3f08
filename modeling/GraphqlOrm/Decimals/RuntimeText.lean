import GraphqlOrm.Decimals.PlainDecimal
import GraphqlOrm.Foundation.Bytes

/-!
# Runtime decimals

The strict input grammar and the canonical spelling of runtime decimals. The text goes
through the decimal type before it is brought to its scale, so trailing zeros that lose
nothing are refused where the decimal type cannot hold them.

## Main result

`runtimeDecimal_iff`: a text is treated as its value demands exactly if the decimal type
holds its digits, or the value is too large anyway.
-/
namespace GraphqlOrm.Decimals

open DecimalText Outcome Text

def maxRuntimeDecimalTextBytes : Nat := 64

inductive RuntimeDecimalProblem where
  | malformed | scale | precision

def RuntimeDecimalProblem.ofValueError : DecimalValueError → RuntimeDecimalProblem
  | .scale => .scale
  | .precision => .precision

/-! ### The grammar -/

/-- `str::split_once`. -/
def splitOnce (c : Char) (cs : List Char) : List Char × Option (List Char) :=
  (cs.takeWhile (· != c), (cs.dropWhile (· != c)).tail?)

def isDigits (part : List Char) : Bool := !part.isEmpty && part.all Char.isDigit

def strictGrammar (text : List Char) : Bool :=
  let (integer, fraction) := splitOnce '.' (unsigned text)
  isDigits integer && (integer == ['0'] || integer.head? != some '0') && fraction.all isDigits

theorem isDigits_iff {part : List Char} :
    isDigits part = true ↔ part ≠ [] ∧ ∀ c ∈ part, c.isDigit = true := by
  rw [isDigits, Bool.and_eq_true, Bool.not_eq_true', List.isEmpty_eq_false_iff, List.all_eq_true]

/-- The text cut at its first point. -/
theorem splitOnce_eq {c : Char} {cs before : List Char} {after : Option (List Char)}
    (split : splitOnce c cs = (before, after)) :
    c ∉ before ∧ cs = before ++ (after.elim [] fun rest => c :: rest) := by
  obtain ⟨rfl, rfl⟩ := Prod.mk.inj split
  refine ⟨fun mem => ?_, ?_⟩
  · have other := List.mem_takeWhile_imp mem
    simp at other
  · cases shape : cs.dropWhile (· != c) with
    | nil =>
      have whole := List.takeWhile_append_dropWhile (p := (· != c)) (l := cs)
      rw [shape] at whole
      exact whole.symm
    | cons d rest =>
      have stop : (d != c) = false := Text.dropWhile_head d (by rw [shape]; rfl)
      obtain rfl : d = c := by simpa using stop
      have whole := List.takeWhile_append_dropWhile (p := (· != d)) (l := cs)
      rw [shape] at whole
      exact whole.symm

theorem splitOnce_append {c : Char} {before after : List Char} (free : c ∉ before) :
    splitOnce c before = (before, none) ∧
      splitOnce c (before ++ c :: after) = (before, some after) := by
  have others : ∀ d ∈ before, (d != c) = true := fun d mem => by
    rw [bne_iff_ne]
    rintro rfl
    exact free mem
  unfold splitOnce
  constructor
  · rw [List.takeWhile_eq_self_iff.mpr others, List.dropWhile_eq_nil_iff.mpr others]
    rfl
  · rw [List.takeWhile_append_of_pos others, List.dropWhile_append_of_pos others]
    simp

/-- The grammar takes exactly the spellings of decimals. -/
theorem strictGrammar_iff {cs : List Char} :
    strictGrammar cs = true ↔ ∃ s : Spelling, s.chars = cs := by
  constructor
  · intro accepted
    obtain ⟨⟨integer, fraction⟩, split⟩ : ∃ parts, splitOnce '.' (unsigned cs) = parts := ⟨_, rfl⟩
    rw [strictGrammar, split] at accepted
    simp only [Bool.and_eq_true, isDigits_iff, Bool.or_eq_true, beq_iff_eq, bne_iff_ne] at accepted
    obtain ⟨⟨⟨filled, digits⟩, lean⟩, fractions⟩ := accepted
    have behind : fraction.getD [] = [] ∧ fraction = none ∨
        fraction.getD [] ≠ [] ∧ fraction = some (fraction.getD []) := by
      cases fraction with
      | none => exact .inl ⟨rfl, rfl⟩
      | some rest => exact .inr ⟨(isDigits_iff.mp fractions).1, rfl⟩
    let s : Spelling :=
      { negative := decide (cs.head? = some '-'), integer, fraction := fraction.getD []
        wholeDigits := digits
        fractionDigits := by
          cases fraction with
          | none => exact fun c mem => absurd mem List.not_mem_nil
          | some rest => exact (isDigits_iff.mp fractions).2
        filled
        lean := fun zero => lean.resolve_right fun other => other zero }
    have tail : s.tail = fraction.elim [] fun rest => '.' :: rest := by
      unfold Spelling.tail
      rcases behind with ⟨empty, none_⟩ | ⟨some_, shape⟩
      · rw [if_pos empty, none_]
        rfl
      · rw [if_neg some_, shape]
        rfl
    refine ⟨s, ?_⟩
    rw [Spelling.chars, tail, ← (splitOnce_eq split).2, Spelling.sign]
    simp only [s, decide_eq_true_eq]
    exact sign_unsigned cs
  · rintro ⟨s, rfl⟩
    obtain ⟨alone, cut⟩ := @splitOnce_append '.' s.integer s.fraction s.point_notMem
    have first : isDigits s.integer = true := isDigits_iff.mpr ⟨s.filled, s.wholeDigits⟩
    have lean : (s.integer == ['0'] || s.integer.head? != some '0') = true := by
      rw [Bool.or_eq_true, beq_iff_eq, bne_iff_ne, ← imp_iff_or_not]
      exact s.lean
    rw [strictGrammar, s.unsigned_chars, Spelling.tail]
    by_cases empty : s.fraction = []
    · rw [if_pos empty, List.append_nil, alone]
      simp only [first, lean, Bool.true_and, Option.all_none]
    · rw [if_neg empty, cut]
      simp only [first, lean, Bool.true_and, Option.all_some]
      exact isDigits_iff.mpr ⟨empty, s.fractionDigits⟩

/-! ### Parsing and printing -/

variable {δ : Type} (rust : DecimalLibrary δ)

def parseRuntimeDecimal (definition : DecimalDef) (text : String) :
    Except RuntimeDecimalProblem (DecimalValue rust) := do
  require (byteLength text.toList ≤ maxRuntimeDecimalTextBytes && strictGrammar text.toList)
    .malformed
  -- A text of the grammar is refused here where the decimal type cannot hold its digits.
  let value ← okOr .precision (rust.fromStrExact text)
  (DecimalValue.new rust value definition).mapError .ofValueError

def canonicalRuntimeDecimal (value : DecimalValue rust) : String :=
  rust.toString (if rust.isZero value.value then rust.setSignPositive value.value else value.value)

/-! ### What a text demands -/

def Spells (text : String) (s : Spelling) : Prop :=
  byteLength text.toList ≤ maxRuntimeDecimalTextBytes ∧ s.chars = text.toList

def Held (s : Spelling) : Prop := s.mantissa < mantissaLimit ∧ s.scale ≤ maxScale

def Fits (definition : DecimalDef) (q : ℚ) : Prop :=
  |q| < 10 ^ (definition.precision - definition.scale)

/-- The text is accepted, or rejected, as its value demands, and the accepted value has a
canonical text and a scaled integer that give it back. -/
structure TreatedByValue (definition : DecimalDef) (text : String) : Prop where
  accepted : (∃ v, parseRuntimeDecimal rust definition text = .ok v) ↔
    ∃ s, Spells text s ∧ Multiple definition s.value ∧ Fits definition s.value
  malformed : parseRuntimeDecimal rust definition text = .error .malformed ↔ ¬∃ s, Spells text s
  scale : parseRuntimeDecimal rust definition text = .error .scale ↔
    ∃ s, Spells text s ∧ ¬Multiple definition s.value
  precision : parseRuntimeDecimal rust definition text = .error .precision ↔
    ∃ s, Spells text s ∧ Multiple definition s.value ∧ ¬Fits definition s.value
  value : ∀ v, parseRuntimeDecimal rust definition text = .ok v →
    ∃ s, Spells text s ∧ rust.value v.value = s.value
  canonical : ∀ v, parseRuntimeDecimal rust definition text = .ok v →
    ∃ s : Spelling, s.chars = (canonicalRuntimeDecimal rust v).toList ∧
      s.scale = definition.scale ∧ s.value = rust.value v.value ∧
      (s.value = 0 → s.negative = false)
  again : ∀ v, parseRuntimeDecimal rust definition text = .ok v →
    ∃ w, parseRuntimeDecimal rust definition (canonicalRuntimeDecimal rust v) = .ok w ∧
      canonicalRuntimeDecimal rust w = canonicalRuntimeDecimal rust v
  scaled : ∀ v, parseRuntimeDecimal rust definition text = .ok v →
    ∃ n, toScaledI64 rust definition v.value = .ok n ∧
      rust.eq (fromScaledI64 rust definition n) v.value = true ∧
      toScaledI64 rust definition (fromScaledI64 rust definition n) = .ok n

section Outcomes

variable {rust} {definition : DecimalDef} {text : String} {s t : Spelling}

theorem Spells.unique (left : Spells text s) (right : Spells text t) : s = t :=
  Spelling.chars_injective (left.2.trans right.2.symm)

theorem parse_malformed (other : ¬∃ s, Spells text s) :
    parseRuntimeDecimal rust definition text = .error .malformed := by
  have refused : (decide (byteLength text.toList ≤ maxRuntimeDecimalTextBytes) &&
      strictGrammar text.toList) = false := by
    rw [Bool.eq_false_iff, ne_eq, Bool.and_eq_true, decide_eq_true_eq, strictGrammar_iff]
    rintro ⟨short, s, spelled⟩
    exact other ⟨s, short, spelled⟩
  change (require _ _ >>= _) = _
  rw [refused]
  rfl

theorem Spells.parse (spells : Spells text s) :
    parseRuntimeDecimal rust definition text =
      okOr .precision (rust.fromStrExact (String.ofList s.chars)) >>= fun value =>
        (DecimalValue.new rust value definition).mapError .ofValueError := by
  have passed : (decide (byteLength text.toList ≤ maxRuntimeDecimalTextBytes) &&
      strictGrammar text.toList) = true := by
    rw [Bool.and_eq_true, decide_eq_true_eq, strictGrammar_iff]
    exact ⟨spells.1, s, spells.2⟩
  change (require _ _ >>= _) = _
  rw [passed, spells.2, String.ofList_toList]
  rfl

variable (exact : rust.Exact) (portable : definition.mssqlMoney = false)

include exact in
theorem parse_outside (spells : Spells text s) (outside : ¬Held s) :
    parseRuntimeDecimal rust definition text = .error .precision := by
  rw [spells.parse, exact.fromStrExact_none s outside]
  rfl

include exact in
/-- The decimal type reads a text that it holds exactly. -/
theorem parse_held (spells : Spells text s) (held : Held s) :
    ∃ d, rust.value d = s.value ∧ parseRuntimeDecimal rust definition text =
      (DecimalValue.new rust d definition).mapError .ofValueError := by
  obtain ⟨d, read, mantissa, scale⟩ := exact.fromStrExact_some s held.1 held.2
  refine ⟨d, ?_, ?_⟩
  · rw [DecimalLibrary.value, mantissa, scale]
    rfl
  · rw [spells.parse, read]
    rfl

include exact in
theorem parse_scale (spells : Spells text s) (held : Held s)
    (off : ¬Multiple definition s.value) :
    parseRuntimeDecimal rust definition text = .error .scale := by
  obtain ⟨d, value, parsed⟩ := parse_held exact spells held
  rw [parsed, DecimalValue.new_error (normalize_scale exact (value ▸ off))]
  rfl

include portable in
/-- The bound on the value, for the integer of the last digits. -/
theorem fits_iff {n : Int} :
    Fits definition (n / 10 ^ definition.scale) ↔ n.natAbs < 10 ^ definition.precision := by
  have scaled : definition.scale ≤ definition.precision := by
    rcases definition.admitted with ⟨_, _, _, scaled⟩ | ⟨money, _⟩
    · exact scaled
    · rw [portable] at money
      cases money
  have whole : (10 : ℚ) ^ definition.precision =
      10 ^ (definition.precision - definition.scale) * 10 ^ definition.scale := by
    rw [← pow_add, Nat.sub_add_cancel scaled]
  rw [Fits, abs_div, abs_of_pos (pow_pos' definition.scale), div_lt_iff₀ (pow_pos' _), ← whole,
    ← Int.cast_abs, Int.abs_eq_natAbs]
  exact_mod_cast Iff.rfl

include exact portable in
theorem parse_precision (spells : Spells text s) (held : Held s)
    (multiple : Multiple definition s.value) (large : ¬Fits definition s.value) :
    parseRuntimeDecimal rust definition text = .error .precision := by
  obtain ⟨d, value, parsed⟩ := parse_held exact spells held
  obtain ⟨n, same⟩ := multiple
  rw [same, fits_iff portable, Nat.not_lt] at large
  rw [parsed,
    DecimalValue.new_error (normalize_precision exact portable (value.trans same) large)]
  rfl

include exact portable in
theorem parse_ok (spells : Spells text s) (held : Held s)
    (multiple : Multiple definition s.value) (fits : Fits definition s.value) :
    ∃ v, parseRuntimeDecimal rust definition text = .ok v := by
  obtain ⟨d, value, parsed⟩ := parse_held exact spells held
  obtain ⟨n, same⟩ := multiple
  rw [same, fits_iff portable] at fits
  obtain ⟨normalized, made, _⟩ := normalize_ok exact portable (value.trans same) fits
  refine ⟨⟨normalized, definition, d, made⟩, ?_⟩
  rw [parsed, mapError_eq_ok]
  exact DecimalValue.new_ok_iff.mpr ⟨made, rfl⟩

include exact portable in
/-- An accepted text is held by the decimal type, and its value is kept. -/
theorem parse_sound {v : DecimalValue rust}
    (accepted : parseRuntimeDecimal rust definition text = .ok v) :
    ∃ s, Spells text s ∧ Held s ∧ s.value = rust.mantissa v.value / 10 ^ definition.scale ∧
      (rust.mantissa v.value).natAbs < 10 ^ definition.precision ∧
      rust.scale v.value = definition.scale := by
  by_cases spelled : ∃ s, Spells text s
  · obtain ⟨s, spells⟩ := spelled
    by_cases held : Held s
    · obtain ⟨d, value, parsed⟩ := parse_held exact spells held
      rw [parsed, mapError_eq_ok, DecimalValue.new_ok_iff] at accepted
      exact ⟨s, spells, held, value ▸ normalize_sound exact portable accepted.1⟩
    · cases (parse_outside exact spells held).symm.trans accepted
  · cases (parse_malformed spelled).symm.trans accepted

/-! ### The canonical text -/

include exact in
theorem canonical_eq (v : DecimalValue rust) : canonicalRuntimeDecimal rust v =
    String.ofList (spelledInt (rust.mantissa v.value) (rust.scale v.value)).chars := by
  unfold canonicalRuntimeDecimal spelledInt
  split
  next zero =>
    have none_ := (exact.isZero _).mp zero
    obtain ⟨sign, mantissa, scale⟩ := exact.setSignPositive v.value
    rw [exact.toString, sign, mantissa, scale, none_]
    rfl
  next nonzero =>
    have some_ : rust.mantissa v.value ≠ 0 := fun zero => nonzero ((exact.isZero _).mpr zero)
    have sign : rust.isSignNegative v.value = decide (rust.mantissa v.value < 0) := by
      rw [Bool.eq_iff_iff, decide_eq_true_eq]
      exact exact.sign _ some_
    rw [exact.toString, sign]

include portable in
/-- A canonical text is within the bounds of input. -/
theorem spells_canonical {m : Int} (small : m.natAbs < 10 ^ definition.precision) :
    Spells (String.ofList (spelledInt m definition.scale).chars) (spelledInt m definition.scale) ∧
      Held (spelledInt m definition.scale) := by
  obtain ⟨positive, bounded⟩ := precision_pos portable
  have narrow : definition.precision ≤ 18 := by
    rcases definition.admitted with ⟨_, _, narrow, _⟩ | ⟨money, _⟩
    · exact narrow
    · rw [portable] at money
      cases money
  have short := definition.scale_le
  unfold maxScale at short
  refine ⟨⟨?_, by rw [String.toList_ofList]⟩, ?_, ?_⟩
  · rw [String.toList_ofList, Spelling.byteLength_chars]
    have length := @length_spelled (m < 0) m.natAbs definition.scale _ small positive
    unfold spelledInt maxRuntimeDecimalTextBytes
    omega
  · rw [spelledInt, spelled_mantissa]
    unfold mantissaLimit
    omega
  · rw [spelledInt, spelled_scale]
    exact definition.scale_le

include exact portable in
theorem parse_canonical {v : DecimalValue rust}
    (accepted : parseRuntimeDecimal rust definition text = .ok v) :
    ∃ w, parseRuntimeDecimal rust definition (canonicalRuntimeDecimal rust v) = .ok w ∧
      canonicalRuntimeDecimal rust w = canonicalRuntimeDecimal rust v := by
  obtain ⟨_, _, _, _, small, scale⟩ := parse_sound exact portable accepted
  obtain ⟨spells, held⟩ := spells_canonical portable small
  have value := spelledInt_value (rust.mantissa v.value) definition.scale
  rw [← scale, ← canonical_eq exact v, scale] at spells
  obtain ⟨w, parsed⟩ := parse_ok exact portable spells held ⟨_, value⟩
    (by rw [value, fits_iff portable]; exact small)
  obtain ⟨s, spells', _, value', _, scale'⟩ := parse_sound exact portable parsed
  rw [spells'.unique spells, value, div_left_inj' (pow_pos' _).ne'] at value'
  have mantissa : rust.mantissa v.value = rust.mantissa w.value := by exact_mod_cast value'
  exact ⟨w, parsed, by rw [canonical_eq exact, canonical_eq exact, ← mantissa, scale, scale']⟩

include exact portable in
theorem toScaledI64_ok {d : δ} (small : (rust.mantissa d).natAbs < 10 ^ definition.precision)
    (scale : rust.scale d = definition.scale) :
    toScaledI64 rust definition d = .ok (rust.mantissa d) := by
  obtain ⟨_, bounded⟩ := precision_pos portable
  have value : rust.value d = rust.mantissa d / 10 ^ definition.scale := by
    rw [DecimalLibrary.value, scale]
  obtain ⟨normalized, made, mantissa, _⟩ := normalize_ok exact portable value small
  have inside : Checked.InRange (rust.mantissa normalized) := by
    rw [mantissa]
    constructor <;> omega
  unfold toScaledI64
  rw [made]
  change (require (decide _) _ >>= fun _ => _) = _
  rw [decide_eq_true inside, ← mantissa]
  rfl

include exact portable in
theorem scaled_inverse {d : δ} (small : (rust.mantissa d).natAbs < 10 ^ definition.precision)
    (scale : rust.scale d = definition.scale) :
    ∃ n, toScaledI64 rust definition d = .ok n ∧
      rust.eq (fromScaledI64 rust definition n) d = true ∧
      toScaledI64 rust definition (fromScaledI64 rust definition n) = .ok n := by
  obtain ⟨_, bounded⟩ := precision_pos portable
  have fits : (rust.mantissa d).natAbs < mantissaLimit := by
    unfold mantissaLimit
    omega
  obtain ⟨mantissa', scale'⟩ := exact.fromI128WithScale _ _ fits definition.scale_le
  refine ⟨rust.mantissa d, toScaledI64_ok exact portable small scale, ?_, ?_⟩
  · rw [exact.eq]
    unfold DecimalLibrary.value fromScaledI64
    rw [mantissa', scale', scale]
  · have back : toScaledI64 rust definition (fromScaledI64 rust definition (rust.mantissa d)) =
        .ok (rust.mantissa (fromScaledI64 rust definition (rust.mantissa d))) :=
      toScaledI64_ok exact portable (by unfold fromScaledI64; rw [mantissa']; exact small) scale'
    rw [back]
    unfold fromScaledI64
    rw [mantissa']

theorem Spells.exists_iff (spells : Spells text s) {P : Spelling → Prop} :
    (∃ t, Spells text t ∧ P t) ↔ P s :=
  ⟨fun ⟨_, other, holds⟩ => other.unique spells ▸ holds, fun holds => ⟨s, spells, holds⟩⟩

def HeldOrLarge (definition : DecimalDef) (text : String) : Prop :=
  ∀ s, Spells text s → Held s ∨ Multiple definition s.value ∧ ¬Fits definition s.value

/-- What comes of a spelled text whose digits do not matter beyond its value. -/
inductive Outcome (rust : DecimalLibrary δ) (definition : DecimalDef) (text : String) (q : ℚ) : Prop
  | accepted {v : DecimalValue rust} (parsed : parseRuntimeDecimal rust definition text = .ok v)
    (multiple : Multiple definition q) (fits : Fits definition q)
  | scale (parsed : parseRuntimeDecimal rust definition text = .error .scale)
    (off : ¬Multiple definition q)
  | precision (parsed : parseRuntimeDecimal rust definition text = .error .precision)
    (multiple : Multiple definition q) (large : ¬Fits definition q)

include exact portable in
theorem outcome_of (spells : Spells text s) (holds : HeldOrLarge definition text) :
    Outcome rust definition text s.value := by
  by_cases held : Held s
  · by_cases multiple : Multiple definition s.value
    · by_cases fits : Fits definition s.value
      · obtain ⟨v, parsed⟩ := parse_ok exact portable spells held multiple fits
        exact .accepted parsed multiple fits
      · exact .precision (parse_precision exact portable spells held multiple fits) multiple fits
    · exact .scale (parse_scale exact spells held multiple) multiple
  · have ⟨multiple, large⟩ := (holds s spells).resolve_left held
    exact .precision (parse_outside exact spells held) multiple large

include exact portable in
/-- Apart from which texts are accepted, everything holds of every text. -/
theorem treatedByValue_of
    (accepted : (∃ v, parseRuntimeDecimal rust definition text = .ok v) ↔
      ∃ s, Spells text s ∧ Multiple definition s.value ∧ Fits definition s.value)
    (malformed : parseRuntimeDecimal rust definition text = .error .malformed ↔ ¬∃ s, Spells text s)
    (offScale : parseRuntimeDecimal rust definition text = .error .scale ↔
      ∃ s, Spells text s ∧ ¬Multiple definition s.value)
    (precision : parseRuntimeDecimal rust definition text = .error .precision ↔
      ∃ s, Spells text s ∧ Multiple definition s.value ∧ ¬Fits definition s.value) :
    TreatedByValue rust definition text where
  accepted := accepted
  malformed := malformed
  scale := offScale
  precision := precision
  value v parsed := by
    obtain ⟨s, spells, _, value, _, scale⟩ := parse_sound exact portable parsed
    exact ⟨s, spells, by rw [value, DecimalLibrary.value, scale]⟩
  canonical v parsed := by
    obtain ⟨_, _, _, _, _, scale⟩ := parse_sound exact portable parsed
    refine ⟨spelledInt (rust.mantissa v.value) (rust.scale v.value), ?_, ?_, ?_, ?_⟩
    · rw [canonical_eq exact, String.toList_ofList]
    · rw [spelledInt, spelled_scale, scale]
    · exact spelledInt_value _ _
    · intro zero
      rw [spelledInt_value, div_eq_zero_iff] at zero
      have none_ : rust.mantissa v.value = 0 := by
        exact_mod_cast zero.resolve_right (pow_pos' _).ne'
      rw [none_]
      rfl
  again v parsed := parse_canonical exact portable parsed
  scaled v parsed := by
    obtain ⟨_, _, _, _, small, scale⟩ := parse_sound exact portable parsed
    exact scaled_inverse exact portable small scale

end Outcomes

section Main

variable {rust} {definition : DecimalDef} {precision scale : Nat}

/-- Texts are treated by their value exactly where the decimal type holds their digits or
the value is too large for the definition. -/
theorem runtimeDecimal_iff (exact : rust.Exact)
    (made : DecimalDef.new precision scale = some definition) (text : String) :
    TreatedByValue rust definition text ↔ HeldOrLarge definition text := by
  have portable := DecimalDef.new_portable made
  constructor
  · intro treated s spells
    by_cases held : Held s
    · exact .inl held
    · have refused := treated.precision.mp (parse_outside exact spells held)
      exact .inr (spells.exists_iff.mp refused)
  · intro holds
    by_cases spelled : ∃ s, Spells text s
    · obtain ⟨s, spells⟩ := spelled
      -- One outcome is the case, and it rules out the others.
      cases outcome_of exact portable spells holds with
      | accepted parsed multiple fits =>
        apply treatedByValue_of exact portable
        · rw [spells.exists_iff, parsed]
          exact iff_of_true ⟨_, rfl⟩ ⟨multiple, fits⟩
        · rw [parsed]
          exact iff_of_false nofun (not_not_intro ⟨s, spells⟩)
        · rw [spells.exists_iff, parsed]
          exact iff_of_false nofun (not_not_intro multiple)
        · rw [spells.exists_iff, parsed]
          exact iff_of_false nofun fun large => large.2 fits
      | scale parsed off =>
        apply treatedByValue_of exact portable
        · rw [spells.exists_iff, parsed]
          exact iff_of_false nofun fun fits => off fits.1
        · rw [parsed]
          exact iff_of_false nofun (not_not_intro ⟨s, spells⟩)
        · rw [spells.exists_iff, parsed]
          exact iff_of_true rfl off
        · rw [spells.exists_iff, parsed]
          exact iff_of_false nofun fun large => off large.1
      | precision parsed multiple large =>
        apply treatedByValue_of exact portable
        · rw [spells.exists_iff, parsed]
          exact iff_of_false nofun fun fits => large fits.2
        · rw [parsed]
          exact iff_of_false nofun (not_not_intro ⟨s, spells⟩)
        · rw [spells.exists_iff, parsed]
          exact iff_of_false nofun (not_not_intro multiple)
        · rw [spells.exists_iff, parsed]
          exact iff_of_true rfl ⟨multiple, large⟩
    · have parsed : parseRuntimeDecimal rust definition text = .error .malformed :=
        parse_malformed spelled
      have none_ {P : Spelling → Prop} : ¬∃ s, Spells text s ∧ P s :=
        fun ⟨s, spells, _⟩ => spelled ⟨s, spells⟩
      apply treatedByValue_of exact portable
      · rw [parsed]
        exact iff_of_false nofun none_
      · exact iff_of_true parsed spelled
      · rw [parsed]
        exact iff_of_false nofun none_
      · rw [parsed]
        exact iff_of_false nofun none_

end Main

def money : DecimalDef :=
  { precision := 12, scale := 2, mssqlMoney := false, admitted := by decide }

theorem money_accepts : TreatedByValue plain money "12.500" := by
  apply (runtimeDecimal_iff plain_exact (show DecimalDef.new 12 2 = some money from rfl) _).mpr
  intro s spells
  have known : Spells "12.500" (spelledInt 12500 3) := ⟨by decide, rfl⟩
  rw [spells.unique known]
  exact .inl ⟨by decide, by decide⟩

/-- A one with 29 zeros behind the point, which loses nothing at any scale. -/
def trailingZeros : String := "1.00000000000000000000000000000"

theorem money_refuses_zeros :
    DecimalDef.new 12 2 = some money ∧ ¬TreatedByValue plain money trailingZeros := by
  refine ⟨rfl, fun treated => ?_⟩
  have spells : Spells trailingZeros (spelledInt (10 ^ 29) 29) := ⟨by decide, rfl⟩
  have outside : ¬Held (spelledInt (10 ^ 29) 29) := fun held => absurd held.2 (by decide)
  have refused := treated.precision.mp (parse_outside plain_exact spells outside)
  apply (spells.exists_iff.mp refused).2
  rw [spelledInt_value, Fits, show money.precision - money.scale = 10 from rfl]
  norm_num

end GraphqlOrm.Decimals
