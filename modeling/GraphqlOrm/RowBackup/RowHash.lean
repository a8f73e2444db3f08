import GraphqlOrm.Foundation.LabelledLines
import GraphqlOrm.Migration.CreateTable
import GraphqlOrm.RowBackup.Values

/-!
# Hashes of rows

The hash of a row is taken over a text with one line for each column. A string stands in its line as
it is.

## Main results

- `canonicalValue_same`: the text of one value determines the value.
- `canonicalText_injective_iff`: the text of a row determines its values exactly when at most one of
  its columns has strings with line breaks.
-/
namespace GraphqlOrm.RowBackup

open Backup (BackupValueKind)
open Bytes Decimals LabelledLines Text

variable {δ : Type} {rust : DecimalLibrary δ}

/-! ### The text of a row -/

def sortMembers : Json.Value String → Json.Value String
  | .object members => .object (OrderedMap.collectEntries members)
  | value => value

def canonicalJson (value : Json.Value String) : String := (sortMembers value).write

section Hash

variable (floats : FloatText)

def canonicalValue : BackupValue rust → String
  | .null => "null"
  | .bool value => "bool:" ++ if value then "true" else "false"
  | .integer value => "int:" ++ value.repr
  | .float bits => "float:" ++ floats.debug bits
  | .decimal value =>
    "decimal:" ++ value.definition.precision.repr ++ ":" ++ value.definition.scale.repr ++ ":" ++
      rust.toString value.value
  | .string value => "string:" ++ value
  | .uuid value => "uuid:" ++ UuidText.hyphenated value
  | .json value => "json:" ++ canonicalJson value
  | .bytes value => "bytes:" ++ hexEncode value

/-- What `canonicalRowHash` hashes. -/
def canonicalText (tableName : String) (values : OrderedMap String (BackupValue rust)) : String :=
  values.entries.foldl
    (fun canonical e => canonical ++ e.1 ++ "=" ++ canonicalValue floats e.2 ++ "\n")
    ("table:" ++ tableName ++ "\n")

def canonicalRowHash (tableName : String) (values : OrderedMap String (BackupValue rust)) :
    String :=
  Migration.hex64 (Migration.fnv1a64 (utf8 (canonicalText floats tableName values)))

end Hash

/-! ### Values that are the same -/

def isNaN (bits : BitVec 64) : Bool := decide (2047 * 2 ^ 52 < bits.toNat % 2 ^ 63)

/-- The documented behaviour of `Debug`: one line that reads back as the number, and one text for
everything that is not a number. -/
structure FloatText.Exact (floats : FloatText) : Prop where
  oneLine : ∀ bits, '\n' ∉ (floats.debug bits).toList
  debug : ∀ a b, floats.debug a = floats.debug b → a = b ∨ isNaN a = true ∧ isNaN b = true

/-- JSON is compared as JSON, and decimals with their definitions. -/
inductive BackupValue.Same : BackupValue rust → BackupValue rust → Prop
  | refl (value : BackupValue rust) : Same value value
  | float {a b : BitVec 64} : isNaN a = true → isNaN b = true → Same (.float a) (.float b)
  | decimal {a b : DecimalValue rust} : a.definition = b.definition →
      rust.eq a.value b.value = true → Same (.decimal a) (.decimal b)
  | json {a b : Json.Value String} : sortMembers a = sortMembers b → Same (.json a) (.json b)

theorem BackupValue.Same.string_inj {a b : String}
    (same : (BackupValue.string a : BackupValue rust).Same (.string b)) : a = b := by
  cases same
  rfl

def SameValues (x y : OrderedMap String (BackupValue rust)) : Prop :=
  ∀ column a b, x.get? column = some a → y.get? column = some b → a.Same b

def BreaksOnlyIn (columns : List String) (values : OrderedMap String (BackupValue rust)) : Prop :=
  ∀ column text, values.get? column = some (.string text) → '\n' ∈ text.toList → column ∈ columns

/-! ### The text of a value -/

def BackupValue.kind : BackupValue rust → BackupValueKind
  | .null => .null
  | .bool _ => .bool
  | .integer _ => .integer
  | .float _ => .float
  | .decimal _ => .decimal
  | .string _ => .string
  | .uuid _ => .uuid
  | .json _ => .json
  | .bytes _ => .bytes

def kindOfText : List Char → BackupValueKind
  | 'b' :: 'o' :: _ => .bool
  | 'b' :: _ => .bytes
  | 'i' :: _ => .integer
  | 'f' :: _ => .float
  | 'd' :: _ => .decimal
  | 's' :: _ => .string
  | 'u' :: _ => .uuid
  | 'j' :: _ => .json
  | _ => .null

variable {floats : FloatText}

theorem kindOfText_canonicalValue (value : BackupValue rust) :
    kindOfText (canonicalValue floats value).toList = value.kind := by
  cases value <;> simp [canonicalValue, kindOfText, BackupValue.kind]

/-- The printed decimal determines the number. -/
theorem eq_of_toString (exact : rust.Exact) {a b : δ} (same : rust.toString a = rust.toString b) :
    rust.eq a b = true := by
  rw [exact.toString, exact.toString] at same
  have spelled := DecimalText.Spelling.chars_injective (String.ofList_injective same)
  have scale := congrArg DecimalText.Spelling.scale spelled
  have digits := congrArg DecimalText.Spelling.mantissa spelled
  have sign := congrArg DecimalText.Spelling.negative spelled
  rw [DecimalText.spelled_scale, DecimalText.spelled_scale] at scale
  rw [DecimalText.spelled_mantissa, DecimalText.spelled_mantissa] at digits
  replace sign : rust.isSignNegative a = rust.isSignNegative b := sign
  have mantissa : rust.mantissa a = rust.mantissa b := by
    rcases eq_or_ne (rust.mantissa a) 0 with zero | nonzero
    · rw [zero, Int.natAbs_zero, eq_comm, Int.natAbs_eq_zero] at digits
      rw [zero, digits]
    · have nonzero' : rust.mantissa b ≠ 0 := by
        intro zero
        rw [zero, Int.natAbs_zero, Int.natAbs_eq_zero] at digits
        exact nonzero digits
      have left := exact.sign a nonzero
      have right := exact.sign b nonzero'
      rw [sign] at left
      have sides := left.symm.trans right
      omega
  rw [exact.eq]
  unfold DecimalLibrary.value
  rw [mantissa, scale]

/-- What stands before the first colon and behind it. -/
theorem cut_colon {a b r t : String} (left : Free [':'] a) (right : Free [':'] b)
    (same : a ++ (":" ++ r) = b ++ (":" ++ t)) : a = b ∧ r = t := by
  have chars := congrArg String.toList same
  simp only [String.toList_append] at chars
  obtain ⟨texts, rests⟩ := @append_cut Char (· = ':') _ _ _ _
    (fun c mem colon => left c mem (by simp [colon]))
    (fun c mem colon => right c mem (by simp [colon])) (by rintro _ ⟨rfl⟩; rfl)
    (by rintro _ ⟨rfl⟩; rfl) chars
  exact ⟨String.toList_inj.mp texts, String.toList_inj.mp (List.append_cancel_left rests)⟩

/-- The text of one value determines the value. -/
theorem canonicalValue_same (exact : rust.Exact) (print : floats.Exact) {x y : BackupValue rust}
    (same : canonicalValue floats x = canonicalValue floats y) : x.Same y := by
  have kinds := congrArg (fun text => kindOfText text.toList) same
  simp only [kindOfText_canonicalValue] at kinds
  cases x with
  | null =>
    cases y with
    | null => exact .refl _
    | _ => cases kinds
  | bool a =>
    cases y with
    | bool b =>
      cases a <;> cases b
      · exact .refl _
      · exact absurd same (by simp [canonicalValue])
      · exact absurd same (by simp [canonicalValue])
      · exact .refl _
    | _ => cases kinds
  | integer a =>
    cases y with
    | integer b =>
      rw [intRepr_injective ((String.append_right_inj "int:").mp same)]
      exact .refl _
    | _ => cases kinds
  | float a =>
    cases y with
    | float b =>
      rcases print.debug a b ((String.append_right_inj "float:").mp same) with rfl | ⟨left, right⟩
      · exact .refl _
      · exact .float left right
    | _ => cases kinds
  | decimal a =>
    cases y with
    | decimal b =>
      simp only [canonicalValue, String.append_assoc] at same
      have body := (String.append_right_inj "decimal:").mp same
      obtain ⟨precision, rest⟩ := cut_colon (free_natRepr _ (by decide)) (free_natRepr _ (by decide)) body
      obtain ⟨scale, printed⟩ := cut_colon (free_natRepr _ (by decide)) (free_natRepr _ (by decide)) rest
      exact .decimal (DecimalDef.ext_digits (repr_inj precision) (repr_inj scale))
        (eq_of_toString exact printed)
    | _ => cases kinds
  | string a =>
    cases y with
    | string b =>
      rw [(String.append_right_inj "string:").mp same]
      exact .refl _
    | _ => cases kinds
  | uuid a =>
    cases y with
    | uuid b =>
      rw [UuidText.hyphenated_injective ((String.append_right_inj "uuid:").mp same)]
      exact .refl _
    | _ => cases kinds
  | json a =>
    cases y with
    | json b =>
      exact .json (Json.write_injective ((String.append_right_inj "json:").mp same))
    | _ => cases kinds
  | bytes a =>
    cases y with
    | bytes b =>
      have read := congrArg hexDecode ((String.append_right_inj "bytes:").mp same)
      rw [hexDecode_hexEncode, hexDecode_hexEncode] at read
      rw [Option.some.inj read]
      exact .refl _
    | _ => cases kinds

/-- Line breaks come from strings. -/
theorem exists_string (exact : rust.Exact) (print : floats.Exact) {x : BackupValue rust}
    (break_ : '\n' ∈ (canonicalValue floats x).toList) :
    ∃ text, x = .string text ∧ '\n' ∈ text.toList := by
  have plain {lead payload : String} (own : '\n' ∉ lead.toList) (free : '\n' ∉ payload.toList) :
      '\n' ∉ (lead ++ payload).toList := by
    rw [String.toList_append, List.mem_append]
    exact not_or.mpr ⟨own, free⟩
  have number (n : Nat) : '\n' ∉ n.repr.toList := fun mem =>
    @free_natRepr ['\n'] n (by decide) '\n' mem (.head _)
  have digit : ∀ d, d < 16 → hexDigit d ≠ '\n' := by decide
  cases x with
  | string text =>
    refine ⟨text, rfl, ?_⟩
    rw [canonicalValue, String.toList_append, List.mem_append] at break_
    exact break_.resolve_left (by decide)
  | null => exact absurd break_ (by decide : '\n' ∉ "null".toList)
  | bool value =>
    cases value with
    | false => exact absurd break_ (by decide : '\n' ∉ "bool:false".toList)
    | true => exact absurd break_ (by decide : '\n' ∉ "bool:true".toList)
  | integer value =>
    refine absurd break_ (plain (by decide) fun mem => ?_)
    exact @free_intRepr ['\n'] value (by decide) (by decide) '\n' mem (.head _)
  | float bits => exact absurd break_ (plain (by decide) (print.oneLine bits))
  | decimal value =>
    refine absurd break_
      (plain (plain (plain (plain (plain (by decide) (number _)) (by decide)) (number _))
        (by decide)) fun mem => ?_)
    rw [exact.toString, String.toList_ofList] at mem
    rcases DecimalText.Spelling.mem_chars mem with digit | dash | point
    · exact absurd digit (by decide)
    · exact absurd dash (by decide)
    · exact absurd point (by decide)
  | uuid value =>
    exact absurd break_ (plain (by decide) (UuidText.notMem_hyphenated digit (by decide) value))
  | json value =>
    exact absurd break_ (plain (by decide) fun mem => Json.write_printable mem (by decide))
  | bytes value =>
    refine absurd break_ (plain (by decide) fun mem => ?_)
    rw [hexEncode, String.toList_ofList, List.mem_flatMap] at mem
    obtain ⟨b, _, mem⟩ := mem
    have small := b.toNat_lt
    rcases List.mem_cons.mp mem with high | low
    · exact digit _ (by omega) high.symm
    · exact digit _ (Nat.mod_lt _ (by decide)) (List.mem_singleton.mp low).symm

/-! ### The lines of a row -/

def entryOf (floats : FloatText) (e : String × BackupValue rust) : Entry :=
  (e.1.toList, (canonicalValue floats e.2).toList)

theorem toList_canonicalText (tableName : String) (values : OrderedMap String (BackupValue rust)) :
    (canonicalText floats tableName values).toList =
      ("table:" ++ tableName ++ "\n").toList ++ lines (values.entries.map (entryOf floats)) := by
  have step (es : List (String × BackupValue rust)) (seen : String) :
      (es.foldl (fun canonical e => canonical ++ e.1 ++ "=" ++ canonicalValue floats e.2 ++ "\n")
        seen).toList = seen.toList ++ lines (es.map (entryOf floats)) := by
    induction es generalizing seen with
    | nil => exact (List.append_nil _).symm
    | cons e es ih =>
      rw [List.foldl_cons, ih, List.map_cons, lines_cons]
      simp [entryOf]
  exact step values.entries _

theorem labels_eq {x y : OrderedMap String (BackupValue rust)} (same : x.keys = y.keys) :
    (x.entries.map (entryOf floats)).map Prod.fst =
      (y.entries.map (entryOf floats)).map Prod.fst := by
  have labels (z : OrderedMap String (BackupValue rust)) :
      (z.entries.map (entryOf floats)).map Prod.fst = z.keys.map String.toList := by
    rw [OrderedMap.keys, List.map_map, List.map_map]
    rfl
  rw [labels, labels, same]

/-- The text of a row determines its values when at most one column has strings with line breaks. -/
theorem sameValues_of_canonicalText (exact : rust.Exact) (print : floats.Exact) {free : List String}
    (single : free.length ≤ 1) {x y : OrderedMap String (BackupValue rust)}
    (columns : x.keys = y.keys) (left : BreaksOnlyIn free x) (right : BreaksOnlyIn free y)
    {tableName : String} (same : canonicalText floats tableName x = canonicalText floats tableName y) :
    SameValues x y := by
  have chars := congrArg String.toList same
  rw [toList_canonicalText, toList_canonicalText] at chars
  have body := List.append_cancel_left chars
  have distinct : ((x.entries.map (entryOf floats)).map Prod.fst).Nodup := by
    have keys := x.keys_nodup.map (fun _ _ => String.toList_inj.mp)
    rw [OrderedMap.keys, List.map_map] at keys
    rw [List.map_map]
    exact keys
  -- A text with a line break belongs to one of the columns.
  have owner {e : Entry} (mem : e ∈ x.entries.map (entryOf floats) ++
      y.entries.map (entryOf floats)) (break_ : '\n' ∈ e.2) : ∃ c ∈ free, e.1 = c.toList := by
    rcases List.mem_append.mp mem with inside | inside <;>
      obtain ⟨⟨column, value⟩, stored, rfl⟩ := List.mem_map.mp inside <;>
      obtain ⟨text, rfl, own⟩ := exists_string exact print break_
    · exact ⟨column, left column text (OrderedMap.mem_entries.mp stored) own, rfl⟩
    · exact ⟨column, right column text (OrderedMap.mem_entries.mp stored) own, rfl⟩
  have label : OneLabel (x.entries.map (entryOf floats)) (y.entries.map (entryOf floats)) := by
    intro a first b second here there
    obtain ⟨c, inFree, own⟩ := owner first here
    obtain ⟨d, inFree', own'⟩ := owner second there
    cases free with
    | nil => exact absurd inFree List.not_mem_nil
    | cons column rest =>
      obtain rfl := List.eq_nil_of_length_eq_zero (Nat.le_zero.mp (Nat.le_of_succ_le_succ single))
      rw [own, own', List.mem_singleton.mp inFree, List.mem_singleton.mp inFree']
  have entries := eq_of_lines (labels_eq columns) distinct label body
  intro column a b stored stored'
  have mem : entryOf floats (column, a) ∈ y.entries.map (entryOf floats) :=
    entries ▸ List.mem_map_of_mem (OrderedMap.mem_entries.mpr stored)
  obtain ⟨⟨column', b'⟩, inside, equal⟩ := List.mem_map.mp mem
  obtain ⟨names, texts⟩ := Prod.ext_iff.mp equal
  obtain rfl : column' = column := String.toList_inj.mp names
  have found := OrderedMap.mem_entries.mp inside
  obtain rfl : b = b' := Option.some.inj (stored'.symm.trans found)
  exact canonicalValue_same exact print (String.toList_inj.mp texts).symm

/-! ### Rows with one text -/

section Collision

def rowOf {columns : List String} (ascending : columns.Pairwise (· < ·))
    (value : String → BackupValue rust) : OrderedMap String (BackupValue rust) where
  entries := columns.map fun column => (column, value column)
  sorted := List.pairwise_map.mpr ascending

/-- Strings in two columns, and nulls in the others. -/
def twoStrings (rust : DecimalLibrary δ) (first second : String) (a b : List Char)
    (column : String) : BackupValue rust :=
  if column = first then .string (String.ofList a)
  else if column = second then .string (String.ofList b)
  else .null

variable {columns : List String} {ascending : columns.Pairwise (· < ·)}

theorem keys_rowOf (value : String → BackupValue rust) : (rowOf ascending value).keys = columns := by
  rw [OrderedMap.keys, rowOf, List.map_map]
  exact List.map_id columns

theorem get?_rowOf {value : String → BackupValue rust} {column : String} {a : BackupValue rust} :
    (rowOf ascending value).get? column = some a ↔ column ∈ columns ∧ value column = a := by
  rw [← OrderedMap.mem_entries, rowOf, List.mem_map]
  constructor
  · rintro ⟨other, mem, same⟩
    obtain ⟨rfl, rfl⟩ := Prod.ext_iff.mp same
    exact ⟨mem, rfl⟩
  · rintro ⟨mem, rfl⟩
    exact ⟨column, mem, rfl⟩

theorem breaksOnlyIn_twoStrings {first second : String} {a b : List Char} {free : List String}
    (left : first ∈ free) (right : second ∈ free) :
    BreaksOnlyIn free (rowOf ascending (twoStrings rust first second a b)) := by
  intro column text stored _
  obtain ⟨_, own⟩ := get?_rowOf.mp stored
  unfold twoStrings at own
  split at own
  next here => exact here ▸ left
  split at own
  next there => exact there ▸ right
  next => cases own

theorem entries_twoStrings {first second : String} {a b : List Char}
    {before between after : List String}
    (split : columns = before ++ first :: (between ++ second :: after)) :
    (rowOf ascending (twoStrings rust first second a b)).entries.map (entryOf floats) =
      before.map (fun c => (c.toList, "null".toList)) ++ (first.toList, "string:".toList ++ a) ::
        (between.map (fun c => (c.toList, "null".toList)) ++
          (second.toList, "string:".toList ++ b) ::
            after.map fun c => (c.toList, "null".toList)) := by
  subst split
  have distinct : (before ++ first :: (between ++ second :: after)).Nodup :=
    ascending.imp fun less => less.ne
  have firstFresh := (List.nodup_cons.mp (List.perm_middle.nodup_iff.mp distinct)).1
  have secondFresh : second ∉ before ++ first :: between ++ after := by
    have moved : (before ++ first :: (between ++ second :: after)) =
        before ++ first :: between ++ second :: after := by simp
    rw [moved] at distinct
    exact (List.nodup_cons.mp (List.perm_middle.nodup_iff.mp distinct)).1
  have apart : second ≠ first := by
    rintro rfl
    simp at secondFresh
  have plain {column : String} (other : column ≠ first) (other' : column ≠ second) :
      entryOf floats (column, twoStrings rust first second a b column) =
        (column.toList, "null".toList) := by
    unfold twoStrings
    rw [if_neg other, if_neg other']
    rfl
  have nulls {part : List String} (here : ∀ c ∈ part, c ≠ first ∧ c ≠ second) :
      part.map (fun c => entryOf floats (c, twoStrings rust first second a b c)) =
        part.map fun c => (c.toList, "null".toList) :=
    List.map_congr_left fun c mem => plain (here c mem).1 (here c mem).2
  have other {part : List String} (left : part ⊆ before ++ (between ++ second :: after))
      (right : part ⊆ before ++ first :: between ++ after) : ∀ c ∈ part, c ≠ first ∧ c ≠ second :=
    fun c mem => ⟨ne_of_mem_of_not_mem (left mem) firstFresh,
      ne_of_mem_of_not_mem (right mem) secondFresh⟩
  show (List.map _ _).map _ = _
  rw [List.map_map]
  show List.map (fun c => entryOf floats (c, twoStrings rust first second a b c)) _ = _
  rw [List.map_append, List.map_cons, List.map_append, List.map_cons,
    nulls (other (fun c mem => by simp [mem]) fun c mem => by simp [mem]),
    nulls (other (fun c mem => by simp [mem]) fun c mem => by simp [mem]),
    nulls (other (fun c mem => by simp [mem]) fun c mem => by simp [mem])]
  simp [entryOf, twoStrings, apart, canonicalValue]

/-- Two columns with line breaks are enough for two rows with one text. -/
theorem exists_collision (floats : FloatText) (tableName : String)
    (ascending : columns.Pairwise (· < ·)) {first second : String}
    {before between after : List String}
    (split : columns = before ++ first :: (between ++ second :: after)) {free : List String}
    (left : first ∈ free) (right : second ∈ free) :
    ∃ x y : OrderedMap String (BackupValue rust), x.keys = columns ∧ y.keys = columns ∧
      BreaksOnlyIn free x ∧ BreaksOnlyIn free y ∧
        canonicalText floats tableName x = canonicalText floats tableName y ∧ ¬SameValues x y := by
  let taken := tail (between.map fun c => (c.toList, "null".toList)) second.toList
    "string:".toList
  refine ⟨rowOf ascending (twoStrings rust first second [] taken),
    rowOf ascending (twoStrings rust first second taken []), keys_rowOf _, keys_rowOf _,
    breaksOnlyIn_twoStrings left right, breaksOnlyIn_twoStrings left right, ?_, ?_⟩
  · apply String.toList_inj.mp
    rw [toList_canonicalText, toList_canonicalText, entries_twoStrings split,
      entries_twoStrings split, List.append_nil]
    congr 1
    apply lines_shifted
  · intro same
    have mem : first ∈ columns := by
      rw [split]
      exact List.mem_append_right before (.head _)
    have equal := same first _ _ (get?_rowOf.mpr ⟨mem, rfl⟩) (get?_rowOf.mpr ⟨mem, rfl⟩)
    unfold twoStrings at equal
    rw [if_pos rfl, if_pos rfl] at equal
    exact List.cons_ne_nil _ _ (String.ofList_injective equal.string_inj).symm

end Collision

/-- Injective over the rows of a table whose line breaks stand in some of the columns. -/
theorem canonicalText_injective_iff (exact : rust.Exact) (print : floats.Exact)
    {columns : List String} (ascending : columns.Pairwise (· < ·)) {free : List String} (single : free.Nodup)
    (inside : free ⊆ columns) (tableName : String) :
    (∀ x y : OrderedMap String (BackupValue rust), x.keys = columns → y.keys = columns →
      BreaksOnlyIn free x → BreaksOnlyIn free y →
        canonicalText floats tableName x = canonicalText floats tableName y → SameValues x y) ↔
      free.length ≤ 1 := by
  constructor
  · intro injective
    by_contra more
    match free, more with
    | [], more => exact more (Nat.zero_le 1)
    | [_], more => exact more (le_refl 1)
    | a :: b :: rest, _ =>
      have apart : a ≠ b := by
        rintro rfl
        simp at single
      obtain ⟨before, after, split⟩ := List.append_of_mem (inside (.head _))
      have mem : b ∈ before ++ a :: after :=
        split ▸ inside (List.mem_cons_of_mem a (.head _))
      have left : a ∈ a :: b :: rest := .head _
      have right : b ∈ a :: b :: rest := List.mem_cons_of_mem a (.head _)
      rcases List.mem_append.mp mem with earlier | later
      · obtain ⟨first, between, rfl⟩ := List.append_of_mem earlier
        have parts : columns = first ++ b :: (between ++ a :: after) := by
          rw [split, List.append_assoc, List.cons_append]
        obtain ⟨x, y, xKeys, yKeys, xFree, yFree, same, differ⟩ := exists_collision floats tableName
          ascending parts right left
        exact differ (injective x y xKeys yKeys xFree yFree same)
      · obtain ⟨between, last, rfl⟩ :=
          List.append_of_mem ((List.mem_cons.mp later).resolve_left apart.symm)
        obtain ⟨x, y, xKeys, yKeys, xFree, yFree, same, differ⟩ := exists_collision floats tableName
          ascending split left right
        exact differ (injective x y xKeys yKeys xFree yFree same)
  · intro short x y xKeys yKeys xFree yFree same
    exact sameValues_of_canonicalText exact print short (xKeys.trans yKeys.symm) xFree yFree same

/-! ### Notes with a title and a body -/

/-- Floats written by their bits. Rust's `Debug` writes decimals; what matters of it here is that
different numbers have different texts in one line. -/
def bitText : FloatText where
  display bits := String.ofList (UuidText.hexDigits 16 bits.toNat)
  debug bits := if isNaN bits then "NaN" else String.ofList (UuidText.hexDigits 16 bits.toNat)

theorem bitText_exact : bitText.Exact := by
  have digit : ∀ d, d < 16 → hexDigit d ≠ '\n' ∧ hexDigit d ≠ 'N' := by decide
  have apart (bits : BitVec 64) : "NaN" ≠ String.ofList (UuidText.hexDigits 16 bits.toNat) := by
    intro same
    have mem : 'N' ∈ (String.ofList (UuidText.hexDigits 16 bits.toNat)).toList := by
      rw [← same]
      decide
    rw [String.toList_ofList] at mem
    obtain ⟨d, small, equal⟩ := UuidText.mem_hexDigits mem
    exact (digit d small).2 equal.symm
  constructor
  · intro bits mem
    unfold bitText at mem
    dsimp only at mem
    split at mem
    · exact absurd mem (by decide)
    · rw [String.toList_ofList] at mem
      obtain ⟨d, small, equal⟩ := UuidText.mem_hexDigits mem
      exact (digit d small).1 equal.symm
  · intro a b same
    unfold bitText at same
    dsimp only at same
    split at same <;> split at same
    next left right => exact .inr ⟨left, right⟩
    next => exact absurd same (apart b)
    next => exact absurd same.symm (apart a)
    next => exact .inl (Keys.hexDigits_injective (String.ofList_injective same))

/-- Line breaks in the body only, and floats by their bits. -/
theorem canonicalText_injective_body :
    ["body"].length ≤ 1 ∧
      ∀ x y : OrderedMap String (BackupValue plain), x.keys = ["body", "title"] →
        y.keys = ["body", "title"] → BreaksOnlyIn ["body"] x → BreaksOnlyIn ["body"] y →
          canonicalText bitText "notes" x = canonicalText bitText "notes" y → SameValues x y :=
  ⟨by decide, (canonicalText_injective_iff plain_exact bitText_exact (by decide) (by decide)
    (by decide) "notes").mpr (by decide)⟩

def note (body title : String) : OrderedMap String (BackupValue plain) where
  entries := [("body", .string body), ("title", .string title)]
  sorted := List.pairwise_pair.mpr (by decide : "body" < "title")

theorem canonicalRowHash_collides :
    (note "" "\ntitle=string:").keys = (note "\ntitle=string:" "").keys ∧
      canonicalText bitText "notes" (note "" "\ntitle=string:") =
        canonicalText bitText "notes" (note "\ntitle=string:" "") ∧
      canonicalRowHash bitText "notes" (note "" "\ntitle=string:") =
        canonicalRowHash bitText "notes" (note "\ntitle=string:" "") ∧
      ¬SameValues (note "" "\ntitle=string:") (note "\ntitle=string:" "") := by
  have texts : canonicalText bitText "notes" (note "" "\ntitle=string:") =
      canonicalText bitText "notes" (note "\ntitle=string:" "") := by decide
  refine ⟨rfl, texts, ?_, fun same => ?_⟩
  · unfold canonicalRowHash
    rw [texts]
  · have equal := same "body" (.string "") (.string "\ntitle=string:") rfl rfl
    exact absurd equal.string_inj (by decide)

end GraphqlOrm.RowBackup
