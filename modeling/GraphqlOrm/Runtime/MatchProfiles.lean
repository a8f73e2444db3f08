import GraphqlOrm.Runtime.RecordMatcher
import GraphqlOrm.Runtime.RelationGrants

/-!
# Offline matching and SQL selection

What the two databases store and compute under the profiles of the matcher, and that a
filter selects a stored row exactly when it matches the record in memory.
-/
namespace GraphqlOrm.Runtime

open Outcome
open Schema (DatabaseBackend)
open Sql

variable {φ : Type}

/-! ### Stored values -/

inductive Stored (φ : Type) where
  | integer (n : Int)
  | real (x : φ)
  | text (s : String)
  | blob (bytes : List UInt8)
  | boolean (b : Bool)
  | uuid (bytes : List UInt8)
  | timestamp (numbers : List Nat)
  | numeric (mantissa : Int) (scale : Nat)

/-- `YYYY-MM-DDTHH:MM:SS.ffffffZ`. -/
def dateTimeLayout : Layout := [(4, '-'), (2, '-'), (2, 'T'), (2, ':'), (2, ':'), (2, '.'), (6, 'Z')]

def uuidText (bytes : List UInt8) : String :=
  Bytes.hexEncode (bytes.take 4) ++ "-" ++ Bytes.hexEncode ((bytes.drop 4).take 2) ++ "-" ++
    Bytes.hexEncode ((bytes.drop 6).take 2) ++ "-" ++ Bytes.hexEncode ((bytes.drop 8).take 2) ++
      "-" ++ Bytes.hexEncode (bytes.drop 10)

/-- A value as the database holds it under a profile; a null is no value. -/
def RuntimeMatchProfile.store (profile : RuntimeMatchProfile) : RuntimeValue φ → Option (Stored φ)
  | .null => none
  | .integer n => some (.integer n)
  | .float x => some (.real x)
  | .string s => some (.text s)
  | .json value => some (.text value.write)
  | .bytes bytes => some (.blob bytes)
  | .boolean b =>
    if profile = .postgresCUtf8 then some (.boolean b) else some (.integer (if b then 1 else 0))
  | .uuid bytes =>
    if profile = .postgresCUtf8 then some (.uuid bytes) else some (.text (uuidText bytes))
  | .dateTime t =>
    if profile = .postgresCUtf8 then some (.timestamp (dateTimeLayout.numbers t.text.toList))
    else some (.text t.text)
  | .decimal d =>
    if profile = .postgresCUtf8 then some (.numeric d.mantissa d.definition.scale)
    else some (.integer d.mantissa)

/-! ### What the databases compute -/

section Engines

variable [LinearOrder φ]

/-- The values of a column are of one class, so only those of a class are compared as such. -/
def compareStored : Stored φ → Stored φ → Ordering
  | .integer m, .integer n => compare m n
  | .real x, .real y => compare x y
  | .text s, .text t => compareText s.toList t.toList
  | .blob a, .blob b => compare a b
  | .boolean a, .boolean b => compare a b
  | .uuid a, .uuid b => compare a b
  | .timestamp a, .timestamp b => List.compareLex compare a b
  | .numeric m s, .numeric n t => compare (m * 10 ^ t) (n * 10 ^ s)
  | x, y => compare x.ctorIdx y.ctorIdx

/-- `length` and `substr` stop before a NUL. -/
def visibleText (s : String) : List Char := s.toList.takeWhile (· ≠ '\x00')

def sqliteEngine : Engine (SqlValue φ) (Stored φ) where
  parameter _ value :=
    match value with
    | .bool b => .integer (if b then 1 else 0)
    | .int n => .integer n
    | .float x => .real x
    | .string s => .text s
    | .uuid bytes => .text (uuidText bytes)
    | .json value => .text value.write
    | .bytes bytes => .blob bytes
    | .decimal d => .integer d.mantissa
  integer n := .integer n
  compare _ := compareStored
  unary f x :=
    match f, x with
    | .length, .text s => some (.integer (visibleText s).length)
    | _, _ => none
  binary f x y :=
    match f, x, y with
    | .instr, .text s, .text t => some (.integer (position t.toList s.toList))
    | .substr, .text s, .integer n => some (.text (.ofList (substrFrom (visibleText s) n)))
    | _, _, _ => none
  add x y :=
    match x, y with
    | .integer m, .integer n => some (.integer (m + n))
    | _, _ => none
  sub x y :=
    match x, y with
    | .integer m, .integer n => some (.integer (m - n))
    | _, _ => none

def postgresEngine : Engine (SqlValue φ) (Stored φ) where
  parameter cast value :=
    match value with
    | .bool b => .boolean b
    | .int n => .integer n
    | .float x => .real x
    | .string s =>
      if cast = some "timestamptz" then .timestamp (dateTimeLayout.numbers s.toList) else .text s
    | .uuid bytes => .uuid bytes
    | .json value => .text value.write
    | .bytes bytes => .blob bytes
    | .decimal d => .numeric d.mantissa d.definition.scale
  integer n := .integer n
  compare _ := compareStored
  unary f x :=
    match f, x with
    | .charLength, .text s => some (.integer s.toList.length)
    | _, _ => none
  binary f x y :=
    match f, x, y with
    | .strpos, .text s, .text t => some (.integer (position t.toList s.toList))
    | .left, .text s, .integer n => some (.text (.ofList (leftmost s.toList n)))
    | .right, .text s, .integer n => some (.text (.ofList (rightmost s.toList n)))
    | _, _, _ => none
  add _ _ := none
  sub _ _ := none

def RuntimeMatchProfile.backend : RuntimeMatchProfile → DatabaseBackend
  | sqliteBinaryCanonical => .sqlite
  | postgresCUtf8 => .postgres
  | mssqlUnsupported => .mssql

def RuntimeMatchProfile.engine : RuntimeMatchProfile → Engine (SqlValue φ) (Stored φ)
  | postgresCUtf8 => postgresEngine
  | _ => sqliteEngine

end Engines

/-! ### Texts -/

theorem hexDigits_ne_dash (bytes : List UInt8) : ∀ c ∈ bytes.flatMap Bytes.hexByte, c ≠ '-' := by
  have digit : ∀ n < 16, Text.hexDigit n ≠ '-' := by decide
  intro c mem
  obtain ⟨b, _, among⟩ := List.mem_flatMap.mp mem
  have small := b.toNat_lt
  rcases List.mem_cons.mp among with rfl | among
  · exact digit _ (by omega)
  · obtain rfl := List.mem_singleton.mp among
    exact digit _ (by omega)

theorem uuidText_digits (bytes : List UInt8) :
    (uuidText bytes).toList.filter (· ≠ '-') = (Bytes.hexEncode bytes).toList := by
  have kept (part : List UInt8) :
      (Bytes.hexEncode part).toList.filter (· ≠ '-') = part.flatMap Bytes.hexByte := by
    rw [Bytes.hexEncode, String.toList_ofList, List.filter_eq_self]
    exact fun c mem => decide_eq_true (hexDigits_ne_dash part c mem)
  have whole : bytes.take 4 ++ (bytes.drop 4).take 2 ++ (bytes.drop 6).take 2 ++
      (bytes.drop 8).take 2 ++ bytes.drop 10 = bytes := by
    rw [← List.take_add, ← List.take_add, ← List.take_add, List.take_append_drop]
  have dash : "-".toList.filter (· ≠ '-') = [] := rfl
  simp only [uuidText, String.toList_append, List.filter_append, kept, dash, List.append_nil]
  rw [← List.flatMap_append, ← List.flatMap_append, ← List.flatMap_append, ← List.flatMap_append,
    whole, Bytes.hexEncode, String.toList_ofList]

theorem uuidText_injective {a b : List UInt8} (same : uuidText a = uuidText b) : a = b := by
  -- Without the separators both texts are the digits of all bytes.
  have texts := congrArg (fun s : String => s.toList.filter (· ≠ '-')) same
  have digits := (uuidText_digits a).symm.trans (texts.trans (uuidText_digits b))
  have decoded := congrArg Bytes.hexDecode (String.toList_inj.mp digits)
  rw [Bytes.hexDecode_hexEncode, Bytes.hexDecode_hexEncode] at decoded
  exact Option.some.inj decoded

theorem compareText_eq_eq {s t : String} : compareText s.toList t.toList = .eq ↔ s = t := by
  constructor
  · intro same
    have bytes : Bytes.utf8 s = Bytes.utf8 t := Std.LawfulEqCmp.eq_of_compare same
    have decoded := congrArg Bytes.fromUtf8 bytes
    rw [Bytes.fromUtf8_utf8, Bytes.fromUtf8_utf8] at decoded
    exact Option.some.inj decoded
  · rintro rfl
    rw [compareText]
    exact Std.ReflCmp.compare_self

theorem dateTimeLayout_fits {t : RuntimeDateTime} (comparable : comparableDateTime t = true) :
    dateTimeLayout.Fits t.text.toList := by
  simp only [comparableDateTime, Bool.and_eq_true, decide_eq_true_eq] at comparable
  have plain := t.canonical comparable.1.1
  simp only [isPlainDateTime, Bool.and_eq_true, List.all_cons, List.all_nil, beq_iff_eq, and_true,
    twoDigits] at plain
  generalize t.text.toList = cs at plain
  obtain ⟨⟨_, y0, y2, month, day, hour, minute, second, f0, f2, f4⟩, s4, s7, s10, s13, s16, s19, s26⟩ :=
    plain
  have year : ((cs.drop 0).take 4).all Char.isDigit = true := by
    rw [show 4 = 2 + 2 from rfl, List.take_add, List.all_append, List.drop_drop, y0.2, y2.2]
    rfl
  have fraction : ((cs.drop 20).take 6).all Char.isDigit = true := by
    rw [show 6 = 2 + (2 + 2) from rfl, List.take_add, List.take_add, List.all_append, List.all_append,
      List.drop_drop, List.drop_drop, f0.2, f2.2, f4.2]
    rfl
  have ends : Layout.Fits [] (cs.drop 27) := by
    rw [List.drop_eq_nil_of_le (by omega)]
    rfl
  exact Layout.fits_drop year s4 <| Layout.fits_drop month.2 s7 <| Layout.fits_drop day.2 s10 <|
    Layout.fits_drop hour.2 s13 <| Layout.fits_drop minute.2 s16 <| Layout.fits_drop second.2 s19 <|
    Layout.fits_drop fraction s26 ends

theorem visibleText_eq {s : String} (plain : s.toList.any isControl = false) :
    visibleText s = s.toList := by
  refine List.takeWhile_eq_self_iff.mpr fun c mem => ?_
  have visible := List.any_eq_false.mp plain c mem
  rw [decide_eq_true_eq]
  rintro rfl
  exact visible (by decide)

variable {profile : RuntimeMatchProfile}

/-! ### Storage -/

theorem parameter_store [LinearOrder φ] (supported : profile ≠ .mssqlUnsupported)
    {field : RuntimeFieldHandle} {value : RuntimeValue φ} (fits : Fits field value)
    {bind : SqlValue φ} (bound : valueBind value = some bind) :
    profile.store value =
      some (profile.engine.parameter (parameterCast profile.backend field.valueKind) bind) := by
  cases profile with
  | mssqlUnsupported => exact absurd rfl supported
  | sqliteBinaryCanonical => cases value <;> cases bound <;> rfl
  | postgresCUtf8 =>
    cases value with
    | null => cases bound
    | string s =>
      cases bound
      have kind : field.valueKind = .string := (Option.some.inj fits).symm
      rw [kind]
      rfl
    | dateTime t =>
      cases bound
      have kind : field.valueKind = .dateTime := (Option.some.inj fits).symm
      rw [kind]
      rfl
    | _ =>
      cases bound
      rfl


section Comparisons

variable [LinearOrder φ]

theorem compare_scaled (a b : Int) (scale : Nat) :
    compare (a * 10 ^ scale) (b * 10 ^ scale) = compare a b := by
  have positive : (0 : Int) < 10 ^ scale := by positivity
  rcases lt_trichotomy a b with less | rfl | more
  · rw [compare_lt_iff_lt.mpr less, compare_lt_iff_lt]
    exact Int.mul_lt_mul_of_pos_right less positive
  · rw [compare_eq_iff_eq.mpr rfl, compare_eq_iff_eq.mpr rfl]
  · rw [compare_gt_iff_gt.mpr more, compare_gt_iff_gt]
    exact Int.mul_lt_mul_of_pos_right more positive

/-- Stored values are equal when the values are, and ranges are ordered like the values. -/
theorem compareValues_store (supported : profile ≠ .mssqlUnsupported)
    {a b : RuntimeValue φ} {kind : RuntimeValueKind} (left : a.kind = some kind)
    (right : b.kind = some kind) (validLeft : validValue a = .ok ())
    (validRight : validValue b = .ok ()) :
    ∃ o x y, compareValues a b = .ok o ∧ profile.store a = some x ∧ profile.store b = some y ∧
      (rangeKind kind = true → compareStored x y = o) ∧ (compareStored x y = .eq ↔ o = .eq) := by
  -- Where the stored values are compared as the values are, nothing is left to show.
  have direct {o : Ordering} {x y : Stored φ} (compared : compareValues a b = .ok o)
      (first : profile.store a = some x) (second : profile.store b = some y)
      (alike : compareStored x y = o) :
      ∃ o x y, compareValues a b = .ok o ∧ profile.store a = some x ∧ profile.store b = some y ∧
        (rangeKind kind = true → compareStored x y = o) ∧ (compareStored x y = .eq ↔ o = .eq) :=
    ⟨o, x, y, compared, first, second, fun _ => alike, by rw [alike]⟩
  cases a with
  | null => cases left
  | json a => cases validLeft
  | integer a =>
    cases left
    cases b with
    | integer b => exact direct rfl rfl rfl rfl
    | _ => cases right
  | float a =>
    cases left
    cases b with
    | float b => exact direct rfl rfl rfl rfl
    | _ => cases right
  | string a =>
    cases left
    cases b with
    | string b => exact direct rfl rfl rfl rfl
    | _ => cases right
  | bytes a =>
    cases left
    cases b with
    | bytes b => exact direct rfl rfl rfl rfl
    | _ => cases right
  | boolean a =>
    cases left
    cases b with
    | boolean b =>
      cases profile with
      | mssqlUnsupported => exact absurd rfl supported
      | sqliteBinaryCanonical => exact direct rfl rfl rfl (by cases a <;> cases b <;> rfl)
      | postgresCUtf8 => exact direct rfl rfl rfl rfl
    | _ => cases right
  | uuid a =>
    cases left
    cases b with
    | uuid b =>
      cases profile with
      | mssqlUnsupported => exact absurd rfl supported
      | sqliteBinaryCanonical =>
        refine ⟨_, _, _, rfl, rfl, rfl, nofun, ?_⟩
        rw [compareStored, compareText_eq_eq]
        constructor
        · intro same
          rw [uuidText_injective same]
          exact Std.ReflCmp.compare_self
        · intro same
          rw [Std.LawfulEqCmp.eq_of_compare same]
      | postgresCUtf8 => exact direct rfl rfl rfl rfl
    | _ => cases right
  | dateTime a =>
    cases left
    cases b with
    | dateTime b =>
      cases profile with
      | mssqlUnsupported => exact absurd rfl supported
      | sqliteBinaryCanonical => exact direct rfl rfl rfl rfl
      | postgresCUtf8 =>
        exact direct rfl rfl rfl (Layout.compare_numbers
          (dateTimeLayout_fits (require_eq_ok.mp validLeft))
          (dateTimeLayout_fits (require_eq_ok.mp validRight)))
    | _ => cases right
  | decimal a =>
    cases b with
    | decimal b =>
      have scale : b.definition.scale = a.definition.scale := by
        rw [← left] at right
        exact congrArg DecimalDef.scale (RuntimeValueKind.decimal.inj (Option.some.inj right))
      cases profile with
      | mssqlUnsupported => exact absurd rfl supported
      | sqliteBinaryCanonical =>
        refine direct rfl rfl rfl ?_
        rw [compareStored, scale, compare_scaled]
      | postgresCUtf8 => exact direct rfl rfl rfl rfl
    | _ =>
      rw [← left] at right
      cases right

end Comparisons

/-! ### Operators -/

variable {op : RuntimeScalarOperator} {r : Relational}

section Operators

variable [LinearOrder φ] {field : RuntimeFieldHandle} {actual operand : RuntimeValue φ}
  {row : Row (Stored φ)}

/-- A value that the matcher accepts for a field. -/
structure Acceptable (field : RuntimeFieldHandle) (value : RuntimeValue φ) : Prop where
  kind : value.kind.all (· = field.valueKind) = true
  valid : validValue value = .ok ()

theorem engine_compares (supported : profile ≠ .mssqlUnsupported) (r : Relational)
    (collation : Option String) (x y : Stored φ) :
    profile.engine.compares r collation (some x) (some y) =
      Truth.ofBool (r.holds (compareStored x y)) := by
  cases profile with
  | mssqlUnsupported => exact absurd rfl supported
  | sqliteBinaryCanonical => rfl
  | postgresCUtf8 => rfl

def relationalOf : RuntimeScalarOperator → Option Relational
  | .eq => some .eq
  | .ne => some .ne
  | .lt => some .lt
  | .lte => some .le
  | .gt => some .gt
  | .gte => some .ge
  | .contains | .startsWith | .endsWith => none

theorem evalOperator_compares (compares : relationalOf op = some r) :
    evalOperator op actual operand = (compareValues actual operand).map r.holds := by
  cases op <;> cases compares <;> rfl

theorem scalarTruth_compares (compares : relationalOf op = some r) (x : Option (Stored φ))
    (bind : SqlValue φ) :
    scalarTruth profile.backend profile.engine field.valueKind op x bind =
      profile.engine.compares r (byteCollation profile.backend field.valueKind) x
        (some (profile.engine.parameter (parameterCast profile.backend field.valueKind) bind)) := by
  cases op <;> cases compares <;> rfl

/-- Only the order of ranges matters to an inequality. -/
theorem holds_compareStored {o o' : Ordering} {kind : RuntimeValueKind}
    (compares : relationalOf op = some r) (applies : compareSupported kind op = true)
    (ordered : rangeKind kind = true → o' = o) (equal : o' = .eq ↔ o = .eq) :
    r.holds o' = r.holds o := by
  cases op with
  | eq =>
    cases compares
    rw [Relational.holds, Relational.holds, Bool.eq_iff_iff, beq_iff_eq, beq_iff_eq, equal]
  | ne =>
    cases compares
    rw [Relational.holds, Relational.holds, Bool.eq_iff_iff, bne_iff_ne, bne_iff_ne, ne_eq, ne_eq, equal]
  | lt | lte | gt | gte => rw [ordered applies]
  | contains | startsWith | endsWith => cases compares

/-- A null operand of the database leaves every operator unknown. -/
theorem scalarTruth_none (op : RuntimeScalarOperator) (bind : SqlValue φ) :
    scalarTruth profile.backend profile.engine field.valueKind op (none : Option (Stored φ)) bind =
      .unknown := by
  cases op with
  | eq | ne | lt | lte | gt | gte => rfl
  | contains | startsWith | endsWith =>
    rw [scalarTruth]
    split <;> rfl

theorem holds_gt_zero (n : Nat) : Relational.gt.holds (compare (n : Int) 0) = decide (0 < n) := by
  rw [Relational.holds, Bool.eq_iff_iff, beq_iff_eq, compare_gt_iff_gt, decide_eq_true_iff]
  omega

theorem holds_eq_one (n : Nat) : Relational.eq.holds (compare (n : Int) 1) = decide (n = 1) := by
  rw [Relational.holds, Bool.eq_iff_iff, beq_iff_eq, compare_eq_iff_eq, decide_eq_true_iff]
  omega

theorem holds_text (cs : List Char) (t : String) :
    Relational.eq.holds (compareText (String.ofList cs).toList t.toList) =
      decide (cs = t.toList) := by
  rw [Relational.holds, Bool.eq_iff_iff, beq_iff_eq, compareText_eq_eq, decide_eq_true_iff,
    ← String.toList_inj, String.toList_ofList]

theorem sqlite_text (a b : String) : scalarTruth .sqlite sqliteEngine .string .contains
        (some (.text a)) (.string b : SqlValue φ) = Truth.ofBool (decide (b.toList <:+: a.toList)) ∧
      scalarTruth .sqlite sqliteEngine .string .startsWith (some (.text a)) (.string b : SqlValue φ) =
        Truth.ofBool (decide (b.toList <+: a.toList)) ∧
      (a.toList.any isControl = false → b.toList.any isControl = false →
        scalarTruth .sqlite sqliteEngine .string .endsWith (some (.text a)) (.string b : SqlValue φ) =
          Truth.ofBool (decide (b.toList <:+ a.toList))) := by
  have bound (cast : Option String) :
      (sqliteEngine : Engine (SqlValue φ) (Stored φ)).parameter cast (.string b) = .text b := rfl
  have compares (r : Relational) (x y : Stored φ) :
      sqliteEngine.compares r none (some x) (some y) = Truth.ofBool (r.holds (compareStored x y)) := rfl
  have found : (sqliteEngine : Engine (SqlValue φ) (Stored φ)).binary .instr (.text a) (.text b) =
      some (.integer (position b.toList a.toList)) := rfl
  have number (n : Int) : (sqliteEngine : Engine (SqlValue φ) (Stored φ)).integer n = .integer n := rfl
  have other : ¬DatabaseBackend.sqlite = .postgres := by decide
  refine ⟨?_, ?_, fun plainLeft plainRight => ?_⟩
  · rw [scalarTruth, if_neg other, Option.bind_some, bound, found, number]
    refine (compares .gt _ _).trans ?_
    rw [compareStored, holds_gt_zero, decide_eq_decide.mpr position_pos]
  · rw [scalarTruth, if_neg other, Option.bind_some, bound, found, number]
    refine (compares .eq _ _).trans ?_
    rw [compareStored, holds_eq_one, decide_eq_decide.mpr position_eq_one]
  · have length (s : String) : (sqliteEngine : Engine (SqlValue φ) (Stored φ)).unary .length (.text s) =
        some (.integer (visibleText s).length) := rfl
    have less (m n : Int) : (sqliteEngine : Engine (SqlValue φ) (Stored φ)).sub (.integer m)
        (.integer n) = some (.integer (m - n)) := rfl
    have more (m n : Int) : (sqliteEngine : Engine (SqlValue φ) (Stored φ)).add (.integer m)
        (.integer n) = some (.integer (m + n)) := rfl
    have cut (n : Int) : (sqliteEngine : Engine (SqlValue φ) (Stored φ)).binary .substr (.text a)
        (.integer n) = some (.text (.ofList (substrFrom (visibleText a) n))) := rfl
    rw [scalarTruth, if_neg other, Option.bind_some, bound, length, length, Option.bind_some,
      Option.bind_some, less, Option.bind_some, number, more, Option.bind_some, cut]
    refine (compares .eq _ _).trans ?_
    rw [compareStored, visibleText_eq plainLeft, visibleText_eq plainRight, holds_text,
      decide_eq_decide.mpr substrFrom_eq]

theorem postgres_text (a b : String) : scalarTruth .postgres postgresEngine .string .contains
        (some (.text a)) (.string b : SqlValue φ) = Truth.ofBool (decide (b.toList <:+: a.toList)) ∧
      scalarTruth .postgres postgresEngine .string .startsWith (some (.text a))
        (.string b : SqlValue φ) = Truth.ofBool (decide (b.toList <+: a.toList)) ∧
      scalarTruth .postgres postgresEngine .string .endsWith (some (.text a))
        (.string b : SqlValue φ) = Truth.ofBool (decide (b.toList <:+ a.toList)) := by
  have bound : (postgresEngine : Engine (SqlValue φ) (Stored φ)).parameter
      (parameterCast .postgres .string) (.string b) = .text b := rfl
  have compares (r : Relational) (x y : Stored φ) :
      postgresEngine.compares r none (some x) (some y) = Truth.ofBool (r.holds (compareStored x y)) := rfl
  have found : (postgresEngine : Engine (SqlValue φ) (Stored φ)).binary .strpos (.text a) (.text b) =
      some (.integer (position b.toList a.toList)) := rfl
  have number (n : Int) : (postgresEngine : Engine (SqlValue φ) (Stored φ)).integer n = .integer n := rfl
  have length : (postgresEngine : Engine (SqlValue φ) (Stored φ)).unary .charLength (.text b) =
      some (.integer b.toList.length) := rfl
  have start (n : Int) : (postgresEngine : Engine (SqlValue φ) (Stored φ)).binary .left (.text a)
      (.integer n) = some (.text (.ofList (leftmost a.toList n))) := rfl
  have finish (n : Int) : (postgresEngine : Engine (SqlValue φ) (Stored φ)).binary .right (.text a)
      (.integer n) = some (.text (.ofList (rightmost a.toList n))) := rfl
  refine ⟨?_, ?_, ?_⟩
  · rw [scalarTruth, if_pos rfl, Option.bind_some, bound, found, number]
    refine (compares .gt _ _).trans ?_
    rw [compareStored, holds_gt_zero, decide_eq_decide.mpr position_pos]
  · rw [scalarTruth, if_pos rfl, Option.bind_some, bound, length, Option.bind_some, start]
    refine (compares .eq _ _).trans ?_
    rw [compareStored, holds_text, decide_eq_decide.mpr leftmost_eq]
  · rw [scalarTruth, if_pos rfl, Option.bind_some, bound, length, Option.bind_some, finish]
    refine (compares .eq _ _).trans ?_
    rw [compareStored, holds_text, decide_eq_decide.mpr rightmost_eq]

def textTest : RuntimeScalarOperator → List Char → List Char → Bool
  | .startsWith, a, b => b <+: a
  | .endsWith, a, b => b <:+ a
  | _, a, b => b <:+: a

theorem evalOperator_text (text : relationalOf op = none) (a b : String) :
    evalOperator op (.string a : RuntimeValue φ) (.string b) = .ok (textTest op a.toList b.toList) := by
  cases op with
  | contains | startsWith | endsWith => rfl
  | _ => cases text

theorem scalarTruth_text (supported : profile ≠ .mssqlUnsupported) (text : relationalOf op = none)
    {a b : String} (plainLeft : a.toList.any isControl = false)
    (plainRight : b.toList.any isControl = false) :
    scalarTruth profile.backend profile.engine .string op (some (.text a)) (.string b : SqlValue φ) =
      Truth.ofBool (textTest op a.toList b.toList) := by
  cases profile with
  | mssqlUnsupported => exact absurd rfl supported
  | sqliteBinaryCanonical =>
    obtain ⟨contains, startsWith, endsWith⟩ := @sqlite_text φ _ a b
    cases op with
    | contains => exact contains
    | startsWith => exact startsWith
    | endsWith => exact endsWith plainLeft plainRight
    | _ => cases text
  | postgresCUtf8 =>
    obtain ⟨contains, startsWith, endsWith⟩ := @postgres_text φ _ a b
    cases op with
    | contains => exact contains
    | startsWith => exact startsWith
    | endsWith => exact endsWith
    | _ => cases text

omit [LinearOrder φ] in
theorem plain_of_valid {s : String} (valid : validValue (.string s : RuntimeValue φ) = .ok ()) :
    s.toList.any isControl = false := by
  have plain := require_eq_ok.mp valid
  rwa [Bool.not_eq_true'] at plain

/-- On a value, the condition of an operator answers as the matcher does. -/
theorem operandTruth_store (supported : profile ≠ .mssqlUnsupported)
    (applies : compareSupported field.valueKind op = true) (accepted : Acceptable field actual)
    (loaded : actual ≠ .null) (fits : Fits field operand) (valid : validValue operand = .ok ())
    (held : row field.physicalColumn = profile.store actual) :
    ∃ answer, evalOperator op actual operand = .ok answer ∧
      operandTruth profile.backend profile.engine field op row operand = Truth.ofBool answer := by
  have kind : actual.kind = some field.valueKind := by
    cases known : actual.kind with
    | none => exact absurd (RuntimeValue.kind_eq_none.mp known) loaded
    | some kind =>
      have same := accepted.kind
      rw [known, Option.all_some, decide_eq_true_eq] at same
      rw [same]
  obtain ⟨bind, bound⟩ := valueBind_isSome fits
  have stored := parameter_store supported fits bound
  rw [operandTruth, bound, Option.elim_some, held]
  cases compares : relationalOf op with
  | some r =>
    obtain ⟨o, x, y, compared, first, second, ordered, equal⟩ :=
      compareValues_store supported kind fits accepted.valid valid
    rw [stored] at second
    obtain rfl := Option.some.inj second
    refine ⟨r.holds o, by rw [evalOperator_compares compares, compared]; rfl, ?_⟩
    rw [scalarTruth_compares compares, first, engine_compares supported,
      holds_compareStored compares applies ordered equal]
  | none =>
    have text : field.valueKind = .string := by
      cases op with
      | contains | startsWith | endsWith => exact of_decide_eq_true applies
      | _ => cases compares
    rw [Fits] at fits
    rw [text] at kind fits
    cases actual with
    | string a =>
      cases operand with
      | string b =>
        cases bound
        refine ⟨textTest op a.toList b.toList, evalOperator_text compares a b, ?_⟩
        rw [text]
        exact scalarTruth_text supported compares (plain_of_valid accepted.valid)
          (plain_of_valid valid)
      | _ => cases fits
    | _ => cases kind

end Operators

/-! ### Trees -/

/-- The matcher's answers as SQL truth values. -/
def truthOf : Option Bool → Truth
  | none => .unknown
  | some b => .ofBool b

theorem truthOf_andStep (a b : Option Bool) : truthOf (andStep a b) = (truthOf a).and (truthOf b) := by
  rcases a with _ | _ | _ <;> rcases b with _ | _ | _ <;> rfl

theorem truthOf_orStep (a b : Option Bool) : truthOf (orStep a b) = (truthOf a).or (truthOf b) := by
  rcases a with _ | _ | _ <;> rcases b with _ | _ | _ <;> rfl

theorem foldl_and (t : Truth) (ts : List Truth) : ts.foldl Truth.and t = t.and (Truth.all ts) := by
  induction ts generalizing t with
  | nil => exact (Truth.and_holds t).symm
  | cons u ts ih => rw [List.foldl_cons, ih, Truth.and_assoc, Truth.all_cons]

theorem foldl_or (t : Truth) (ts : List Truth) : ts.foldl Truth.or t = t.or (Truth.any ts) := by
  induction ts generalizing t with
  | nil => exact (Truth.or_fails t).symm
  | cons u ts ih => rw [List.foldl_cons, ih, Truth.or_assoc, Truth.any_cons]

theorem store_eq_none {value : RuntimeValue φ} : profile.store value = none ↔ value = .null := by
  cases profile <;> cases value <;> simp [RuntimeMatchProfile.store]

section Trees

variable [LinearOrder φ] {record : RuntimeRecord φ} {row : Row (Stored φ)} {field : RuntimeFieldHandle}
  {actual : RuntimeValue φ}

/-- The record's value of the field is accepted, and the row holds it. -/
structure Held (profile : RuntimeMatchProfile) (record : RuntimeRecord φ) (row : Row (Stored φ))
    (field : RuntimeFieldHandle) (value : RuntimeValue φ) : Prop where
  loaded : recordValue record field = .ok value
  accepted : Acceptable field value
  held : row field.physicalColumn = profile.store value

omit [LinearOrder φ] in
theorem Held.none (stored : Held profile record row field .null) : row field.physicalColumn = none :=
  stored.held.trans (store_eq_none.mpr rfl)

theorem operandTruth_none {operand : RuntimeValue φ} (empty : row field.physicalColumn = none) :
    operandTruth profile.backend profile.engine field op row operand = .unknown := by
  rw [operandTruth, empty]
  cases valueBind operand with
  | none => rfl
  | some bind => exact scalarTruth_none op bind

omit [LinearOrder φ] in
theorem evalValue_of_loaded {test : RuntimeValue φ → Except RuntimeFilterError Bool}
    (loaded : actual ≠ .null) : evalValue actual test = (test actual).map some := by
  cases actual with
  | null => exact absurd rfl loaded
  | _ => rfl

theorem any_unknown {α : Type} {f : α → Truth} {xs : List α} (filled : xs ≠ [])
    (unknown : ∀ x ∈ xs, f x = .unknown) : Truth.any (xs.map f) = .unknown := by
  induction xs with
  | nil => exact absurd rfl filled
  | cons x xs ih =>
    rw [List.map_cons, Truth.any_cons, unknown x (.head _)]
    cases xs with
    | nil => rfl
    | cons y ys => rw [ih (by simp) fun z mem => unknown z (.tail _ mem)]; rfl

section

variable (supported : profile ≠ .mssqlUnsupported) (stored : Held profile record row field actual)
    (loaded : actual ≠ .null)
include supported stored loaded

/-- A comparing operator answers by the order of the two values. -/
theorem operandTruth_ordering (op : RuntimeScalarOperator) (operator : relationalOf op = some r)
    (applies : compareSupported field.valueKind op = true) {operand : RuntimeValue φ}
    (fits : Fits field operand) (valid : validValue operand = .ok ()) :
    ∃ o, compareValues actual operand = .ok o ∧
      operandTruth profile.backend profile.engine field op row operand = Truth.ofBool (r.holds o) := by
  obtain ⟨answer, compared, means⟩ :=
    operandTruth_store supported applies stored.accepted loaded fits valid stored.held
  rw [evalOperator_compares operator] at compared
  cases known : compareValues actual operand with
  | error e =>
    rw [known] at compared
    cases compared
  | ok o =>
    rw [known] at compared
    exact ⟨o, rfl, by rw [means, ← Except.ok.inj compared]⟩

/-- The loop over a list's operands. -/
theorem evalFound_store (scalar : field.valueKind ≠ .json) {values : List (RuntimeValue φ)}
    (fits : ∀ value ∈ values, Fits field value) (valid : ∀ value ∈ values, validValue value = .ok ())
    (found : Bool) :
    ∃ answer, evalFound actual found values = .ok answer ∧
      (Truth.ofBool found).or (Truth.any (values.map
        (operandTruth profile.backend profile.engine field .eq row))) = Truth.ofBool answer := by
  induction values generalizing found with
  | nil => exact ⟨found, rfl, Truth.or_fails _⟩
  | cons value rest ih =>
    obtain ⟨o, compared, means⟩ := operandTruth_ordering supported stored loaded .eq rfl
      (decide_eq_true scalar) (fits value (.head _)) (valid value (.head _))
    obtain ⟨answer, evaluated, rest⟩ := ih (fun v mem => fits v (.tail _ mem))
      (fun v mem => valid v (.tail _ mem)) (found || o == .eq)
    refine ⟨answer, bind_eq_ok.mpr ⟨o, compared, evaluated⟩, ?_⟩
    rw [List.map_cons, Truth.any_cons, means, ← Truth.or_assoc, ← rest]
    refine congrArg (fun t => Truth.or t _) ?_
    cases found <;> cases o <;> rfl

theorem evalBetween_store (ranged : rangeKind field.valueKind = true) {low high : RuntimeValue φ} (lowFits : Fits field low)
    (highFits : Fits field high) (lowValid : validValue low = .ok ())
    (highValid : validValue high = .ok ()) :
    ∃ answer, evalBetween actual low high = .ok answer ∧
      (operandTruth profile.backend profile.engine field .gte row low).and
        (operandTruth profile.backend profile.engine field .lte row high) = Truth.ofBool answer := by
  obtain ⟨o, first, above⟩ :=
    operandTruth_ordering supported stored loaded .gte rfl ranged lowFits lowValid
  obtain ⟨p, second, below⟩ :=
    operandTruth_ordering supported stored loaded .lte rfl ranged highFits highValid
  rw [above, below]
  -- The upper bound is looked at only when the lower one holds.
  by_cases less : o = .lt
  · refine ⟨false, bind_eq_ok.mpr ⟨o, first, by rw [if_neg (by simp [less])]; rfl⟩, ?_⟩
    rw [less]
    rfl
  · refine ⟨p ≠ .gt, bind_eq_ok.mpr ⟨o, first, by rw [if_pos less, second]; rfl⟩, ?_⟩
    cases o with
    | lt => exact absurd rfl less
    | eq | gt => cases p <;> rfl

end

omit [LinearOrder φ] in
theorem validateExprs_ok {children : List (PredicateExpr φ)} (valid : validateExprs children = .ok ()) :
    ∀ child ∈ children, validateExpr child = .ok () := by
  induction children with
  | nil => exact fun _ mem => absurd mem List.not_mem_nil
  | cons child rest ih =>
    obtain ⟨_, here, later⟩ := bind_eq_ok.mp valid
    intro other mem
    rcases List.mem_cons.mp mem with rfl | behind
    · exact here
    · exact ih later other behind

/-- A loop over parts that agree gives the combination of their answers. -/
theorem evalEach_store {tables : Tables (Stored φ)} {step : Option Bool → Option Bool → Option Bool}
    {op : Truth → Truth → Truth} (hom : ∀ a b, truthOf (step a b) = op (truthOf a) (truthOf b))
    {children : List (PredicateExpr φ)}
    (each : ∀ child ∈ children, ∃ answer, eval record child = .ok answer ∧
      evaluate profile.backend profile.engine tables child row = truthOf answer) (result : Option Bool) :
    ∃ answer, evalEach record step result children = .ok answer ∧
      (evaluateAll profile.backend profile.engine tables children row).foldl op (truthOf result) =
        truthOf answer := by
  induction children generalizing result with
  | nil => exact ⟨result, rfl, rfl⟩
  | cons child rest ih =>
    obtain ⟨here, evaluated, means⟩ := each child (.head _)
    obtain ⟨answer, others, combined⟩ := ih (fun c mem => each c (.tail _ mem))
      (step result here)
    refine ⟨answer, bind_eq_ok.mpr ⟨here, evaluated, others⟩, ?_⟩
    rw [evaluateAll, List.foldl_cons, means, ← hom, combined]

/-- The evaluation in memory and the meaning of the condition agree on every tree without
relation nodes, by induction on the tree. -/
theorem evaluate_store {schema : RuntimeSchema} {collection : RuntimeCollection}
    {tables : Tables (Stored φ)} (supported : profile ≠ .mssqlUnsupported) {expr : PredicateExpr φ}
    (proper : Proper schema collection expr) (valid : validateExpr expr = .ok ())
    (stored : ∀ field ∈ expr.fields, ∃ value, Held profile record row field value) :
    ∃ answer, eval record expr = .ok answer ∧
      evaluate profile.backend profile.engine tables expr row = truthOf answer := by
  induction proper with
  | @constant _ value => exact ⟨some value, rfl, rfl⟩
  | @isNull _ field isNull own =>
    obtain ⟨value, here⟩ := stored field (List.mem_singleton.mpr rfl)
    refine ⟨_, bind_eq_ok.mpr ⟨value, here.loaded, rfl⟩, ?_⟩
    rw [evaluate, here.held]
    cases value <;> cases profile <;> rfl
  | @compare _ field op operand own fits applies =>
    obtain ⟨value, here⟩ := stored field (List.mem_singleton.mpr rfl)
    by_cases null : value = .null
    · subst null
      exact ⟨none, bind_eq_ok.mpr ⟨.null, here.loaded, rfl⟩, operandTruth_none here.none⟩
    · obtain ⟨answer, evaluated, means⟩ :=
        operandTruth_store supported applies here.accepted null fits valid here.held
      exact ⟨some answer, bind_eq_ok.mpr ⟨value, here.loaded,
        (evalValue_of_loaded null).trans (by rw [evaluated]; rfl)⟩, means⟩
  | @list _ field op values own filled fits scalar =>
    obtain ⟨value, here⟩ := stored field (List.mem_singleton.mpr rfl)
    by_cases null : value = .null
    · subst null
      have unknown : Truth.any (values.map
          (operandTruth profile.backend profile.engine field .eq row)) = .unknown :=
        any_unknown filled fun operand _ => operandTruth_none here.none
      refine ⟨none, bind_eq_ok.mpr ⟨.null, here.loaded, rfl⟩, ?_⟩
      rw [evaluate, unknown]
      cases op <;> rfl
    · obtain ⟨answer, evaluated, means⟩ :=
        evalFound_store supported here null scalar fits (forM_each valid) false
      refine ⟨some (answer == (op = .in : Bool)), bind_eq_ok.mpr ⟨value, here.loaded,
        (evalValue_of_loaded null).trans (by rw [evaluated]; rfl)⟩, ?_⟩
      rw [Truth.ofBool, if_neg (by decide), Truth.fails_or] at means
      rw [evaluate, means]
      cases op <;> cases answer <;> rfl
  | @between _ field low high own lowFits highFits ranged =>
    obtain ⟨value, here⟩ := stored field (List.mem_singleton.mpr rfl)
    obtain ⟨_, lowValid, highValid⟩ := bind_eq_ok.mp valid
    by_cases null : value = .null
    · subst null
      refine ⟨none, bind_eq_ok.mpr ⟨.null, here.loaded, rfl⟩, ?_⟩
      rw [evaluate, operandTruth_none here.none, operandTruth_none here.none]
      rfl
    · obtain ⟨answer, evaluated, means⟩ :=
        evalBetween_store supported here null ranged lowFits highFits lowValid highValid
      exact ⟨some answer, bind_eq_ok.mpr ⟨value, here.loaded,
        (evalValue_of_loaded null).trans (by rw [evaluated]; rfl)⟩, means⟩
  | @and _ children filled each ih =>
    obtain ⟨answer, evaluated, means⟩ := evalEach_store truthOf_andStep
      (fun child mem => ih child mem (validateExprs_ok valid child mem)
        fun field own => stored field (mem_fieldsOfAll.mpr ⟨child, mem, own⟩)) (some true)
    refine ⟨answer, evaluated, ?_⟩
    rw [← means, foldl_and]
    exact (Truth.holds_and _).symm
  | @or _ children filled each ih =>
    obtain ⟨answer, evaluated, means⟩ := evalEach_store truthOf_orStep
      (fun child mem => ih child mem (validateExprs_ok valid child mem)
        fun field own => stored field (mem_fieldsOfAll.mpr ⟨child, mem, own⟩)) (some false)
    refine ⟨answer, evaluated, ?_⟩
    rw [← means, foldl_or]
    exact (Truth.fails_or _).symm
  | @not _ child part ih =>
    obtain ⟨answer, evaluated, means⟩ := ih valid stored
    refine ⟨answer.map (!·), bind_eq_ok.mpr ⟨answer, evaluated, rfl⟩, ?_⟩
    rw [evaluate, means]
    rcases answer with _ | _ | _ <;> rfl
  | relation => cases valid

omit [LinearOrder φ] in
theorem hasRelationFilters_of_valid {schema : RuntimeSchema} {collection : RuntimeCollection}
    {expr : PredicateExpr φ} (proper : Proper schema collection expr)
    (valid : validateExpr expr = .ok ()) : expr.hasRelationFilters = false := by
  have none {children : List (PredicateExpr φ)}
      (each : ∀ child ∈ children, child.hasRelationFilters = false) :
      anyRelationFilters children = false := by
    rw [Bool.eq_false_iff, ne_eq, anyRelationFilters_iff]
    rintro ⟨child, mem, related⟩
    rw [each child mem] at related
    cases related
  induction proper with
  | constant | isNull | compare | list | between => rfl
  | and _ _ ih => exact none fun child mem => ih child mem (validateExprs_ok valid child mem)
  | or _ _ ih => exact none fun child mem => ih child mem (validateExprs_ok valid child mem)
  | not _ ih => exact ih valid
  | relation => cases valid

omit [LinearOrder φ] in
theorem prepareMatch_ok {filter : CheckedRuntimeFilter φ} {matcher : RuntimeRecordMatcher φ}
    (prepared : filter.prepareMatch profile = .ok matcher) :
    profile ≠ .mssqlUnsupported ∧ validateExpr filter.root.predicate.expr = .ok () ∧
      matcher = ⟨filter, filter.root.intent.fields [], profile⟩ := by
  obtain ⟨_, supported, rest⟩ := bind_eq_ok.mp prepared
  obtain ⟨_, _, rest⟩ := bind_eq_ok.mp rest
  obtain ⟨_, _, rest⟩ := bind_eq_ok.mp rest
  obtain ⟨_, valid, made⟩ := bind_eq_ok.mp rest
  cases made
  exact ⟨of_decide_eq_true (require_eq_ok.mp supported), valid, rfl⟩

omit [LinearOrder φ] in
theorem checkField_ok (checked : RuntimeRecordMatcher.checkField record field = .ok ()) :
    ∃ value, recordValue record field = .ok value ∧ Acceptable field value := by
  obtain ⟨value, loaded, rest⟩ := bind_eq_ok.mp checked
  obtain ⟨_, fits, valid⟩ := bind_eq_ok.mp rest
  exact ⟨value, loaded, (Bool.and_eq_true_iff.mp (require_eq_ok.mp fits)).2, valid⟩

/-- A record whose fields the matcher accepts matches exactly when the rendered condition with
its values is true on a row that holds the record's values as the profile says. -/
theorem matches_iff_selected {schema : RuntimeSchema} {filter : CheckedRuntimeFilter φ}
    {matcher : RuntimeRecordMatcher φ} {collection : RuntimeCollection} {tables : Tables (Stored φ)}
    {outward : Bool} (checked : schema.ChecksFilter filter)
    (prepared : filter.prepareMatch profile = .ok matcher)
    (known : schema.collection? filter.root.predicate.collection = some collection)
    (accepted : matcher.accept record = .ok ()) (conforms : Conforms schema tables)
    (held : ∀ field ∈ matcher.fields, ∀ value, recordValue record field = .ok value →
      row field.physicalColumn = profile.store value) :
    ∃ selected, matcher.matches record = .ok selected ∧
      ∀ values : List (SqlValue φ),
        renderExpr profile.backend filter.root.predicate.expr values =
          some ((factor profile.backend none 0 values.length filter.root.predicate.expr).text
              (spelling profile.backend),
            values ++ emitted profile.backend filter.root.predicate.expr) ∧
          (selected = true ↔ rowTruth profile.backend outward profile.engine tables collection
            (values ++ emitted profile.backend filter.root.predicate.expr) values.length
              filter.root.predicate.expr row = .holds) := by
  obtain ⟨supported, valid, rfl⟩ := prepareMatch_ok prepared
  obtain ⟨⟨owner, found, proper⟩, covered⟩ := checked.sound
  obtain rfl : collection = owner := Option.some.inj (known.symm.trans found)
  obtain ⟨_, _, fields⟩ := bind_eq_ok.mp accepted
  have stored : ∀ field ∈ filter.root.predicate.expr.fields,
      ∃ value, Held profile record row field value := by
    intro field mem
    obtain ⟨value, loaded, acceptable⟩ := checkField_ok (forM_each fields field (covered field mem))
    exact ⟨value, loaded, acceptable, held field (covered field mem) value loaded⟩
  have agrees : ∃ answer, eval record filter.root.predicate.expr = .ok answer ∧
      evaluate profile.backend profile.engine tables filter.root.predicate.expr row = truthOf answer :=
    evaluate_store supported proper valid stored
  obtain ⟨answer, evaluated, means⟩ := agrees
  refine ⟨answer == some true, bind_eq_ok.mpr ⟨(), accepted, bind_eq_ok.mpr ⟨answer, evaluated, rfl⟩⟩,
    fun values => ⟨renderScoped_eq proper none 0 values, ?_⟩⟩
  have free : filter.root.predicate.expr.hasRelationFilters = true →
      (none : Option String).getD collection.physicalTable ≠ relationAlias 0 := fun related => by
    rw [hasRelationFilters_of_valid proper valid] at related
    cases related
  have bound : emitted profile.backend filter.root.predicate.expr <+:
      (values ++ emitted profile.backend filter.root.predicate.expr).drop values.length := by
    rw [List.drop_left]
  have truth : rowTruth profile.backend outward profile.engine tables collection
      (values ++ emitted profile.backend filter.root.predicate.expr) values.length
        filter.root.predicate.expr row = truthOf answer :=
    (factor_eval conforms proper (List.mem_of_find?_eq_some known) free row [] bound).trans means
  rw [truth]
  rcases answer with _ | _ | _ <;> decide

end Trees

/-! ### A node -/

def idHandle : RuntimeFieldHandle :=
  RuntimeSchema.fieldHandle (handleOf nodeNotes nodes) nodeId

def laterNodes : RuntimePredicate Int :=
  nodeNotes.leaf (handleOf nodeNotes nodes) (.compare idHandle .gt (.integer 1)) 1

def laterFilter : CheckedRuntimeFilter Int := ⟨laterNodes, .field idHandle (.scalar .gt) false⟩

def secondNode : RuntimeRecord Int where
  schemaFingerprint := nodeNotes.fingerprint
  collection := "node"
  fieldKinds := OrderedMap.empty.insert "node.id" .integer
  values := OrderedMap.empty.insert "node.id" (.integer 2)

theorem laterFilter_checked : nodeNotes.ChecksFilter laterFilter := by
  have built : nodeNotes.runtimeCompare (handleOf nodeNotes nodes) idHandle .gt (.integer 1) {} =
      .ok laterNodes := runtimeCompare_handleOf rfl rfl rfl rfl rfl
  let builder : RuntimeFilterBuilder :=
    ⟨nodeNotes, handleOf nodeNotes nodes, {}, RUNTIME_FILTER_MAX_TEXT_BYTES,
      RUNTIME_FILTER_MAX_BINARY_BYTES, true, false⟩
  have budget : builder.checkBudget laterNodes.expr = .ok () := require_eq_ok.mpr rfl
  have node : builder.compare idHandle .gt (.integer 1) = .ok laterFilter.root :=
    bind_eq_ok.mpr ⟨(), rfl, bind_eq_ok.mpr ⟨laterNodes, mapError_eq_ok.mpr built,
      bind_eq_ok.mpr ⟨(), rfl, bind_eq_ok.mpr ⟨(), budget, rfl⟩⟩⟩⟩
  refine ⟨builder, laterFilter.root, .compare rfl node, bind_eq_ok.mpr ⟨(), require_eq_ok.mpr ?_,
    bind_eq_ok.mpr ⟨(), rfl, bind_eq_ok.mpr ⟨(), require_eq_ok.mpr rfl,
      bind_eq_ok.mpr ⟨(), budget, rfl⟩⟩⟩⟩⟩
  rw [Bool.and_eq_true, decide_eq_true_eq, decide_eq_true_eq]
  exact ⟨rfl, rfl⟩

theorem recordValue_secondNode : recordValue secondNode idHandle = .ok (.integer 2) := by
  have state : secondNode.state idHandle = .ok (.value (.integer 2)) :=
    bind_eq_ok.mpr ⟨some (.integer 2), bind_eq_ok.mpr ⟨(), require_eq_ok.mpr (decide_eq_true rfl),
      bind_eq_ok.mpr ⟨(), require_eq_ok.mpr (decide_eq_true rfl), bind_eq_ok.mpr ⟨.integer, rfl,
        bind_eq_ok.mpr ⟨(), require_eq_ok.mpr (decide_eq_true rfl), rfl⟩⟩⟩⟩, rfl⟩
  rw [recordValue, state]

def laterMatcher : RuntimeRecordMatcher Int := ⟨laterFilter, [idHandle], .sqliteBinaryCanonical⟩

def secondRow : Row (Stored Int) := fun _ => some (.integer 2)

def storedNodes : Tables (Stored Int) := fun _ => ⟨["id", "owner", "hidden"], [secondRow]⟩

theorem laterMatcher_accepts : laterMatcher.accept secondNode = .ok () := by
  have checked : RuntimeRecordMatcher.checkField secondNode idHandle = .ok () :=
    bind_eq_ok.mpr ⟨.integer 2, recordValue_secondNode, rfl⟩
  have each : laterMatcher.fields.forM (RuntimeRecordMatcher.checkField secondNode) = .ok () :=
    forM_ok fun field mem => by rwa [List.mem_singleton.mp mem]
  have own : secondNode.schemaFingerprint = nodeNotes.fingerprint := rfl
  have owner : laterMatcher.filter.root.predicate.schema = nodeNotes.fingerprint := rfl
  refine bind_eq_ok.mpr ⟨(), require_eq_ok.mpr ?_, each⟩
  rw [Bool.and_eq_true, decide_eq_true_eq, decide_eq_true_eq]
  exact ⟨own.trans owner.symm, rfl⟩

/-- The second node matches exactly if its row is selected. -/
theorem matches_iff_selected_node :
    ∃ selected, laterMatcher.matches secondNode = .ok selected ∧
      ∀ values : List (SqlValue Int),
        renderExpr RuntimeMatchProfile.sqliteBinaryCanonical.backend laterFilter.root.predicate.expr
            values =
          some ((factor RuntimeMatchProfile.sqliteBinaryCanonical.backend none 0 values.length
              laterFilter.root.predicate.expr).text
                (spelling RuntimeMatchProfile.sqliteBinaryCanonical.backend),
            values ++ emitted RuntimeMatchProfile.sqliteBinaryCanonical.backend
              laterFilter.root.predicate.expr) ∧
          (selected = true ↔ rowTruth RuntimeMatchProfile.sqliteBinaryCanonical.backend true
            RuntimeMatchProfile.sqliteBinaryCanonical.engine storedNodes nodes
            (values ++ emitted RuntimeMatchProfile.sqliteBinaryCanonical.backend
              laterFilter.root.predicate.expr) values.length laterFilter.root.predicate.expr secondRow =
                .holds) := by
  have prepared : laterFilter.prepareMatch .sqliteBinaryCanonical = .ok laterMatcher :=
    bind_eq_ok.mpr ⟨(), rfl, bind_eq_ok.mpr ⟨(), rfl, bind_eq_ok.mpr ⟨(), rfl,
      bind_eq_ok.mpr ⟨(), rfl, rfl⟩⟩⟩⟩
  have known : nodeNotes.collection? laterFilter.root.predicate.collection = some nodes := rfl
  have conforms : Conforms nodeNotes storedNodes := by decide
  have held : ∀ field ∈ laterMatcher.fields, ∀ value, recordValue secondNode field = .ok value →
      secondRow field.physicalColumn = RuntimeMatchProfile.sqliteBinaryCanonical.store value := by
    intro field mem value loaded
    obtain rfl := List.mem_singleton.mp mem
    rw [recordValue_secondNode] at loaded
    cases loaded
    rfl
  exact matches_iff_selected laterFilter_checked prepared known laterMatcher_accepts conforms held

end GraphqlOrm.Runtime
