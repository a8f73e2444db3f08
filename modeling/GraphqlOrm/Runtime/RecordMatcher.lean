import GraphqlOrm.Foundation.TextFunctions
import GraphqlOrm.Runtime.FilterBuilder
import Mathlib.Order.Compare

/-!
# Matching records offline

A checked filter evaluated on a record in memory. What the two supported databases cannot
be trusted to evaluate alike is refused beforehand, in the filter and in the record.
-/
namespace GraphqlOrm.Runtime

open Outcome
open Sql (compareText)

variable {φ : Type}

/-- What the host asserts about the storage of the database. -/
inductive RuntimeMatchProfile where
  | sqliteBinaryCanonical | postgresCUtf8 | mssqlUnsupported
deriving DecidableEq

/-- `char::is_control` -/
def isControl (c : Char) : Bool := c.toNat < 0x20 || (0x7f ≤ c.toNat && c.toNat ≤ 0x9f)

/-- The text of a date-time is ASCII, so its bytes are its characters. -/
def comparableDateTime (t : RuntimeDateTime) : Bool :=
  t.text.length = 27 && !("0000".toList <+: t.text.toList) &&
    (t.text.toList.drop 17).take 2 ≠ "60".toList

def validValue (value : RuntimeValue φ) : Except RuntimeFilterError Unit :=
  match value with
  | .string s => require (!s.toList.any isControl) { code := .unsupportedSemantics }
  | .json _ => .error { code := .unsupportedSemantics }
  | .dateTime t => require (comparableDateTime t) { code := .unsupportedSemantics }
  | _ => .ok ()

/-! ### Preparing a filter -/

def profileSupports (field : RuntimeFieldHandle) (op : RuntimeFilterOperator) : Bool :=
  field.valueKind ≠ .json &&
    match op with
    | .scalar op => compareSupported field.valueKind op
    | .between => rangeKind field.valueKind
    | .list _ | .isNull _ | .field => true

mutual

def Intent.validateProfile : Intent → Except RuntimeFilterError Unit
  | .sequence children => validateProfiles children
  | .boolean _ _ children => validateProfiles children
  | .field f op _ => require (profileSupports f op) { code := .unsupportedSemantics }
  | .relation _ _ => .error { code := .unsupportedSemantics }

def validateProfiles : List Intent → Except RuntimeFilterError Unit
  | [] => .ok ()
  | child :: rest => do
    child.validateProfile
    validateProfiles rest

end

mutual

def validateExpr : PredicateExpr φ → Except RuntimeFilterError Unit
  | .constant _ => .ok ()
  | .isNull _ _ => .ok ()
  | .compare _ _ value => validValue value
  | .list _ _ values => values.forM validValue
  | .between _ low high => do
    validValue low
    validValue high
  | .and children => validateExprs children
  | .or children => validateExprs children
  | .not child => validateExpr child
  | .relation _ _ _ _ => .error { code := .unsupportedSemantics }

def validateExprs : List (PredicateExpr φ) → Except RuntimeFilterError Unit
  | [] => .ok ()
  | child :: rest => do
    validateExpr child
    validateExprs rest

end

structure RuntimeRecordMatcher (φ : Type) where
  filter : CheckedRuntimeFilter φ
  fields : List RuntimeFieldHandle
  profile : RuntimeMatchProfile

def CheckedRuntimeFilter.prepareMatch (filter : CheckedRuntimeFilter φ)
    (profile : RuntimeMatchProfile) : Except RuntimeFilterError (RuntimeRecordMatcher φ) := do
  require (profile ≠ .mssqlUnsupported) { code := .unsupportedSemantics }
  filter.root.intent.validateProfile
  let fields := filter.root.intent.fields []
  require (!fields.any (·.valueKind = .json)) { code := .unsupportedSemantics }
  validateExpr filter.root.predicate.expr
  return ⟨filter, fields, profile⟩

/-! ### Evaluating a record -/

def recordValue (record : RuntimeRecord φ) (field : RuntimeFieldHandle) :
    Except RuntimeFilterError (RuntimeValue φ) :=
  match record.state field with
  | .error _ => .error { code := .wrongValueKind }
  | .ok .unloaded => .error { code := .missingLoadedField }
  | .ok .null => .ok .null
  | .ok (.value v) => .ok v

variable [LinearOrder φ]

/-- Values of different kinds are not compared. Decimals are compared as numbers. -/
def compareValues : RuntimeValue φ → RuntimeValue φ → Except RuntimeFilterError Ordering
  | .boolean a, .boolean b => .ok (compare a b)
  | .integer a, .integer b => .ok (compare a b)
  | .float a, .float b => .ok (compare a b)
  | .string a, .string b => .ok (compareText a.toList b.toList)
  | .uuid a, .uuid b => .ok (compare a b)
  | .bytes a, .bytes b => .ok (compare a b)
  | .dateTime a, .dateTime b => .ok (compareText a.text.toList b.text.toList)
  | .decimal a, .decimal b => .ok (compare (a.mantissa * 10 ^ b.definition.scale)
      (b.mantissa * 10 ^ a.definition.scale))
  | _, _ => .error { code := .wrongValueKind }

def evalText (test : List Char → List Char → Bool) (actual operand : RuntimeValue φ) :
    Except RuntimeFilterError Bool :=
  match actual, operand with
  | .string a, .string b => .ok (test a.toList b.toList)
  | _, _ => .error { code := .wrongValueKind }

/-- An operator on a value that is not null. -/
def evalOperator (op : RuntimeScalarOperator) (actual operand : RuntimeValue φ) :
    Except RuntimeFilterError Bool :=
  match op with
  | .contains => evalText (fun a b => b <:+: a) actual operand
  | .startsWith => evalText (fun a b => b <+: a) actual operand
  | .endsWith => evalText (fun a b => b <:+ a) actual operand
  | .eq => (compareValues actual operand).map (· == .eq)
  | .ne => (compareValues actual operand).map (· != .eq)
  | .lt => (compareValues actual operand).map (· == .lt)
  | .lte => (compareValues actual operand).map (· != .gt)
  | .gt => (compareValues actual operand).map (· == .gt)
  | .gte => (compareValues actual operand).map (· != .lt)

def evalFound (actual : RuntimeValue φ) (found : Bool) :
    List (RuntimeValue φ) → Except RuntimeFilterError Bool
  | [] => .ok found
  | v :: rest => do
    let o ← compareValues actual v
    evalFound actual (found || o == .eq) rest

def evalBetween (actual low high : RuntimeValue φ) : Except RuntimeFilterError Bool := do
  let a ← compareValues actual low
  if a ≠ .lt then (compareValues actual high).map (· ≠ .gt) else return false

/-- A test of a value; a null leaves it open. -/
def evalValue (actual : RuntimeValue φ) (test : RuntimeValue φ → Except RuntimeFilterError Bool) :
    Except RuntimeFilterError (Option Bool) :=
  if actual matches .null then .ok none else (test actual).map some

def andStep (result : Option Bool) : Option Bool → Option Bool
  | some false => some false
  | none => if result ≠ some false then none else result
  | some true => result

def orStep (result : Option Bool) : Option Bool → Option Bool
  | some true => some true
  | none => if result ≠ some true then none else result
  | some false => result

mutual

def eval (record : RuntimeRecord φ) : PredicateExpr φ → Except RuntimeFilterError (Option Bool)
  | .constant v => .ok (some v)
  | .isNull field isNull => do
    let v ← recordValue record field
    return some ((v matches .null) == isNull)
  | .compare field op operand => do
    let actual ← recordValue record field
    evalValue actual fun v => evalOperator op v operand
  | .list field op values => do
    let actual ← recordValue record field
    evalValue actual fun v => (evalFound v false values).map (· == (op = .in : Bool))
  | .between field low high => do
    let actual ← recordValue record field
    evalValue actual fun v => evalBetween v low high
  | .and children => evalEach record andStep (some true) children
  | .or children => evalEach record orStep (some false) children
  | .not child => do
    let v ← eval record child
    return v.map (!·)
  | .relation _ _ _ _ => .error { code := .unsupportedSemantics }

def evalEach (record : RuntimeRecord φ) (step : Option Bool → Option Bool → Option Bool)
    (result : Option Bool) : List (PredicateExpr φ) → Except RuntimeFilterError (Option Bool)
  | [] => .ok result
  | e :: rest => do
    let v ← eval record e
    evalEach record step (step result v) rest

end

namespace RuntimeRecordMatcher

variable (matcher : RuntimeRecordMatcher φ) (record : RuntimeRecord φ)

omit [LinearOrder φ] in
def checkField (record : RuntimeRecord φ) (field : RuntimeFieldHandle) :
    Except RuntimeFilterError Unit := do
  let v ← recordValue record field
  require (!((v matches .null) && !field.nullable) && v.kind.all (· = field.valueKind))
    { code := .wrongValueKind }
  validValue v

omit [LinearOrder φ] in
def accept : Except RuntimeFilterError Unit := do
  require (record.schemaFingerprint = matcher.filter.root.predicate.schema &&
    record.collection = matcher.filter.root.predicate.collection) { code := .schemaMismatch }
  matcher.fields.forM (checkField record)

def «matches» : Except RuntimeFilterError Bool := do
  matcher.accept record
  let v ← eval record matcher.filter.root.predicate.expr
  return v == some true

end RuntimeRecordMatcher

end GraphqlOrm.Runtime
