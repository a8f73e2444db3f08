import GraphqlOrm.Foundation.Checked
import GraphqlOrm.Foundation.JsonText
import GraphqlOrm.Foundation.OrderedMap
import GraphqlOrm.Foundation.Outcome
import GraphqlOrm.Foundation.Slices

/-!
# Format payloads

The payload of a field format: a JSON object without floating-point numbers, bounded in
depth, in values and in bytes. The conversion from JSON has a bound of its own on the depth.

## Main results

* `fromJson_denote`: what is converted is what the JSON value denotes.
* `denote_typed`: a denoted value has 64-bit integers and sorted keys.
-/
namespace GraphqlOrm.Formats

open Json Outcome Text OrderedMap

inductive RuntimeFormatProblem where
  | invalidNamespace
  | reservedNamespace
  | invalidVersion
  | invalidPayload
  | floatInPayload
  | invalidPayloadKey
  | payloadTooLarge
  | payloadTooDeep

def maxFormatPayloadBytes : Nat := 4096

def maxFormatPayloadDepth : Nat := 8

def maxFormatPayloadNodes : Nat := 256

def maxFormatPayloadStringBytes : Nat := 1024

def maxFormatPayloadKeyLen : Nat := 64

def byteSize (s : String) : Nat := byteLength s.toList

inductive RuntimeFormatValue where
  | null
  | boolean (value : Bool)
  | integer (value : Int)
  | string (value : String)
  | list (values : List RuntimeFormatValue)
  | object (entries : List (String × RuntimeFormatValue))

abbrev Entries := List (String × RuntimeFormatValue)

/-! ### Bounds -/

def isSegment (cs : List Char) : Bool :=
  cs.head?.any Char.isLower && cs.tail.all fun c => c.isLower || c.isDigit || c == '_'

def isPayloadKey (key : String) : Bool :=
  byteSize key ≤ maxFormatPayloadKeyLen && isSegment key.toList

mutual

def checkValue (depth nodes : Nat) : RuntimeFormatValue → Except RuntimeFormatProblem Nat
  | .null | .boolean _ | .integer _ => do
    require (nodes + 1 ≤ maxFormatPayloadNodes) .payloadTooLarge
    return nodes + 1
  | .string text => do
    require (nodes + 1 ≤ maxFormatPayloadNodes) .payloadTooLarge
    require (byteSize text ≤ maxFormatPayloadStringBytes) .payloadTooLarge
    return nodes + 1
  | .list values => do
    require (nodes + 1 ≤ maxFormatPayloadNodes) .payloadTooLarge
    require (depth + 1 ≤ maxFormatPayloadDepth) .payloadTooDeep
    checkValues (depth + 1) (nodes + 1) values
  | .object entries => do
    require (nodes + 1 ≤ maxFormatPayloadNodes) .payloadTooLarge
    require (depth + 1 ≤ maxFormatPayloadDepth) .payloadTooDeep
    checkEntries (depth + 1) (nodes + 1) entries

def checkValues (depth nodes : Nat) : List RuntimeFormatValue → Except RuntimeFormatProblem Nat
  | [] => .ok nodes
  | value :: rest => do
    let nodes ← checkValue depth nodes value
    checkValues depth nodes rest

def checkEntries (depth nodes : Nat) :
    List (String × RuntimeFormatValue) → Except RuntimeFormatProblem Nat
  | [] => .ok nodes
  | (key, value) :: rest => do
    require (isPayloadKey key) .invalidPayloadKey
    let nodes ← checkValue depth nodes value
    checkEntries depth nodes rest

end

def checkObject (depth nodes : Nat) (entries : Entries) : Except RuntimeFormatProblem Nat := do
  require (depth ≤ maxFormatPayloadDepth) .payloadTooDeep
  checkEntries depth nodes entries

/-! ### Canonical text -/

def writeJsonString (value : String) : String := jsonString value

mutual

def writeValue : RuntimeFormatValue → String
  | .null => "null"
  | .boolean value => if value then "true" else "false"
  | .integer value => value.repr
  | .string value => writeJsonString value
  | .list values => "[" ++ join "," (writeValues values) ++ "]"
  | .object entries => "\x7b" ++ join "," (writeEntries entries) ++ "\x7d"

def writeValues : List RuntimeFormatValue → List String
  | [] => []
  | value :: rest => writeValue value :: writeValues rest

def writeEntries : List (String × RuntimeFormatValue) → List String
  | [] => []
  | (key, value) :: rest => (writeJsonString key ++ ":" ++ writeValue value) :: writeEntries rest

end

def canonicalJson (entries : Entries) : String :=
  "\x7b" ++ join "," (writeEntries entries) ++ "\x7d"

def check (entries : Entries) : Except RuntimeFormatProblem Unit := do
  let _ ← checkObject 0 0 entries
  require (byteSize (canonicalJson entries) ≤ maxFormatPayloadBytes) .payloadTooLarge

/-! ### Payloads -/

mutual

/-- What the types of the values guarantee: 64-bit integers and maps in key order. -/
def Typed : RuntimeFormatValue → Prop
  | .integer value => Checked.InRange value
  | .list values => TypedValues values
  | .object entries => (entries.Pairwise fun a b => a.1 < b.1) ∧ TypedEntries entries
  | _ => True

def TypedValues : List RuntimeFormatValue → Prop
  | [] => True
  | value :: rest => Typed value ∧ TypedValues rest

def TypedEntries : List (String × RuntimeFormatValue) → Prop
  | [] => True
  | (_, value) :: rest => Typed value ∧ TypedEntries rest

end

structure RuntimeFormatPayload where
  entries : Entries
  typed : Typed (.object entries)
  checked : check entries = .ok ()

def RuntimeFormatPayload.new (entries : Entries) (typed : Typed (.object entries)) :
    Except RuntimeFormatProblem RuntimeFormatPayload :=
  match checked : check entries with
  | .ok () => .ok ⟨entries, typed, checked⟩
  | .error problem => .error problem

/-! ### Conversions -/

def ofNumber (number : Number) : Except RuntimeFormatProblem RuntimeFormatValue :=
  match Value.asI64 (.number number) with
  | some value => .ok (.integer value)
  | none =>
    if (Value.asU64 (.number number)).isSome then .error .invalidPayload else .error .floatInPayload

mutual

def fromJson (depth : Nat) : Value String → Except RuntimeFormatProblem RuntimeFormatValue
  | .null => do
    require (depth ≤ maxFormatPayloadDepth + 1) .payloadTooDeep
    return .null
  | .bool value => do
    require (depth ≤ maxFormatPayloadDepth + 1) .payloadTooDeep
    return .boolean value
  | .number number => do
    require (depth ≤ maxFormatPayloadDepth + 1) .payloadTooDeep
    ofNumber number
  | .text value => do
    require (depth ≤ maxFormatPayloadDepth + 1) .payloadTooDeep
    return .string value
  | .array values => do
    require (depth ≤ maxFormatPayloadDepth + 1) .payloadTooDeep
    return .list (← fromElements (depth + 1) values)
  | .object members => do
    require (depth ≤ maxFormatPayloadDepth + 1) .payloadTooDeep
    return .object (collectEntries (← fromMembers (depth + 1) members))

def fromElements (depth : Nat) :
    List (Value String) → Except RuntimeFormatProblem (List RuntimeFormatValue)
  | [] => .ok []
  | value :: rest => do
    let first ← fromJson depth value
    return first :: (← fromElements depth rest)

def fromMembers (depth : Nat) :
    List (String × Value String) → Except RuntimeFormatProblem (List (String × RuntimeFormatValue))
  | [] => .ok []
  | (key, value) :: rest => do
    let first ← fromJson depth value
    return (key, first) :: (← fromMembers depth rest)

end

mutual

def toJson : RuntimeFormatValue → Value String
  | .null => .null
  | .boolean value => .bool value
  | .integer value => .number (.ofInt value)
  | .string value => .text value
  | .list values => .array (toElements values)
  | .object entries => .object (toMembers entries)

def toElements : List RuntimeFormatValue → List (Value String)
  | [] => []
  | value :: rest => toJson value :: toElements rest

def toMembers : List (String × RuntimeFormatValue) → List (String × Value String)
  | [] => []
  | (key, value) :: rest => (key, toJson value) :: toMembers rest

end

/-! ### What a JSON value denotes -/

mutual

def UniqueKeys : Value String → Prop
  | .array values => UniqueElements values
  | .object members => (members.map Prod.fst).Nodup ∧ UniqueMembers members
  | _ => True

def UniqueElements : List (Value String) → Prop
  | [] => True
  | value :: rest => UniqueKeys value ∧ UniqueElements rest

def UniqueMembers : List (String × Value String) → Prop
  | [] => True
  | (_, value) :: rest => UniqueKeys value ∧ UniqueMembers rest

end

/-- A JSON value in memory, where objects are maps. -/
structure JsonValue where
  value : Value String
  unique : UniqueKeys value

mutual

/-- The value without any bound on its depth; nothing where a number is no 64-bit integer. -/
def denote : Value String → Option RuntimeFormatValue
  | .null => some .null
  | .bool value => some (.boolean value)
  | .number number => (Value.asI64 (.number number)).map .integer
  | .text value => some (.string value)
  | .array values => (denoteElements values).map .list
  | .object members => (denoteMembers members).map fun entries => .object (collectEntries entries)

def denoteElements : List (Value String) → Option (List RuntimeFormatValue)
  | [] => some []
  | value :: rest => do
    let first ← denote value
    return first :: (← denoteElements rest)

def denoteMembers : List (String × Value String) → Option (List (String × RuntimeFormatValue))
  | [] => some []
  | (key, value) :: rest => do
    let first ← denote value
    return (key, first) :: (← denoteMembers rest)

end

/-! ### The conversion follows the denotation -/

theorem ofNumber_denote {number : Number} {r : RuntimeFormatValue}
    (converted : ofNumber number = .ok r) :
    (Value.asI64 (.number number)).map .integer = some r := by
  unfold ofNumber at converted
  split at converted
  next value found =>
    cases converted
    rw [found, Option.map_some]
  · split at converted <;> cases converted

mutual

theorem fromJson_denote {depth : Nat} (v : Value String) {r : RuntimeFormatValue}
    (converted : fromJson depth v = .ok r) : denote v = some r := by
  cases v with
  | null | bool value | text value =>
    obtain ⟨_, _, made⟩ := bind_eq_ok.mp converted
    cases made
    rfl
  | number number =>
    obtain ⟨_, _, made⟩ := bind_eq_ok.mp converted
    exact ofNumber_denote made
  | array values =>
    obtain ⟨_, _, rest⟩ := bind_eq_ok.mp converted
    obtain ⟨elements, inner, made⟩ := bind_eq_ok.mp rest
    cases made
    rw [denote, fromElements_denote values inner, Option.map_some]
  | object members =>
    obtain ⟨_, _, rest⟩ := bind_eq_ok.mp converted
    obtain ⟨entries, inner, made⟩ := bind_eq_ok.mp rest
    cases made
    rw [denote, fromMembers_denote members inner, Option.map_some]

theorem fromElements_denote {depth : Nat} (vs : List (Value String)) {rs : List RuntimeFormatValue}
    (converted : fromElements depth vs = .ok rs) : denoteElements vs = some rs := by
  cases vs with
  | nil =>
    cases converted
    rfl
  | cons v vs =>
    rw [fromElements] at converted
    obtain ⟨first, here, rest⟩ := bind_eq_ok.mp converted
    obtain ⟨others, later, made⟩ := bind_eq_ok.mp rest
    cases made
    rw [denoteElements, fromJson_denote v here, fromElements_denote vs later]
    rfl

theorem fromMembers_denote {depth : Nat} (ms : List (String × Value String)) {es : Entries}
    (converted : fromMembers depth ms = .ok es) : denoteMembers ms = some es := by
  cases ms with
  | nil =>
    cases converted
    rfl
  | cons m ms =>
    obtain ⟨key, v⟩ := m
    rw [fromMembers] at converted
    obtain ⟨first, here, rest⟩ := bind_eq_ok.mp converted
    obtain ⟨others, later, made⟩ := bind_eq_ok.mp rest
    cases made
    rw [denoteMembers, fromJson_denote v here, fromMembers_denote ms later]
    rfl

end

/-! ### Typed values -/

theorem typedEntries_iff {es : Entries} : TypedEntries es ↔ ∀ e ∈ es, Typed e.2 := by
  induction es with
  | nil => simp [TypedEntries]
  | cons e rest ih =>
    obtain ⟨key, value⟩ := e
    rw [TypedEntries, ih, List.forall_mem_cons]

theorem asI64_inRange {number : Number} {n : Int} (found : Value.asI64 (.number number) = some n) :
    Checked.InRange n := by
  unfold Value.asI64 at found
  dsimp only at found
  split at found
  · split at found
    next accepted =>
      cases found
      simp only [Bool.and_eq_true, decide_eq_true_eq, bne_iff_ne] at accepted
      constructor <;> omega
    · cases found
  · split at found
    next accepted =>
      cases found
      simp only [Bool.and_eq_true, decide_eq_true_eq] at accepted
      constructor <;> omega
    · cases found

mutual

theorem denote_typed (v : Value String) {r : RuntimeFormatValue} (denotes : denote v = some r) :
    Typed r := by
  cases v with
  | null | bool value | text value =>
    cases denotes
    trivial
  | number number =>
    obtain ⟨n, found, rfl⟩ := Option.map_eq_some_iff.mp denotes
    exact asI64_inRange found
  | array values =>
    obtain ⟨rs, inner, rfl⟩ := Option.map_eq_some_iff.mp denotes
    exact denoteElements_typed values inner
  | object members =>
    obtain ⟨es, inner, rfl⟩ := Option.map_eq_some_iff.mp denotes
    have each := typedEntries_iff.mp (denoteMembers_typed members inner)
    exact ⟨pairwise_collectEntries es,
      typedEntries_iff.mpr fun e mem => each e (mem_of_mem_collectEntries mem)⟩

theorem denoteElements_typed (vs : List (Value String)) {rs : List RuntimeFormatValue}
    (denotes : denoteElements vs = some rs) : TypedValues rs := by
  cases vs with
  | nil =>
    cases denotes
    trivial
  | cons v vs =>
    obtain ⟨first, here, rest⟩ := Option.bind_eq_some_iff.mp denotes
    obtain ⟨others, later, made⟩ := Option.bind_eq_some_iff.mp rest
    cases made
    exact ⟨denote_typed v here, denoteElements_typed vs later⟩

theorem denoteMembers_typed (ms : List (String × Value String)) {es : Entries}
    (denotes : denoteMembers ms = some es) : TypedEntries es := by
  cases ms with
  | nil =>
    cases denotes
    trivial
  | cons m ms =>
    obtain ⟨key, v⟩ := m
    obtain ⟨first, here, rest⟩ := Option.bind_eq_some_iff.mp denotes
    obtain ⟨others, later, made⟩ := Option.bind_eq_some_iff.mp rest
    cases made
    exact ⟨denote_typed v here, denoteMembers_typed ms later⟩

end

/-- `TryFrom<serde_json::Value>`. -/
def RuntimeFormatPayload.ofJson (json : JsonValue) :
    Except RuntimeFormatProblem RuntimeFormatPayload :=
  match converted : fromJson 0 json.value with
  | .error problem => .error problem
  | .ok (.object entries) =>
    RuntimeFormatPayload.new entries (denote_typed _ (fromJson_denote _ converted))
  | .ok _ => .error .invalidPayload

end GraphqlOrm.Formats
