import GraphqlOrm.Runtime.Predicate

/-!
# Checked filters

A builder of predicates that keeps what was asked for: the tree of the original input, with
the entries that have no effect on the predicate, and the literals within their limits.
-/
namespace GraphqlOrm.Runtime

open Outcome

variable {φ : Type}

/-! ### Errors -/

inductive RuntimeFilterErrorCode where
  | invalidInput | invalidHandle | limitExceeded | missingLoadedField | wrongValueKind
  | unsupportedSemantics | schemaMismatch

structure RuntimeFilterError where
  code : RuntimeFilterErrorCode
  queryCode : Option RuntimeQueryErrorCode := none

/-- A failure of a predicate's constructor, with its own code. -/
def RuntimeFilterError.ofQuery (error : RuntimeQueryError) : RuntimeFilterError where
  code :=
    match error.code with
    | .invalidHandle => .invalidHandle
    | .resourceLimit => .limitExceeded
    | .unsupportedOperator => .unsupportedSemantics
    | _ => .invalidInput
  queryCode := some error.code

/-! ### The original input -/

inductive RuntimeFilterBoolean where
  | and | implicitAnd | or | not
deriving DecidableEq

inductive RuntimeFilterOperator where
  | scalar (op : RuntimeScalarOperator)
  | list (op : RuntimeListOperator)
  | isNull (isNull : Bool)
  | between
  | field

inductive Intent where
  | sequence (children : List Intent)
  | boolean (kind : RuntimeFilterBoolean) (ignored : Bool) (children : List Intent)
  | field (field : RuntimeFieldHandle) (op : RuntimeFilterOperator) (ignored : Bool)
  | relation (relation : RuntimeRelationHandle) (quantifier : RuntimeRelationQuantifier)

mutual

/-- The fields in their order of appearance, each once, behind those already found. -/
def Intent.fields : Intent → List RuntimeFieldHandle → List RuntimeFieldHandle
  | .sequence children, out => intentFields children out
  | .boolean _ _ children, out => intentFields children out
  | .field f _ _, out => if out.contains f then out else out ++ [f]
  | .relation _ _, out => out

def intentFields : List Intent → List RuntimeFieldHandle → List RuntimeFieldHandle
  | [], out => out
  | child :: rest, out => intentFields rest (child.fields out)

end

structure RuntimeFilterNode (φ : Type) where
  predicate : RuntimePredicate φ
  intent : Intent

structure CheckedRuntimeFilter (φ : Type) where
  root : RuntimeFilterNode φ

/-! ### Limits of a tree -/

def RUNTIME_FILTER_MAX_TEXT_BYTES : Nat := 64 * 1024

def RUNTIME_FILTER_MAX_BINARY_BYTES : Nat := 32 * 1024

def literal (value : RuntimeValue φ) (maxText maxBinary : Nat) : Except RuntimeFilterError Unit :=
  match value with
  | .string v => require (v.utf8ByteSize ≤ maxText) { code := .limitExceeded }
  | .bytes v => require (v.length ≤ maxBinary) { code := .limitExceeded }
  | .json _ => .error { code := .unsupportedSemantics }
  | _ => .ok ()

mutual

def checkLiterals (text binary : Nat) : PredicateExpr φ → Except RuntimeFilterError Unit
  | .constant _ => .ok ()
  | .isNull _ _ => .ok ()
  | .compare _ _ value => literal value text binary
  | .list _ _ values => values.forM fun value => literal value text binary
  | .between _ low high => do
    literal low text binary
    literal high text binary
  | .and children => checkEachLiterals text binary children
  | .or children => checkEachLiterals text binary children
  | .not child => checkLiterals text binary child
  | .relation _ _ grant filter => do
    checkLiterals text binary grant
    checkLiterals text binary filter

def checkEachLiterals (text binary : Nat) : List (PredicateExpr φ) → Except RuntimeFilterError Unit
  | [] => .ok ()
  | child :: rest => do
    checkLiterals text binary child
    checkEachLiterals text binary rest

end

mutual

def withinLists (max : Nat) : PredicateExpr φ → Bool
  | .constant _ | .isNull _ _ | .compare _ _ _ | .between _ _ _ => true
  | .list _ _ values => values.length ≤ max
  | .and children => eachWithinLists max children
  | .or children => eachWithinLists max children
  | .not child => withinLists max child
  | .relation _ _ grant filter => withinLists max grant && withinLists max filter

def eachWithinLists (max : Nat) : List (PredicateExpr φ) → Bool
  | [] => true
  | child :: rest => withinLists max child && eachWithinLists max rest

end

mutual

/-- The values that a statement binds; by position, a suffix is bound twice. -/
def actualBinds (duplicateSuffix : Bool) : PredicateExpr φ → Option Nat
  | .constant _ => some 0
  | .isNull _ _ => some 0
  | .compare _ op _ => some (if duplicateSuffix && op = .endsWith then 2 else 1)
  | .list _ _ values => some values.length
  | .between _ _ _ => some 2
  | .and children => actualBindsFrom duplicateSuffix 0 children
  | .or children => actualBindsFrom duplicateSuffix 0 children
  | .not child => actualBinds duplicateSuffix child
  | .relation _ _ grant filter => do
    checkedAdd (← actualBinds duplicateSuffix grant) (← actualBinds duplicateSuffix filter)

def actualBindsFrom (duplicateSuffix : Bool) (n : Nat) : List (PredicateExpr φ) → Option Nat
  | [] => some n
  | child :: rest => do
    let sum ← checkedAdd n (← actualBinds duplicateSuffix child)
    actualBindsFrom duplicateSuffix sum rest

end

/-! ### The builder -/

structure RuntimeFilterBuilder where
  schema : RuntimeSchema
  collection : RuntimeCollectionHandle
  limits : RuntimeQueryLimits
  maxTextBytes : Nat
  maxBinaryBytes : Nat
  sqliteSuffixBinds : Bool
  legacyNulls : Bool

namespace RuntimeFilterBuilder

variable (builder : RuntimeFilterBuilder)

def checkBudget (expr : PredicateExpr φ) : Except RuntimeFilterError Unit :=
  require (withinLists builder.limits.maxValuesPerList expr &&
    (actualBinds builder.sqliteSuffixBinds expr).any (· ≤ builder.limits.maxBindParameters))
    { code := .limitExceeded }

def node (predicate : RuntimePredicate φ) (intent : Intent) :
    Except RuntimeFilterError (RuntimeFilterNode φ) := do
  checkLiterals builder.maxTextBytes builder.maxBinaryBytes predicate.expr
  builder.checkBudget predicate.expr
  return ⟨predicate, intent⟩

def leaf (field : RuntimeFieldHandle) (op : RuntimeFilterOperator) (p : RuntimePredicate φ) :
    Except RuntimeFilterError (RuntimeFilterNode φ) :=
  builder.node p (.field field op false)

def compare (field : RuntimeFieldHandle) (op : RuntimeScalarOperator) (value : RuntimeValue φ) :
    Except RuntimeFilterError (RuntimeFilterNode φ) := do
  literal value builder.maxTextBytes builder.maxBinaryBytes
  let predicate ← (builder.schema.runtimeCompare builder.collection field op value
    builder.limits).mapError .ofQuery
  builder.leaf field (.scalar op) predicate

def membership (field : RuntimeFieldHandle) (op : RuntimeListOperator)
    (values : List (RuntimeValue φ)) : Except RuntimeFilterError (RuntimeFilterNode φ) := do
  require (values.length ≤ builder.limits.maxValuesPerList) { code := .limitExceeded }
  values.forM fun value => literal value builder.maxTextBytes builder.maxBinaryBytes
  let predicate ← (builder.schema.runtimeList builder.collection field op values
    builder.limits).mapError .ofQuery
  builder.leaf field (.list op) predicate

def isNull (field : RuntimeFieldHandle) (isNull : Bool) :
    Except RuntimeFilterError (RuntimeFilterNode φ) := do
  let predicate ← (builder.schema.runtimeIsNull builder.collection field isNull
    builder.limits).mapError .ofQuery
  builder.leaf field (.isNull isNull) predicate

def between (field : RuntimeFieldHandle) (low high : RuntimeValue φ) :
    Except RuntimeFilterError (RuntimeFilterNode φ) := do
  literal low builder.maxTextBytes builder.maxBinaryBytes
  literal high builder.maxTextBytes builder.maxBinaryBytes
  let predicate ← (builder.schema.runtimeBetween builder.collection field low high
    builder.limits).mapError .ofQuery
  builder.leaf field .between predicate

def relation (relation : RuntimeRelationHandle) (quantifier : RuntimeRelationQuantifier)
    (filter : Option (CheckedRuntimeFilter φ)) (targetGrant : Option (RuntimePredicate φ)) :
    Except RuntimeFilterError (RuntimeFilterNode φ) := do
  let predicate ← (builder.schema.runtimeRelationFilter builder.collection relation quantifier
    (filter.map (·.root.predicate)) targetGrant builder.limits).mapError .ofQuery
  builder.node predicate (.relation relation quantifier)

/-- The predicates of the parts under one `AND` or `OR`. -/
def combined (children : List (RuntimeFilterNode φ)) (isAnd : Bool) :
    Except RuntimeFilterError (RuntimePredicate φ) :=
  (builder.schema.runtimeCombine builder.collection (children.map (·.predicate)) builder.limits
    isAnd).mapError .ofQuery

def combine (children : List (RuntimeFilterNode φ)) (kind : RuntimeFilterBoolean) :
    Except RuntimeFilterError (RuntimeFilterNode φ) := do
  require (children.length ≤ builder.limits.maxPredicateNodes) { code := .limitExceeded }
  let predicate ← builder.combined children (kind = .and)
  builder.node predicate (.boolean kind false (children.map (·.intent)))

def not (child : RuntimeFilterNode φ) : Except RuntimeFilterError (RuntimeFilterNode φ) := do
  let predicate ← (builder.schema.runtimeNot builder.collection child.predicate
    builder.limits).mapError .ofQuery
  builder.node predicate (.boolean .not false [child.intent])

def implicitAnd (children : List (RuntimeFilterNode φ)) :
    Except RuntimeFilterError (RuntimeFilterNode φ) := do
  let predicate ← builder.combined children true
  builder.node predicate (.sequence (children.map (·.intent)))

/-- The predicate of an entry without effect, which the older execution does not count. -/
def ignoredPredicate : Except RuntimeFilterError (RuntimePredicate φ) := do
  let p ← builder.combined [] true
  return if builder.legacyNulls then { p with nodes := 0, depth := 0 } else p

def ignoredSupported (field : RuntimeFieldHandle) : RuntimeFilterOperator → Bool
  | .scalar op => compareSupported field.valueKind op
  | .list _ => field.valueKind ≠ .json
  | .between => rangeKind field.valueKind
  | .isNull _ | .field => true

/-- The checks of an entry whose value is null, which the older execution leaves out. -/
def checkIgnored (field : RuntimeFieldHandle) (op : RuntimeFilterOperator) :
    Except RuntimeFilterError Unit := do
  require (builder.legacyNulls || field.filterable) (.ofQuery { code := .invalidFilter })
  require (builder.legacyNulls || ignoredSupported field op)
    (.ofQuery { code := .unsupportedOperator })

def ignoredField (field : RuntimeFieldHandle) (op : RuntimeFilterOperator) :
    Except RuntimeFilterError (RuntimeFilterNode φ) := do
  (builder.schema.checkHandle builder.collection field).mapError .ofQuery
  builder.checkIgnored field op
  let predicate ← builder.ignoredPredicate
  builder.node predicate (.field field op true)

def ignoredBoolean (kind : RuntimeFilterBoolean) :
    Except RuntimeFilterError (RuntimeFilterNode φ) := do
  let predicate ← builder.ignoredPredicate
  builder.node predicate (.boolean kind true [])

def finish (root : RuntimeFilterNode φ) : Except RuntimeFilterError (CheckedRuntimeFilter φ) := do
  require (root.predicate.schema = builder.schema.fingerprint &&
    root.predicate.collection = builder.collection.id) { code := .schemaMismatch }
  checkLiterals builder.maxTextBytes builder.maxBinaryBytes root.predicate.expr
  require (root.predicate.nodes ≤ builder.limits.maxPredicateNodes &&
    root.predicate.depth ≤ builder.limits.maxPredicateDepth) { code := .limitExceeded }
  builder.checkBudget root.predicate.expr
  return ⟨root⟩

end RuntimeFilterBuilder

/-! ### What can be built -/

/-- The nodes that builders of one schema give, whatever their limits, from others of it. -/
inductive RuntimeSchema.ChecksNode (schema : RuntimeSchema) : RuntimeFilterNode φ → Prop
  | compare {builder : RuntimeFilterBuilder} {field op value node} (owner : builder.schema = schema)
    (built : builder.compare field op value = .ok node) : ChecksNode schema node
  | membership {builder : RuntimeFilterBuilder} {field op values node}
    (owner : builder.schema = schema) (built : builder.membership field op values = .ok node) :
    ChecksNode schema node
  | isNull {builder : RuntimeFilterBuilder} {field isNull node} (owner : builder.schema = schema)
    (built : builder.isNull field isNull = .ok node) : ChecksNode schema node
  | between {builder : RuntimeFilterBuilder} {field low high node} (owner : builder.schema = schema)
    (built : builder.between field low high = .ok node) : ChecksNode schema node
  | relation {builder : RuntimeFilterBuilder} {relation quantifier targetGrant node}
    {filter : Option (CheckedRuntimeFilter φ)} (owner : builder.schema = schema)
    (inner : ∀ checked, filter = some checked → ChecksNode schema checked.root)
    (grant : ∀ predicate, targetGrant = some predicate → schema.Builds predicate)
    (built : builder.relation relation quantifier filter targetGrant = .ok node) :
    ChecksNode schema node
  | combine {builder : RuntimeFilterBuilder} {children kind node} (owner : builder.schema = schema)
    (parts : ∀ child ∈ children, ChecksNode schema child)
    (built : builder.combine children kind = .ok node) : ChecksNode schema node
  | not {builder : RuntimeFilterBuilder} {child node} (owner : builder.schema = schema)
    (part : ChecksNode schema child) (built : builder.not child = .ok node) :
    ChecksNode schema node
  | implicitAnd {builder : RuntimeFilterBuilder} {children node} (owner : builder.schema = schema)
    (parts : ∀ child ∈ children, ChecksNode schema child)
    (built : builder.implicitAnd children = .ok node) : ChecksNode schema node
  | ignoredField {builder : RuntimeFilterBuilder} {field op node} (owner : builder.schema = schema)
    (built : builder.ignoredField field op = .ok node) : ChecksNode schema node
  | ignoredBoolean {builder : RuntimeFilterBuilder} {kind node} (owner : builder.schema = schema)
    (built : builder.ignoredBoolean kind = .ok node) : ChecksNode schema node

def RuntimeSchema.ChecksFilter (schema : RuntimeSchema) (filter : CheckedRuntimeFilter φ) : Prop :=
  ∃ (builder : RuntimeFilterBuilder) (root : RuntimeFilterNode φ), schema.ChecksNode root ∧
    builder.finish root = .ok filter

mutual

def PredicateExpr.fields : PredicateExpr φ → List RuntimeFieldHandle
  | .constant _ => []
  | .isNull field _ => [field]
  | .compare field _ _ => [field]
  | .list field _ _ => [field]
  | .between field _ _ => [field]
  | .and children => fieldsOfAll children
  | .or children => fieldsOfAll children
  | .not child => child.fields
  | .relation _ _ _ _ => []

def fieldsOfAll : List (PredicateExpr φ) → List RuntimeFieldHandle
  | [] => []
  | child :: rest => child.fields ++ fieldsOfAll rest

end

variable {field : RuntimeFieldHandle}

theorem mem_fieldsOfAll {children : List (PredicateExpr φ)} :
    field ∈ fieldsOfAll children ↔ ∃ child ∈ children, field ∈ child.fields := by
  induction children with
  | nil => simp [fieldsOfAll]
  | cons child rest ih => simp [fieldsOfAll, ih]

mutual

/-- Fields already found stay; the others come from the intent alone. -/
theorem Intent.mem_fields (intent : Intent) (out : List RuntimeFieldHandle)
    (field : RuntimeFieldHandle) :
    field ∈ intent.fields out ↔ field ∈ out ∨ field ∈ intent.fields [] :=
  match intent with
  | .sequence children => mem_intentFields children out field
  | .boolean _ _ children => mem_intentFields children out field
  | .relation _ _ => by simp [Intent.fields]
  | .field f _ _ => by
    rw [Intent.fields, Intent.fields]
    split
    next known =>
      have known := List.contains_iff_mem.mp known
      refine ⟨.inl, ?_⟩
      rintro (mem | mem)
      · exact mem
      · obtain rfl : field = f := by simpa using mem
        exact known
    next => simp

theorem mem_intentFields (children : List Intent) (out : List RuntimeFieldHandle)
    (field : RuntimeFieldHandle) :
    field ∈ intentFields children out ↔ field ∈ out ∨ field ∈ intentFields children [] :=
  match children with
  | [] => by simp [intentFields]
  | child :: rest => by
    rw [intentFields, intentFields, mem_intentFields rest (child.fields out),
      mem_intentFields rest (child.fields []), child.mem_fields out, or_assoc]

end

theorem mem_intentFields_nil {children : List Intent} :
    field ∈ intentFields children [] ↔ ∃ child ∈ children, field ∈ child.fields [] := by
  induction children with
  | nil => simp [intentFields]
  | cons child rest ih => simp [intentFields, mem_intentFields rest (child.fields []), ih]

/-- The tree is proper, and every field that it reads belongs to the original input. -/
structure RuntimeFilterNode.Sound (schema : RuntimeSchema) (node : RuntimeFilterNode φ) : Prop where
  proper : node.predicate.IsProper schema
  covered : ∀ field ∈ node.predicate.expr.fields, field ∈ node.intent.fields []

section Built

variable {schema : RuntimeSchema} {builder : RuntimeFilterBuilder} {node : RuntimeFilterNode φ}

variable {predicate : RuntimePredicate φ}

theorem RuntimeFilterBuilder.node_ok {intent : Intent}
    (built : builder.node predicate intent = .ok node) : node = ⟨predicate, intent⟩ := by
  obtain ⟨_, _, rest⟩ := bind_eq_ok.mp built
  obtain ⟨_, _, made⟩ := bind_eq_ok.mp rest
  cases made
  rfl

/-- A leaf reads the field that its entry names, or nothing. -/
theorem leaf_sound {op : RuntimeFilterOperator} {ignored : Bool}
    (proper : predicate.IsProper schema) (only : ∀ read ∈ predicate.expr.fields, read = field)
    (built : builder.node predicate (.field field op ignored) = .ok node) : node.Sound schema := by
  obtain rfl := RuntimeFilterBuilder.node_ok built
  refine ⟨proper, fun read mem => ?_⟩
  rw [only read mem]
  simp [Intent.fields]

/-- The parts of a combination are read by the combination. -/
theorem combined_sound {children : List (RuntimeFilterNode φ)} {isAnd : Bool}
    (owner : builder.schema = schema) (parts : ∀ child ∈ children, child.Sound schema)
    (built : builder.combined children isAnd = .ok predicate) :
    predicate.IsProper schema ∧ ∀ field ∈ predicate.expr.fields,
      field ∈ intentFields (children.map (·.intent)) [] := by
  subst owner
  have each : ∀ part ∈ children.map (·.predicate), part.IsProper builder.schema := by
    intro part mem
    obtain ⟨child, among, rfl⟩ := List.mem_map.mp mem
    exact (parts child among).proper
  obtain ⟨proper, shape⟩ := runtimeCombine_proper each (mapError_eq_ok.mp built)
  have covered : ∀ field ∈ fieldsOfAll ((children.map (·.predicate)).map (·.expr)),
      field ∈ intentFields (children.map (·.intent)) [] := by
    intro field mem
    rw [List.map_map] at mem
    obtain ⟨expr, among, own⟩ := mem_fieldsOfAll.mp mem
    obtain ⟨child, known, rfl⟩ := List.mem_map.mp among
    exact mem_intentFields_nil.mpr ⟨child.intent, List.mem_map_of_mem known,
      (parts child known).covered field own⟩
  refine ⟨proper, fun field mem => ?_⟩
  rcases shape with same | same | same
  · rw [same] at mem
    exact absurd mem List.not_mem_nil
  · rw [same] at mem
    exact covered field mem
  · rw [same] at mem
    exact covered field mem

theorem ignoredPredicate_sound (owner : builder.schema = schema)
    (built : builder.ignoredPredicate = .ok predicate) :
    predicate.IsProper schema ∧ predicate.expr.fields = [] := by
  obtain ⟨p, made, same⟩ := bind_eq_ok.mp built
  obtain ⟨proper, none⟩ := combined_sound owner (fun _ mem => absurd mem List.not_mem_nil) made
  have empty : p.expr.fields = [] := List.eq_nil_iff_forall_not_mem.mpr fun field mem =>
    absurd (none field mem) List.not_mem_nil
  cases same
  cases builder.legacyNulls with
  | false | true => exact ⟨proper, empty⟩

/-- Every node that can be built is sound, by induction on its construction. -/
theorem RuntimeSchema.ChecksNode.sound (built : schema.ChecksNode node) : node.Sound schema := by
  induction built with
  | compare owner built =>
    subst owner
    obtain ⟨_, _, rest⟩ := bind_eq_ok.mp built
    obtain ⟨predicate, made, rest⟩ := bind_eq_ok.mp rest
    obtain ⟨proper, shape⟩ := runtimeCompare_proper (mapError_eq_ok.mp made)
    exact leaf_sound proper (by rw [shape]; exact fun _ => List.mem_singleton.mp) rest
  | membership owner built =>
    subst owner
    obtain ⟨_, _, rest⟩ := bind_eq_ok.mp built
    obtain ⟨_, _, rest⟩ := bind_eq_ok.mp rest
    obtain ⟨predicate, made, rest⟩ := bind_eq_ok.mp rest
    obtain ⟨proper, shape⟩ := runtimeList_proper (mapError_eq_ok.mp made)
    rcases shape with shape | shape
    · exact leaf_sound proper (by rw [shape]; exact fun _ => List.mem_singleton.mp) rest
    · exact leaf_sound proper (by rw [shape]; exact fun _ mem => absurd mem List.not_mem_nil)
        rest
  | isNull owner built =>
    subst owner
    obtain ⟨predicate, made, rest⟩ := bind_eq_ok.mp built
    obtain ⟨proper, shape⟩ := runtimeIsNull_proper (mapError_eq_ok.mp made)
    exact leaf_sound proper (by rw [shape]; exact fun _ => List.mem_singleton.mp) rest
  | between owner built =>
    subst owner
    obtain ⟨_, _, rest⟩ := bind_eq_ok.mp built
    obtain ⟨_, _, rest⟩ := bind_eq_ok.mp rest
    obtain ⟨predicate, made, rest⟩ := bind_eq_ok.mp rest
    obtain ⟨proper, shape⟩ := runtimeBetween_proper (mapError_eq_ok.mp made)
    exact leaf_sound proper (by rw [shape]; exact fun _ => List.mem_singleton.mp) rest
  | relation owner _ grant built inner =>
    subst owner
    obtain ⟨predicate, made, rest⟩ := bind_eq_ok.mp built
    obtain ⟨proper, _, _, shape⟩ := runtimeRelationFilter_proper
      (fun part given => by
        obtain ⟨checked, known, rfl⟩ := Option.map_eq_some_iff.mp given
        exact (inner checked known).proper)
      (fun part given => (grant part given).proper) (mapError_eq_ok.mp made)
    obtain rfl := RuntimeFilterBuilder.node_ok rest
    refine ⟨proper, fun f mem => ?_⟩
    rw [shape] at mem
    exact absurd mem List.not_mem_nil
  | combine owner _ built parts =>
    obtain ⟨_, _, rest⟩ := bind_eq_ok.mp built
    obtain ⟨predicate, made, rest⟩ := bind_eq_ok.mp rest
    obtain ⟨proper, covered⟩ := combined_sound owner parts made
    obtain rfl := RuntimeFilterBuilder.node_ok rest
    exact ⟨proper, covered⟩
  | not owner _ built part =>
    subst owner
    obtain ⟨predicate, made, rest⟩ := bind_eq_ok.mp built
    obtain ⟨proper, shape⟩ := runtimeNot_proper part.proper (mapError_eq_ok.mp made)
    obtain rfl := RuntimeFilterBuilder.node_ok rest
    refine ⟨proper, fun f mem => ?_⟩
    rw [shape] at mem
    exact part.covered f mem
  | implicitAnd owner _ built parts =>
    obtain ⟨predicate, made, rest⟩ := bind_eq_ok.mp built
    obtain ⟨proper, covered⟩ := combined_sound owner parts made
    obtain rfl := RuntimeFilterBuilder.node_ok rest
    exact ⟨proper, covered⟩
  | ignoredField owner built =>
    obtain ⟨_, _, rest⟩ := bind_eq_ok.mp built
    obtain ⟨_, _, rest⟩ := bind_eq_ok.mp rest
    obtain ⟨predicate, made, rest⟩ := bind_eq_ok.mp rest
    obtain ⟨proper, none⟩ := ignoredPredicate_sound owner made
    exact leaf_sound proper (by rw [none]; exact fun _ mem => absurd mem List.not_mem_nil) rest
  | ignoredBoolean owner built =>
    obtain ⟨predicate, made, rest⟩ := bind_eq_ok.mp built
    obtain ⟨proper, none⟩ := ignoredPredicate_sound owner made
    obtain rfl := RuntimeFilterBuilder.node_ok rest
    refine ⟨proper, fun f mem => ?_⟩
    rw [none] at mem
    exact absurd mem List.not_mem_nil

theorem RuntimeSchema.ChecksFilter.sound {filter : CheckedRuntimeFilter φ}
    (checked : schema.ChecksFilter filter) : filter.root.Sound schema := by
  obtain ⟨builder, root, built, finished⟩ := checked
  obtain ⟨_, _, rest⟩ := bind_eq_ok.mp finished
  obtain ⟨_, _, rest⟩ := bind_eq_ok.mp rest
  obtain ⟨_, _, rest⟩ := bind_eq_ok.mp rest
  obtain ⟨_, _, made⟩ := bind_eq_ok.mp rest
  cases made
  exact built.sound

end Built

end GraphqlOrm.Runtime
