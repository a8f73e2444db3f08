import GraphqlOrm.Foundation.Checked
import GraphqlOrm.Runtime.Record

/-!
# Runtime predicates

Predicates bound to one schema and one collection, and the constructors that validate
them. A relation node holds two predicates of its target: the host's grant and the filter.
-/
namespace GraphqlOrm.Runtime

open Outcome

inductive RuntimeQueryErrorCode where
  | invalidHandle | invalidRequest | invalidFilter | unsupportedOperator | unsupportedOrder
  | unsupportedBackend | resourceLimit | cursorInvalid | cursorSchemaMismatch | decode
  | backendExecution | invalidSearch

structure RuntimeQueryError where
  code : RuntimeQueryErrorCode
  collection : Option CollectionId := none
  field : Option FieldId := none

namespace RuntimeQueryError

def ofCollection (code : RuntimeQueryErrorCode) (collection : CollectionId) : RuntimeQueryError :=
  { code, collection := some collection }

def ofField (code : RuntimeQueryErrorCode) (field : RuntimeFieldHandle) : RuntimeQueryError :=
  { code, collection := some field.collection, field := some field.id }

end RuntimeQueryError

structure RuntimeQueryLimits where
  maxPredicateDepth : Nat := 16
  maxPredicateNodes : Nat := 256
  maxValuesPerList : Nat := 100
  maxBindParameters : Nat := 999
  maxOrderTerms : Nat := 16
  maxProjectionFields : Nat := 128
  defaultPageSize : Nat := 50
  maxPageSize : Nat := 100
  maxCursorBytes : Nat := 16 * 1024
  maxCursorValues : Nat := 32

/-! ### Expressions -/

inductive RuntimeScalarOperator where
  | eq | ne | lt | lte | gt | gte | contains | startsWith | endsWith
deriving DecidableEq

inductive RuntimeListOperator where
  | in | notIn
deriving DecidableEq

inductive RuntimeRelationQuantifier where
  | is | isNot | some | none | every
deriving DecidableEq

def RuntimeRelationQuantifier.appliesTo (quantifier : RuntimeRelationQuantifier) :
    RelationCardinality → Bool
  | .one => quantifier = is || quantifier = isNot
  | .many => quantifier = some || quantifier = none || quantifier = every

inductive PredicateExpr (φ : Type) where
  | constant (value : Bool)
  | isNull (field : RuntimeFieldHandle) (isNull : Bool)
  | compare (field : RuntimeFieldHandle) (op : RuntimeScalarOperator) (value : RuntimeValue φ)
  | list (field : RuntimeFieldHandle) (op : RuntimeListOperator) (values : List (RuntimeValue φ))
  | between (field : RuntimeFieldHandle) (low high : RuntimeValue φ)
  | and (children : List (PredicateExpr φ))
  | or (children : List (PredicateExpr φ))
  | not (child : PredicateExpr φ)
  | relation (relation : RuntimeRelationHandle) (quantifier : RuntimeRelationQuantifier)
    (grant filter : PredicateExpr φ)

structure RuntimePredicate (φ : Type) where
  schema : SchemaFingerprint
  collection : CollectionId
  expr : PredicateExpr φ
  nodes : Nat
  depth : Nat
  binds : Nat

variable {φ : Type}

def rangeKind : RuntimeValueKind → Bool
  | .integer | .float | .dateTime | .string | .decimal _ => true
  | .boolean | .uuid | .json | .bytes => false

def compareSupported (kind : RuntimeValueKind) : RuntimeScalarOperator → Bool
  | .eq | .ne => kind ≠ .json
  | .lt | .lte | .gt | .gte => rangeKind kind
  | .contains | .startsWith | .endsWith => kind = .string

def limitError (collection : CollectionId) : RuntimeQueryError := .ofCollection .resourceLimit collection

/-- `usize::checked_add`. -/
def checkedAdd (a b : Nat) : Option Nat := if a + b < 2 ^ 64 then some (a + b) else none

def validateLiteral (field : RuntimeFieldHandle) (value : RuntimeValue φ) :
    Except RuntimeQueryError Unit :=
  require (value.kind = some field.valueKind) (.ofField .invalidFilter field)

/-! ### Constructors -/

/-- What the parts of a combined predicate count up to. -/
structure Budget where
  nodes : Nat := 1
  depth : Nat := 1
  binds : Nat := 0

def Budget.add (collection : CollectionId) (budget : Budget) (part : RuntimePredicate φ) :
    Except RuntimeQueryError Budget := do
  let nodes ← okOr (limitError collection) (checkedAdd budget.nodes part.nodes)
  let binds ← okOr (limitError collection) (checkedAdd budget.binds part.binds)
  let deeper ← okOr (limitError collection) (checkedAdd part.depth 1)
  return ⟨nodes, max budget.depth deeper, binds⟩

def Budget.check (collection : CollectionId) (limits : RuntimeQueryLimits) (budget : Budget) :
    Except RuntimeQueryError Unit :=
  require (budget.nodes ≤ limits.maxPredicateNodes && budget.depth ≤ limits.maxPredicateDepth &&
    budget.binds ≤ limits.maxBindParameters) (limitError collection)

namespace RuntimeSchema

variable (schema : RuntimeSchema)

def checkHandle (collection : RuntimeCollectionHandle) (field : RuntimeFieldHandle) :
    Except RuntimeQueryError Unit :=
  match schema.resolveField collection field.id with
  | .error _ => .error { code := .invalidHandle }
  | .ok current => require (current = field) (.ofField .invalidHandle field)

def checkCollection (collection : RuntimeCollectionHandle) : Except RuntimeQueryError Unit :=
  match schema.resolveCollection collection.id with
  | .error _ => .error { code := .invalidHandle }
  | .ok current => require (current = collection) (.ofCollection .invalidHandle collection.id)

def leaf (collection : RuntimeCollectionHandle) (expr : PredicateExpr φ) (binds : Nat) :
    RuntimePredicate φ :=
  ⟨schema.fingerprint, collection.id, expr, 1, 1, binds⟩

def checkFilterable (collection : RuntimeCollectionHandle) (field : RuntimeFieldHandle) :
    Except RuntimeQueryError Unit := do
  schema.checkHandle collection field
  require field.filterable (.ofField .invalidFilter field)

def runtimeCompare (collection : RuntimeCollectionHandle) (field : RuntimeFieldHandle)
    (op : RuntimeScalarOperator) (value : RuntimeValue φ) (limits : RuntimeQueryLimits) :
    Except RuntimeQueryError (RuntimePredicate φ) := do
  schema.checkFilterable collection field
  validateLiteral field value
  require (compareSupported field.valueKind op) (.ofField .unsupportedOperator field)
  require (1 ≤ limits.maxPredicateNodes && 1 ≤ limits.maxPredicateDepth &&
    1 ≤ limits.maxBindParameters) (limitError collection.id)
  return schema.leaf collection (.compare field op value) 1

def runtimeIsNull (collection : RuntimeCollectionHandle) (field : RuntimeFieldHandle)
    (isNull : Bool) (limits : RuntimeQueryLimits) :
    Except RuntimeQueryError (RuntimePredicate φ) := do
  schema.checkFilterable collection field
  require (1 ≤ limits.maxPredicateNodes && 1 ≤ limits.maxPredicateDepth) (limitError collection.id)
  return schema.leaf collection (.isNull field isNull) 0

def runtimeList (collection : RuntimeCollectionHandle) (field : RuntimeFieldHandle)
    (op : RuntimeListOperator) (values : List (RuntimeValue φ)) (limits : RuntimeQueryLimits) :
    Except RuntimeQueryError (RuntimePredicate φ) := do
  schema.checkFilterable collection field
  require (field.valueKind ≠ .json) (.ofField .unsupportedOperator field)
  require (values.length ≤ limits.maxValuesPerList && values.length ≤ limits.maxBindParameters)
    (limitError collection.id)
  values.forM (validateLiteral field)
  let expr := if values.isEmpty then .constant (op = .notIn) else .list field op values
  return schema.leaf collection expr values.length

def runtimeBetween (collection : RuntimeCollectionHandle) (field : RuntimeFieldHandle)
    (low high : RuntimeValue φ) (limits : RuntimeQueryLimits) :
    Except RuntimeQueryError (RuntimePredicate φ) := do
  schema.checkFilterable collection field
  require (rangeKind field.valueKind) (.ofField .unsupportedOperator field)
  validateLiteral field low
  validateLiteral field high
  require (2 ≤ limits.maxBindParameters) (limitError collection.id)
  return schema.leaf collection (.between field low high) 2

def checkPredicate (owner reported : CollectionId) (predicate : RuntimePredicate φ) :
    Except RuntimeQueryError Unit :=
  require (predicate.schema = schema.fingerprint && predicate.collection = owner)
    (.ofCollection .invalidHandle reported)

def combineParts (collection : CollectionId) :
    Budget → List (RuntimePredicate φ) → Except RuntimeQueryError Budget
  | budget, [] => .ok budget
  | budget, predicate :: rest => do
    schema.checkPredicate collection collection predicate
    let budget ← budget.add collection predicate
    combineParts collection budget rest

def runtimeCombine (collection : RuntimeCollectionHandle) (predicates : List (RuntimePredicate φ))
    (limits : RuntimeQueryLimits) (isAnd : Bool) :
    Except RuntimeQueryError (RuntimePredicate φ) := do
  schema.checkCollection collection
  let budget ← schema.combineParts collection.id {} predicates
  budget.check collection.id limits
  let exprs := predicates.map (·.expr)
  let expr := if exprs.isEmpty then .constant isAnd else if isAnd then .and exprs else .or exprs
  return ⟨schema.fingerprint, collection.id, expr, budget.nodes, budget.depth, budget.binds⟩

def runtimeNot (collection : RuntimeCollectionHandle) (predicate : RuntimePredicate φ)
    (limits : RuntimeQueryLimits) : Except RuntimeQueryError (RuntimePredicate φ) := do
  schema.checkPredicate collection.id collection.id predicate
  let nodes ← okOr (limitError collection.id) (checkedAdd predicate.nodes 1)
  let depth ← okOr (limitError collection.id) (checkedAdd predicate.depth 1)
  require (nodes ≤ limits.maxPredicateNodes && depth ≤ limits.maxPredicateDepth)
    (limitError collection.id)
  return ⟨schema.fingerprint, collection.id, .not predicate.expr, nodes, depth, predicate.binds⟩

def relationPart (collection target : CollectionId) (budget : Budget) :
    Option (RuntimePredicate φ) → Except RuntimeQueryError (PredicateExpr φ × Budget)
  | none => .ok (.constant true, budget)
  | some predicate => do
    schema.checkPredicate target collection predicate
    let budget ← budget.add collection predicate
    return (predicate.expr, budget)

def checkRelation (collection : RuntimeCollectionHandle) (relation : RuntimeRelationHandle) :
    Except RuntimeQueryError Unit := do
  let invalid : RuntimeQueryError := .ofCollection .invalidHandle collection.id
  require (relation.schemaFingerprint = schema.fingerprint && relation.source = collection &&
    !relation.keyPairs.isEmpty) invalid
  match schema.resolveRelation collection relation.id with
  | .error _ => .error invalid
  | .ok current => require (current = relation) invalid

def runtimeRelationFilter (collection : RuntimeCollectionHandle) (relation : RuntimeRelationHandle)
    (quantifier : RuntimeRelationQuantifier) (filter targetGrant : Option (RuntimePredicate φ))
    (limits : RuntimeQueryLimits) : Except RuntimeQueryError (RuntimePredicate φ) := do
  schema.checkCollection collection
  schema.checkRelation collection relation
  require (quantifier.appliesTo relation.cardinality) { code := .unsupportedOperator }
  let (grant, budget) ← schema.relationPart collection.id relation.target.id {} targetGrant
  let (filter, budget) ← schema.relationPart collection.id relation.target.id budget filter
  budget.check collection.id limits
  return ⟨schema.fingerprint, collection.id, .relation relation quantifier grant filter,
    budget.nodes, budget.depth, budget.binds⟩

/-- The predicates that the constructors build, from others of the same schema. -/
inductive Builds : RuntimePredicate φ → Prop
  | compare {collection field op value limits predicate}
    (built : schema.runtimeCompare collection field op value limits = .ok predicate) :
    Builds predicate
  | isNull {collection field isNull limits predicate}
    (built : schema.runtimeIsNull collection field isNull limits = .ok predicate) :
    Builds predicate
  | list {collection field op values limits predicate}
    (built : schema.runtimeList collection field op values limits = .ok predicate) :
    Builds predicate
  | between {collection field low high limits predicate}
    (built : schema.runtimeBetween collection field low high limits = .ok predicate) :
    Builds predicate
  | combine {collection predicates limits isAnd predicate}
    (parts : ∀ part ∈ predicates, Builds part)
    (built : schema.runtimeCombine collection predicates limits isAnd = .ok predicate) :
    Builds predicate
  | not {collection child limits predicate} (part : Builds child)
    (built : schema.runtimeNot collection child limits = .ok predicate) : Builds predicate
  | relation {collection relation quantifier filter targetGrant limits predicate}
    (filterPart : ∀ part, filter = some part → Builds part)
    (grantPart : ∀ part, targetGrant = some part → Builds part)
    (built : schema.runtimeRelationFilter collection relation quantifier filter targetGrant limits =
      .ok predicate) : Builds predicate

end RuntimeSchema

/-! ### What is built is well formed -/

def IsFieldOf (collection : RuntimeCollection) (field : RuntimeFieldHandle) : Prop :=
  field.collection = collection.id ∧
    ∃ declared, collection.field? field.id = some declared ∧
      field.physicalColumn = declared.physicalColumn ∧ field.valueKind = declared.valueKind ∧
      field.nullable = declared.nullable

/-- The relation joins the collection to the target by fields of both. -/
structure Joins (source target : RuntimeCollection) (relation : RuntimeRelationHandle) : Prop where
  fromTable : relation.source.physicalTable = source.physicalTable
  toTable : relation.target.physicalTable = target.physicalTable
  filled : relation.keyPairs ≠ []
  pairs : ∀ pair ∈ relation.keyPairs, IsFieldOf source pair.1 ∧ IsFieldOf target pair.2

def Fits (field : RuntimeFieldHandle) (value : RuntimeValue φ) : Prop :=
  value.kind = some field.valueKind

/-- A predicate tree over the rows of a collection, as the constructors build it. -/
inductive Proper (schema : RuntimeSchema) : RuntimeCollection → PredicateExpr φ → Prop
  | constant {collection value} : Proper schema collection (.constant value)
  | isNull {collection field isNull} (own : IsFieldOf collection field) :
    Proper schema collection (.isNull field isNull)
  | compare {collection field op value} (own : IsFieldOf collection field)
    (fits : Fits field value) (supported : compareSupported field.valueKind op = true) :
    Proper schema collection (.compare field op value)
  | list {collection field op values} (own : IsFieldOf collection field)
    (filled : values ≠ []) (fits : ∀ value ∈ values, Fits field value)
    (scalar : field.valueKind ≠ .json) : Proper schema collection (.list field op values)
  | between {collection field low high} (own : IsFieldOf collection field)
    (lowFits : Fits field low) (highFits : Fits field high)
    (ranged : rangeKind field.valueKind = true) :
    Proper schema collection (.between field low high)
  | and {collection children} (filled : children ≠ [])
    (each : ∀ child ∈ children, Proper schema collection child) :
    Proper schema collection (.and children)
  | or {collection children} (filled : children ≠ [])
    (each : ∀ child ∈ children, Proper schema collection child) :
    Proper schema collection (.or children)
  | not {collection child} (part : Proper schema collection child) :
    Proper schema collection (.not child)
  | relation {collection target relation quantifier grant filter}
    (known : schema.collection? relation.target.id = some target)
    (joins : Joins collection target relation)
    (grantPart : Proper schema target grant) (filterPart : Proper schema target filter) :
    Proper schema collection (.relation relation quantifier grant filter)

variable {value : RuntimeValue φ} {relation : RuntimeRelationHandle}

section Built

variable {schema : RuntimeSchema} {handle : RuntimeCollectionHandle} {field : RuntimeFieldHandle}

theorem collection?_id {id : CollectionId} {collection : RuntimeCollection}
    (found : schema.collection? id = some collection) : collection.id = id :=
  by simpa using List.find?_some found

theorem field?_id {collection : RuntimeCollection} {id : FieldId} {declared : RuntimeField}
    (found : collection.field? id = some declared) : declared.id = id :=
  by simpa using List.find?_some found

/-- A resolved field belongs to the collection of its handle. -/
theorem resolveField_ok {id : FieldId} (resolved : schema.resolveField handle id = .ok field) :
    ∃ collection, schema.collection? handle.id = some collection ∧ IsFieldOf collection field ∧
      field.id = id := by
  obtain ⟨collection, checked, rest⟩ := bind_eq_ok.mp resolved
  obtain ⟨declared, found, made⟩ := bind_eq_ok.mp rest
  obtain ⟨_, _, known⟩ := bind_eq_ok.mp checked
  have here := okOr_eq_ok.mp known
  have within := okOr_eq_ok.mp found
  cases made
  have named := field?_id within
  exact ⟨collection, here,
    ⟨(collection?_id here).symm, declared, by rw [RuntimeSchema.fieldHandle, named]; exact within,
      rfl, rfl, rfl⟩, named⟩

theorem checkFilterable_ok (checked : schema.checkFilterable handle field = .ok ()) :
    ∃ collection, schema.collection? handle.id = some collection ∧ IsFieldOf collection field := by
  obtain ⟨_, same, _⟩ := bind_eq_ok.mp checked
  rw [RuntimeSchema.checkHandle] at same
  split at same
  · cases same
  next current resolved =>
    obtain rfl : current = field := of_decide_eq_true (require_eq_ok.mp same)
    obtain ⟨collection, known, own, _⟩ := resolveField_ok resolved
    exact ⟨collection, known, own⟩

theorem validateLiteral_ok {u : Unit} (valid : validateLiteral field value = .ok u) :
    Fits field value := by
  have same := require_eq_ok.mp valid
  rwa [decide_eq_true_eq] at same

theorem checkCollection_ok (checked : schema.checkCollection handle = .ok ()) :
    ∃ collection, schema.collection? handle.id = some collection ∧
      handle.physicalTable = collection.physicalTable := by
  rw [RuntimeSchema.checkCollection] at checked
  split at checked
  · cases checked
  next current resolved =>
    obtain ⟨collection, known, made⟩ := bind_eq_ok.mp resolved
    obtain rfl : current = handle := of_decide_eq_true (require_eq_ok.mp checked)
    have here := okOr_eq_ok.mp known
    cases made
    exact ⟨collection, by rw [collection?_id here, here], rfl⟩

theorem resolveKeyPair_ok {source target : RuntimeCollectionHandle} {pair : RelationKeyPair}
    {fields : RuntimeFieldHandle × RuntimeFieldHandle}
    (resolved : schema.resolveKeyPair source target pair = .ok fields) :
    (∃ collection, schema.collection? source.id = some collection ∧ IsFieldOf collection fields.1) ∧
      ∃ collection, schema.collection? target.id = some collection ∧
        IsFieldOf collection fields.2 := by
  obtain ⟨first, left, rest⟩ := bind_eq_ok.mp resolved
  obtain ⟨second, right, made⟩ := bind_eq_ok.mp rest
  cases made
  obtain ⟨collection, known, own, _⟩ := resolveField_ok left
  obtain ⟨other, alsoKnown, alsoOwn, _⟩ := resolveField_ok right
  exact ⟨⟨collection, known, own⟩, other, alsoKnown, alsoOwn⟩

/-- A checked relation joins its two collections. -/
theorem checkRelation_ok (collection : schema.checkCollection handle = .ok ())
    (checked : schema.checkRelation handle relation = .ok ()) :
    ∃ source target, schema.collection? handle.id = some source ∧
      schema.collection? relation.target.id = some target ∧ Joins source target relation := by
  obtain ⟨source, known, table⟩ := checkCollection_ok collection
  obtain ⟨_, shape, resolved⟩ := bind_eq_ok.mp checked
  have parts := require_eq_ok.mp shape
  simp only [Bool.and_eq_true, decide_eq_true_eq, Bool.not_eq_true', List.isEmpty_eq_false_iff]
    at parts
  obtain ⟨⟨_, sourceHandle⟩, filled⟩ := parts
  split at resolved
  · cases resolved
  next current found =>
    obtain rfl : current = relation := of_decide_eq_true (require_eq_ok.mp resolved)
    obtain ⟨_, _, rest⟩ := bind_eq_ok.mp found
    obtain ⟨declared, _, rest⟩ := bind_eq_ok.mp rest
    obtain ⟨targetHandle, targetFound, rest⟩ := bind_eq_ok.mp rest
    obtain ⟨pairs, resolvedPairs, rest⟩ := bind_eq_ok.mp rest
    obtain ⟨_, _, made⟩ := bind_eq_ok.mp rest
    obtain ⟨target, targetKnown, targetMade⟩ := bind_eq_ok.mp targetFound
    have here := okOr_eq_ok.mp targetKnown
    cases targetMade
    cases made
    have there : schema.collection? target.id = some target := by rw [collection?_id here, here]
    refine ⟨source, target, known, there, by rw [← table, ← sourceHandle], rfl, filled, ?_⟩
    intro pair mem
    obtain ⟨key, _, one⟩ := mem_of_mapM_ok resolvedPairs mem
    obtain ⟨⟨owner, ownerKnown, own⟩, other, otherKnown, alsoOwn⟩ := resolveKeyPair_ok one
    rw [known] at ownerKnown
    rw [there] at otherKnown
    cases ownerKnown
    cases otherKnown
    exact ⟨own, alsoOwn⟩

theorem checkPredicate_ok {owner reported : CollectionId} {predicate : RuntimePredicate φ} {u : Unit}
    (checked : schema.checkPredicate owner reported predicate = .ok u) :
    predicate.collection = owner := by
  have parts := require_eq_ok.mp checked
  simp only [Bool.and_eq_true, decide_eq_true_eq] at parts
  exact parts.2

theorem combineParts_ok {collection : CollectionId} {predicates : List (RuntimePredicate φ)}
    {budget budget' : Budget}
    (combined : schema.combineParts collection budget predicates = .ok budget') :
    ∀ part ∈ predicates, part.collection = collection := by
  induction predicates generalizing budget with
  | nil => simp
  | cons predicate rest ih =>
    obtain ⟨_, checked, more⟩ := bind_eq_ok.mp combined
    obtain ⟨_, _, others⟩ := bind_eq_ok.mp more
    intro part mem
    rcases List.mem_cons.mp mem with rfl | later
    · exact checkPredicate_ok checked
    · exact ih others part later

def RuntimePredicate.IsProper (schema : RuntimeSchema) (predicate : RuntimePredicate φ) : Prop :=
  ∃ collection, schema.collection? predicate.collection = some collection ∧
    Proper schema collection predicate.expr

/-- One side of a relation node is a proper predicate of the target. -/
theorem relationPart_ok {target : RuntimeCollection} {id reported : CollectionId}
    (known : schema.collection? id = some target) {side : Option (RuntimePredicate φ)}
    (proper : ∀ part, side = some part → part.IsProper schema)
    {budget budget' : Budget} {expr : PredicateExpr φ}
    (made : schema.relationPart reported id budget side = .ok (expr, budget')) :
    Proper schema target expr := by
  cases side with
  | none =>
    cases made
    exact .constant
  | some part =>
    obtain ⟨_, checked, rest⟩ := bind_eq_ok.mp made
    obtain ⟨_, _, same⟩ := bind_eq_ok.mp rest
    cases same
    obtain ⟨collection, found, good⟩ := proper part rfl
    rw [checkPredicate_ok checked, known] at found
    cases found
    exact good

section Constructors

variable {limits : RuntimeQueryLimits} {predicate : RuntimePredicate φ}

theorem runtimeCompare_proper {op : RuntimeScalarOperator}
    (built : schema.runtimeCompare handle field op value limits = .ok predicate) :
    predicate.IsProper schema ∧ predicate.expr = .compare field op value := by
  obtain ⟨_, checked, rest⟩ := bind_eq_ok.mp built
  obtain ⟨_, valid, rest⟩ := bind_eq_ok.mp rest
  obtain ⟨_, supported, rest⟩ := bind_eq_ok.mp rest
  obtain ⟨_, _, made⟩ := bind_eq_ok.mp rest
  cases made
  obtain ⟨collection, known, own⟩ := checkFilterable_ok checked
  exact ⟨⟨collection, known,
    .compare own (validateLiteral_ok valid) (require_eq_ok.mp supported)⟩, rfl⟩

theorem runtimeIsNull_proper {isNull : Bool}
    (built : schema.runtimeIsNull handle field isNull limits = .ok predicate) :
    predicate.IsProper schema ∧ predicate.expr = .isNull field isNull := by
  obtain ⟨_, checked, rest⟩ := bind_eq_ok.mp built
  obtain ⟨_, _, made⟩ := bind_eq_ok.mp rest
  cases made
  obtain ⟨collection, known, own⟩ := checkFilterable_ok checked
  exact ⟨⟨collection, known, .isNull own⟩, rfl⟩

theorem runtimeList_proper {op : RuntimeListOperator} {values : List (RuntimeValue φ)}
    (built : schema.runtimeList handle field op values limits = .ok predicate) :
    predicate.IsProper schema ∧ (predicate.expr = .list field op values ∨
      predicate.expr = .constant (op = .notIn)) := by
  obtain ⟨_, checked, rest⟩ := bind_eq_ok.mp built
  obtain ⟨_, scalar, rest⟩ := bind_eq_ok.mp rest
  obtain ⟨_, _, rest⟩ := bind_eq_ok.mp rest
  obtain ⟨_, valid, made⟩ := bind_eq_ok.mp rest
  cases made
  obtain ⟨collection, known, own⟩ := checkFilterable_ok checked
  cases values with
  | nil => exact ⟨⟨collection, known, .constant⟩, .inr rfl⟩
  | cons value rest =>
    exact ⟨⟨collection, known, .list own (by simp)
      (fun v mem => validateLiteral_ok (forM_each valid v mem))
      (of_decide_eq_true (require_eq_ok.mp scalar))⟩, .inl rfl⟩

theorem runtimeBetween_proper {low high : RuntimeValue φ}
    (built : schema.runtimeBetween handle field low high limits = .ok predicate) :
    predicate.IsProper schema ∧ predicate.expr = .between field low high := by
  obtain ⟨_, checked, rest⟩ := bind_eq_ok.mp built
  obtain ⟨_, ranged, rest⟩ := bind_eq_ok.mp rest
  obtain ⟨_, lowFits, rest⟩ := bind_eq_ok.mp rest
  obtain ⟨_, highFits, rest⟩ := bind_eq_ok.mp rest
  obtain ⟨_, _, made⟩ := bind_eq_ok.mp rest
  cases made
  obtain ⟨collection, known, own⟩ := checkFilterable_ok checked
  exact ⟨⟨collection, known, .between own (validateLiteral_ok lowFits) (validateLiteral_ok highFits)
    (require_eq_ok.mp ranged)⟩, rfl⟩

theorem runtimeCombine_proper {predicates : List (RuntimePredicate φ)} {isAnd : Bool}
    (parts : ∀ part ∈ predicates, part.IsProper schema)
    (built : schema.runtimeCombine handle predicates limits isAnd = .ok predicate) :
    predicate.IsProper schema ∧ (predicate.expr = .constant isAnd ∨
      predicate.expr = .and (predicates.map (·.expr)) ∨
        predicate.expr = .or (predicates.map (·.expr))) := by
  obtain ⟨_, checked, rest⟩ := bind_eq_ok.mp built
  obtain ⟨_, combined, rest⟩ := bind_eq_ok.mp rest
  obtain ⟨_, _, made⟩ := bind_eq_ok.mp rest
  cases made
  obtain ⟨collection, known, _⟩ := checkCollection_ok checked
  have each : ∀ child ∈ predicates.map (·.expr), Proper schema collection child := by
    intro child mem
    obtain ⟨part, among, rfl⟩ := List.mem_map.mp mem
    obtain ⟨other, found, proper⟩ := parts part among
    rw [combineParts_ok combined part among, known] at found
    cases found
    exact proper
  cases predicates with
  | nil => exact ⟨⟨collection, known, .constant⟩, .inl rfl⟩
  | cons first rest =>
    cases isAnd with
    | true => exact ⟨⟨collection, known, .and (by simp) each⟩, .inr (.inl rfl)⟩
    | false => exact ⟨⟨collection, known, .or (by simp) each⟩, .inr (.inr rfl)⟩

theorem runtimeNot_proper {child : RuntimePredicate φ} (part : child.IsProper schema)
    (built : schema.runtimeNot handle child limits = .ok predicate) :
    predicate.IsProper schema ∧ predicate.expr = .not child.expr := by
  obtain ⟨_, checked, rest⟩ := bind_eq_ok.mp built
  obtain ⟨_, _, rest⟩ := bind_eq_ok.mp rest
  obtain ⟨_, _, rest⟩ := bind_eq_ok.mp rest
  obtain ⟨_, _, made⟩ := bind_eq_ok.mp rest
  cases made
  obtain ⟨collection, known, proper⟩ := part
  rw [checkPredicate_ok checked] at known
  exact ⟨⟨collection, known, .not proper⟩, rfl⟩

theorem runtimeRelationFilter_proper {quantifier : RuntimeRelationQuantifier}
    {filter targetGrant : Option (RuntimePredicate φ)}
    (filterProper : ∀ part, filter = some part → part.IsProper schema)
    (grantProper : ∀ part, targetGrant = some part → part.IsProper schema)
    (built : schema.runtimeRelationFilter handle relation quantifier filter targetGrant limits =
      .ok predicate) :
    predicate.IsProper schema ∧
      ∃ grant filter, predicate.expr = .relation relation quantifier grant filter := by
  obtain ⟨_, collection, rest⟩ := bind_eq_ok.mp built
  obtain ⟨_, related, rest⟩ := bind_eq_ok.mp rest
  obtain ⟨_, _, rest⟩ := bind_eq_ok.mp rest
  obtain ⟨⟨grant, _⟩, grantMade, rest⟩ := bind_eq_ok.mp rest
  obtain ⟨⟨filter, _⟩, filterMade, rest⟩ := bind_eq_ok.mp rest
  obtain ⟨_, _, made⟩ := bind_eq_ok.mp rest
  cases made
  obtain ⟨source, target, known, there, joins⟩ := checkRelation_ok collection related
  exact ⟨⟨source, known, .relation there joins (relationPart_ok there grantProper grantMade)
    (relationPart_ok there filterProper filterMade)⟩, grant, filter, rfl⟩

/-- Every predicate that can be built is a proper tree over its collection. -/
theorem RuntimeSchema.Builds.proper (built : schema.Builds predicate) :
    predicate.IsProper schema := by
  induction built with
  | compare built => exact (runtimeCompare_proper built).1
  | isNull built => exact (runtimeIsNull_proper built).1
  | list built => exact (runtimeList_proper built).1
  | between built => exact (runtimeBetween_proper built).1
  | combine _ built parts => exact (runtimeCombine_proper parts built).1
  | not _ built part => exact (runtimeNot_proper part built).1
  | relation _ _ built filterProper grantProper =>
    exact (runtimeRelationFilter_proper filterProper grantProper built).1

end Constructors

end Built

/-! ### What the constructors accept -/

def handleOf (schema : RuntimeSchema) (collection : RuntimeCollection) : RuntimeCollectionHandle :=
  ⟨schema.fingerprint, collection.id, collection.physicalTable⟩

section Accepted

variable {schema : RuntimeSchema} {collection target : RuntimeCollection} {field : RuntimeField}

section

variable (found : schema.collection? collection.id = some collection)
include found

theorem resolveCollection_handleOf :
    schema.resolveCollection collection.id = .ok (handleOf schema collection) := by
  rw [RuntimeSchema.resolveCollection, found]
  rfl

theorem checkCollection_handleOf :
    schema.checkCollection (handleOf schema collection) = .ok () := by
  have resolved : schema.resolveCollection (handleOf schema collection).id =
      .ok (handleOf schema collection) := resolveCollection_handleOf found
  rw [RuntimeSchema.checkCollection, resolved]
  exact require_eq_ok.mpr (decide_eq_true rfl)

theorem checkedCollection_handleOf :
    schema.checkedCollection (handleOf schema collection) = .ok collection := by
  have same : require (ε := RuntimeRecordErrorCode)
      (decide ((handleOf schema collection).schemaFingerprint = schema.fingerprint)) .schemaMismatch =
        .ok () := require_eq_ok.mpr (decide_eq_true rfl)
  rw [RuntimeSchema.checkedCollection, same]
  exact okOr_eq_ok.mpr found

theorem resolveField_handleOf (within : collection.field? field.id = some field) :
    schema.resolveField (handleOf schema collection) field.id =
      .ok (RuntimeSchema.fieldHandle (handleOf schema collection) field) := by
  rw [RuntimeSchema.resolveField, checkedCollection_handleOf found]
  simp only [bind, Except.bind, within, okOr]
  rfl

theorem checkFilterable_handleOf (within : collection.field? field.id = some field) (filterable : field.filterable = true) :
    schema.checkFilterable (handleOf schema collection)
      (RuntimeSchema.fieldHandle (handleOf schema collection) field) = .ok () := by
  have resolved : schema.resolveField (handleOf schema collection)
      (RuntimeSchema.fieldHandle (handleOf schema collection) field).id =
        .ok (RuntimeSchema.fieldHandle (handleOf schema collection) field) :=
    resolveField_handleOf found within
  have checked : schema.checkHandle (handleOf schema collection)
      (RuntimeSchema.fieldHandle (handleOf schema collection) field) = .ok () := by
    rw [RuntimeSchema.checkHandle, resolved]
    exact require_eq_ok.mpr (decide_eq_true rfl)
  rw [RuntimeSchema.checkFilterable, checked]
  exact require_eq_ok.mpr filterable

/-- A comparison with a value of the field's kind. -/
theorem runtimeCompare_handleOf (within : collection.field? field.id = some field) (filterable : field.filterable = true)
    (fits : value.kind = some field.valueKind) {op : RuntimeScalarOperator}
    (supported : compareSupported field.valueKind op = true) :
    schema.runtimeCompare (handleOf schema collection)
        (RuntimeSchema.fieldHandle (handleOf schema collection) field) op value {} =
      .ok (schema.leaf (handleOf schema collection)
        (.compare (RuntimeSchema.fieldHandle (handleOf schema collection) field) op value) 1) := by
  have valid : validateLiteral (RuntimeSchema.fieldHandle (handleOf schema collection) field) value =
      .ok () := require_eq_ok.mpr (decide_eq_true fits)
  rw [RuntimeSchema.runtimeCompare, checkFilterable_handleOf found within filterable, valid]
  simp only [bind, Except.bind, RuntimeSchema.fieldHandle, supported, require, if_true]
  rfl

end

def relationHandle (schema : RuntimeSchema) (collection target : RuntimeCollection)
    (relation : RuntimeRelation) (pairs : List (RuntimeField × RuntimeField)) :
    RuntimeRelationHandle where
  schemaFingerprint := schema.fingerprint
  source := handleOf schema collection
  id := relation.id
  target := handleOf schema target
  cardinality := relation.cardinality
  keyPairs := pairs.map fun (source, target') =>
    (RuntimeSchema.fieldHandle (handleOf schema collection) source,
      RuntimeSchema.fieldHandle (handleOf schema target) target')
  join := none

/-- A relation by one pair of fields. -/
theorem checkRelation_handleOf {relation : RuntimeRelation} {other : RuntimeField}
    (found : schema.collection? collection.id = some collection)
    (reached : schema.collection? target.id = some target)
    (declared : collection.relations.find? (·.id == relation.id) = some relation)
    (shape : relation.target = target.id ∧ relation.join = none ∧
      relation.keyPairs = [⟨field.id, other.id⟩])
    (own : collection.field? field.id = some field) (theirs : target.field? other.id = some other) :
    schema.checkRelation (handleOf schema collection)
      (relationHandle schema collection target relation [(field, other)]) = .ok () := by
  obtain ⟨toTarget, direct, keys⟩ := shape
  have resolved : schema.resolveRelation (handleOf schema collection) relation.id =
      .ok (relationHandle schema collection target relation [(field, other)]) := by
    rw [RuntimeSchema.resolveRelation, checkedCollection_handleOf found]
    simp only [bind, Except.bind, declared, okOr, toTarget, resolveCollection_handleOf reached, keys,
      List.mapM_cons, RuntimeSchema.resolveKeyPair, resolveField_handleOf found own,
      resolveField_handleOf reached theirs, direct]
    rfl
  refine bind_eq_ok.mpr ⟨(), require_eq_ok.mpr (by simp [relationHandle]), ?_⟩
  dsimp only [relationHandle] at resolved ⊢
  rw [resolved]
  exact require_eq_ok.mpr (decide_eq_true rfl)

end Accepted

end GraphqlOrm.Runtime
