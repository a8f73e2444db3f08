import GraphqlOrm.Foundation.Outcome
import GraphqlOrm.Runtime.Identity

/-!
# Runtime values, handles and records

The values of runtime fields, and the trusted handles that a schema resolves for its
collections, fields and relations.
-/
namespace GraphqlOrm.Runtime

open Outcome

/-! ### Values -/

/-- A decimal at the scale of its definition. -/
structure DecimalValue where
  mantissa : Int
  definition : DecimalDef
deriving DecidableEq

def twoDigits (cs : List Char) (i : Nat) : Bool :=
  ((cs.drop i).take 2).length == 2 && ((cs.drop i).take 2).all Char.isDigit

/-- `YYYY-MM-DDTHH:MM:SS.ffffffZ`. -/
def isPlainDateTime (text : String) : Bool :=
  let cs := text.toList
  cs.length == 27 && [0, 2, 5, 8, 11, 14, 17, 20, 22, 24].all (twoDigits cs) &&
    [(4, '-'), (7, '-'), (10, 'T'), (13, ':'), (16, ':'), (19, '.'), (26, 'Z')].all
      fun (i, c) => cs[i]? == some c

/-- A canonical UTC date-time. A year of more than four digits, or before the year zero, is
written with its sign and makes the text longer. -/
structure RuntimeDateTime where
  text : String
  canonical : (text.length = 27 → isPlainDateTime text = true) := by decide
deriving DecidableEq

/-- Finite floating-point numbers are left open: `φ` is any type of them. -/
inductive RuntimeValue (φ : Type) where
  | null
  | boolean (value : Bool)
  | integer (value : Int)
  | float (value : φ)
  | string (value : String)
  | uuid (bytes : List UInt8)
  | json (value : Json.Value String)
  | bytes (value : List UInt8)
  | dateTime (value : RuntimeDateTime)
  | decimal (value : DecimalValue)
deriving DecidableEq

namespace RuntimeValue

variable {φ : Type}

def kind : RuntimeValue φ → Option RuntimeValueKind
  | null => none
  | boolean _ => some .boolean
  | integer _ => some .integer
  | float _ => some .float
  | string _ => some .string
  | uuid _ => some .uuid
  | json _ => some .json
  | bytes _ => some .bytes
  | dateTime _ => some .dateTime
  | decimal value => some (.decimal value.definition)

@[simp] theorem kind_eq_none {value : RuntimeValue φ} : value.kind = none ↔ value = null := by
  cases value <;> simp [kind]

end RuntimeValue

/-! ### Handles -/

inductive RuntimeRecordErrorCode where
  | unknownCollection | unknownField | unknownRelation | crossCollectionField
  | duplicateProjectionField | emptyProjection | schemaMismatch | fieldUnloaded | nullValue
  | wrongValueKind | nonNullableNull | missingColumn | backendTypeMismatch | invalidValue
  | unsupportedBackend | invalidRecord

structure RuntimeCollectionHandle where
  schemaFingerprint : SchemaFingerprint
  id : CollectionId
  physicalTable : String
deriving DecidableEq

structure RuntimeFieldHandle where
  schemaFingerprint : SchemaFingerprint
  collection : CollectionId
  id : FieldId
  physicalColumn : String
  valueKind : RuntimeValueKind
  nullable : Bool
  filterable : Bool
  sortable : Bool
  format : Option RuntimeFieldFormat
  autoTimestamp : Option RuntimeAutoTimestamp
  autoActor : Option RuntimeAutoActor
deriving DecidableEq

structure RuntimeJoinHandle where
  physicalTable : String
  source : List (RuntimeFieldHandle × String)
  target : List (RuntimeFieldHandle × String)
deriving DecidableEq

structure RuntimeRelationHandle where
  schemaFingerprint : SchemaFingerprint
  source : RuntimeCollectionHandle
  id : RelationId
  target : RuntimeCollectionHandle
  cardinality : RelationCardinality
  keyPairs : List (RuntimeFieldHandle × RuntimeFieldHandle)
  join : Option RuntimeJoinHandle
deriving DecidableEq

namespace RuntimeSchema

variable (schema : RuntimeSchema)

def resolveCollection (id : CollectionId) :
    Except RuntimeRecordErrorCode RuntimeCollectionHandle := do
  let collection ← okOr .unknownCollection (schema.collection? id)
  return ⟨schema.fingerprint, collection.id, collection.physicalTable⟩

def checkedCollection (handle : RuntimeCollectionHandle) :
    Except RuntimeRecordErrorCode RuntimeCollection := do
  require (handle.schemaFingerprint = schema.fingerprint) .schemaMismatch
  okOr .unknownCollection (schema.collection? handle.id)

def fieldHandle (collection : RuntimeCollectionHandle) (field : RuntimeField) :
    RuntimeFieldHandle where
  schemaFingerprint := collection.schemaFingerprint
  collection := collection.id
  id := field.id
  physicalColumn := field.physicalColumn
  valueKind := field.valueKind
  nullable := field.nullable
  filterable := field.filterable
  sortable := field.sortable
  format := field.format
  autoTimestamp := field.autoTimestamp
  autoActor := field.autoActor

def resolveField (collection : RuntimeCollectionHandle) (id : FieldId) :
    Except RuntimeRecordErrorCode RuntimeFieldHandle := do
  let resolved ← schema.checkedCollection collection
  let field ← okOr .unknownField (resolved.field? id)
  return fieldHandle collection field

def resolveKeyPair (source target : RuntimeCollectionHandle) (pair : RelationKeyPair) :
    Except RuntimeRecordErrorCode (RuntimeFieldHandle × RuntimeFieldHandle) := do
  let sourceField ← schema.resolveField source pair.source
  let targetField ← schema.resolveField target pair.target
  return (sourceField, targetField)

def resolveJoinColumn (owner : RuntimeCollectionHandle) (column : RuntimeJoinColumn) :
    Except RuntimeRecordErrorCode (RuntimeFieldHandle × String) := do
  let field ← schema.resolveField owner column.field
  return (field, column.column)

def resolveJoin (source target : RuntimeCollectionHandle) (table : RuntimeJoinTable) :
    Except RuntimeRecordErrorCode RuntimeJoinHandle := do
  let sourceColumns ← table.source.mapM (schema.resolveJoinColumn source)
  let targetColumns ← table.target.mapM (schema.resolveJoinColumn target)
  return ⟨table.physicalTable, sourceColumns, targetColumns⟩

def resolveRelation (source : RuntimeCollectionHandle) (id : RelationId) :
    Except RuntimeRecordErrorCode RuntimeRelationHandle := do
  let sourceCollection ← schema.checkedCollection source
  let relation ← okOr .unknownRelation (sourceCollection.relations.find? (·.id == id))
  let target ← schema.resolveCollection relation.target
  let keyPairs ← relation.keyPairs.mapM (schema.resolveKeyPair source target)
  let table ← relation.join.mapM (schema.resolveJoin source target)
  return ⟨schema.fingerprint, source, relation.id, target, relation.cardinality, keyPairs, table⟩

end RuntimeSchema

/-! ### Projections and records -/

structure RuntimeProjection where
  schemaFingerprint : SchemaFingerprint
  collection : RuntimeCollectionHandle
  fields : List RuntimeFieldHandle
  collectionFieldKinds : OrderedMap FieldId RuntimeValueKind

/-- The checks of one member of a projection; `seen` are the members before it. -/
def RuntimeSchema.resolveMember (schema : RuntimeSchema) (collection : RuntimeCollectionHandle)
    (seen : List FieldId) (field : RuntimeFieldHandle) : Except RuntimeRecordErrorCode Unit := do
  require (field.schemaFingerprint = collection.schemaFingerprint) .schemaMismatch
  require (field.collection = collection.id) .crossCollectionField
  require (!seen.contains field.id) .duplicateProjectionField
  let current ← schema.resolveField collection field.id
  require (current = field) .schemaMismatch

def RuntimeSchema.resolveMembers (schema : RuntimeSchema) (collection : RuntimeCollectionHandle) :
    List FieldId → List RuntimeFieldHandle → Except RuntimeRecordErrorCode Unit
  | _, [] => .ok ()
  | seen, field :: rest => do
    schema.resolveMember collection seen field
    schema.resolveMembers collection (field.id :: seen) rest

def RuntimeSchema.resolveProjection (schema : RuntimeSchema) (collection : RuntimeCollectionHandle)
    (fields : List RuntimeFieldHandle) : Except RuntimeRecordErrorCode RuntimeProjection := do
  let resolved ← schema.checkedCollection collection
  require (!fields.isEmpty) .emptyProjection
  schema.resolveMembers collection [] fields
  return ⟨collection.schemaFingerprint, collection, fields,
    resolved.fields.foldl (fun kinds field => kinds.insert field.id field.valueKind)
      OrderedMap.empty⟩

structure RuntimeRecord (φ : Type) where
  schemaFingerprint : SchemaFingerprint
  collection : CollectionId
  fieldKinds : OrderedMap FieldId RuntimeValueKind
  values : OrderedMap FieldId (RuntimeValue φ)

inductive RuntimeFieldState (φ : Type) where
  | unloaded
  | null
  | value (value : RuntimeValue φ)

namespace RuntimeRecord

variable {φ : Type} (record : RuntimeRecord φ)

def checkedField (field : RuntimeFieldHandle) :
    Except RuntimeRecordErrorCode (Option (RuntimeValue φ)) := do
  require (field.schemaFingerprint = record.schemaFingerprint) .schemaMismatch
  require (field.collection = record.collection) .crossCollectionField
  let kind ← okOr .unknownField (record.fieldKinds.get? field.id)
  require (kind = field.valueKind) .schemaMismatch
  return record.values.get? field.id

def state (field : RuntimeFieldHandle) : Except RuntimeRecordErrorCode (RuntimeFieldState φ) := do
  match ← record.checkedField field with
  | none => return .unloaded
  | some .null => return .null
  | some value => return .value value

end RuntimeRecord

end GraphqlOrm.Runtime
