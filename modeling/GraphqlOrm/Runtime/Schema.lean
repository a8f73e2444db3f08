import GraphqlOrm.Foundation.JsonText
import GraphqlOrm.Schema.Model

/-!
# The runtime schema

The owned, backend-neutral schema that a host loads at run time: collections with their
fields, relations, indexes and search, referenced through stable IDs.
-/
namespace GraphqlOrm.Runtime

open Schema (DeletePolicy)

abbrev CollectionId := String
abbrev FieldId := String
abbrev RelationId := String
abbrev IndexId := String

/-! ### Fields -/

structure DecimalDef where
  precision : Nat
  scale : Nat
  mssqlMoney : Bool := false
deriving DecidableEq

inductive RuntimeValueKind where
  | boolean | integer | float | string | uuid | json | bytes | dateTime
  | decimal (definition : DecimalDef)
deriving DecidableEq

namespace RuntimeValueKind

def asStr : RuntimeValueKind → String
  | boolean => "boolean"
  | integer => "integer"
  | float => "float"
  | string => "string"
  | uuid => "uuid"
  | json => "json"
  | bytes => "bytes"
  | dateTime => "datetime"
  | decimal _ => "decimal"

def canonicalName : RuntimeValueKind → String
  | decimal definition =>
    "decimal(" ++ definition.precision.repr ++ "," ++ definition.scale.repr ++ ")"
  | kind => kind.asStr

end RuntimeValueKind

inductive RuntimeDefault where
  | literal (value : String)
  | currentTimestamp

/-- A semantic descriptor. Its payload is an object with sorted keys and integer numbers. -/
structure RuntimeFieldFormat where
  «namespace» : String
  version : Nat
  payload : Json.Value String
deriving DecidableEq

def RuntimeFieldFormat.canonical (format : RuntimeFieldFormat) : String :=
  format.namespace ++ "@" ++ format.version.repr ++ ":" ++ format.payload.write

inductive RuntimeAutoTimestamp where
  | onCreate | onCreateAndUpdate
deriving DecidableEq

def RuntimeAutoTimestamp.asStr : RuntimeAutoTimestamp → String
  | onCreate => "on_create"
  | onCreateAndUpdate => "on_create_and_update"

inductive RuntimeAutoActor where
  | onCreate
deriving DecidableEq

def RuntimeAutoActor.asStr : RuntimeAutoActor → String
  | onCreate => "on_create"

/-- From the weakest to the strongest. -/
inductive GraphqlSemanticClassification where
  | «public» | «internal» | confidential | restricted | secret

namespace GraphqlSemanticClassification

def token : GraphqlSemanticClassification → String
  | «public» => "public"
  | «internal» => "internal"
  | confidential => "confidential"
  | restricted => "restricted"
  | secret => "secret"

end GraphqlSemanticClassification

inductive GraphqlSemanticExport where
  | exportable | neverExport

def GraphqlSemanticExport.token : GraphqlSemanticExport → String
  | exportable => "exportable"
  | neverExport => "never_export"

structure RuntimeField where
  id : FieldId
  apiName : String
  physicalColumn : String
  valueKind : RuntimeValueKind
  nullable : Bool := false
  unique : Bool := false
  filterable : Bool := true
  sortable : Bool := true
  generated : Bool := false
  default : Option RuntimeDefault := none
  format : Option RuntimeFieldFormat := none
  description : Option String := none
  classification : Option GraphqlSemanticClassification := none
  «export» : Option GraphqlSemanticExport := none
  autoTimestamp : Option RuntimeAutoTimestamp := none
  autoActor : Option RuntimeAutoActor := none

/-! ### Relations -/

inductive RelationCardinality where
  | one | many
deriving DecidableEq

def RelationCardinality.asStr : RelationCardinality → String
  | one => "one"
  | many => "many"

structure RelationKeyPair where
  source : FieldId
  target : FieldId

structure RuntimeJoinColumn where
  field : FieldId
  column : String

/-- The link table of a many-to-many relation. -/
structure RuntimeJoinTable where
  physicalTable : String
  source : List RuntimeJoinColumn
  target : List RuntimeJoinColumn

structure RuntimeRelation where
  id : RelationId
  apiName : String
  target : CollectionId
  keyPairs : List RelationKeyPair
  cardinality : RelationCardinality
  enforceForeignKey : Bool := false
  onDelete : Option DeletePolicy := none
  description : Option String := none
  classification : Option GraphqlSemanticClassification := none
  «export» : Option GraphqlSemanticExport := none
  join : Option RuntimeJoinTable := none

/-! ### Indexes, orders and search -/

structure RuntimeIndex where
  id : IndexId
  name : String
  fields : List FieldId
  unique : Bool

inductive RuntimeOrderDirection where
  | asc | desc
deriving DecidableEq

def RuntimeOrderDirection.asStr : RuntimeOrderDirection → String
  | asc => "asc"
  | desc => "desc"

structure RuntimeOrderTerm where
  field : FieldId
  direction : RuntimeOrderDirection

inductive RuntimeSearchWeight where
  | a | b | c | d

def RuntimeSearchWeight.asStr : RuntimeSearchWeight → String
  | a => "A"
  | b => "B"
  | c => "C"
  | d => "D"

inductive RuntimeSearchTokenizer where
  | unicode61 | porter | ascii

def RuntimeSearchTokenizer.asStr : RuntimeSearchTokenizer → String
  | unicode61 => "unicode61"
  | porter => "porter"
  | ascii => "ascii"

structure RuntimeSearchField where
  field : FieldId
  weight : RuntimeSearchWeight
  jsonPath : Option String := none

structure RuntimeSearch where
  fields : List RuntimeSearchField
  language : Option String := none
  tokenizer : Option RuntimeSearchTokenizer := none
  removeDiacritics : Bool := false
  minTokenLen : Option Nat := none

namespace RuntimeSearch

def effectiveLanguage (search : RuntimeSearch) : String := search.language.getD "english"

def effectiveTokenizer (search : RuntimeSearch) : RuntimeSearchTokenizer :=
  search.tokenizer.getD .unicode61

def effectiveMinTokenLen (search : RuntimeSearch) : Nat := search.minTokenLen.getD 2

end RuntimeSearch

/-! ### Collections -/

structure RuntimeCollection where
  id : CollectionId
  apiTypeName : String
  apiPluralName : String
  physicalTable : String
  primaryKey : List FieldId
  appendOnly : Bool := false
  retentionPurge : Bool := false
  fields : List RuntimeField
  relations : List RuntimeRelation := []
  indexes : List RuntimeIndex := []
  compositeUnique : List (List FieldId) := []
  defaultOrder : List RuntimeOrderTerm := []
  description : Option String := none
  classification : Option GraphqlSemanticClassification := none
  labelFields : List FieldId := []
  search : Option RuntimeSearch := none

def RUNTIME_SCHEMA_FORMAT_VERSION : Nat := 1

structure RuntimeSchema where
  formatVersion : Nat := RUNTIME_SCHEMA_FORMAT_VERSION
  collections : List RuntimeCollection

namespace RuntimeCollection

def field? (collection : RuntimeCollection) (id : FieldId) : Option RuntimeField :=
  collection.fields.find? (·.id == id)

end RuntimeCollection

def RuntimeSchema.collection? (schema : RuntimeSchema) (id : CollectionId) :
    Option RuntimeCollection :=
  schema.collections.find? (·.id == id)

end GraphqlOrm.Runtime
