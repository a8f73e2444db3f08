import GraphqlOrm.Foundation.Bytes
import GraphqlOrm.Migration.SchemaHash
import GraphqlOrm.Runtime.Schema

/-!
# Schema identity

The canonical text of a runtime schema, with stable IDs or with names in their place,
and the fingerprints computed from it.
-/
namespace GraphqlOrm.Runtime

open Schema (DeletePolicy)
open Text (join jsonString)

section Members

def optionalMember {α : Type} (key : String) (render : α → String) : Option α → String
  | none => ""
  | some a => "|" ++ key ++ "=" ++ render a

def semanticMembers (description : Option String)
    (classification : Option GraphqlSemanticClassification)
    («export» : Option GraphqlSemanticExport) : String :=
  optionalMember "description" jsonString description ++
    optionalMember "classification" GraphqlSemanticClassification.token classification ++
    optionalMember "export" GraphqlSemanticExport.token «export»

def jsonStrings (ss : List String) : String := "[" ++ join "," (ss.map jsonString) ++ "]"

def boolText (b : Bool) : String := if b then "true" else "false"

def RuntimeDefault.text : Option RuntimeDefault → String
  | none => "none"
  | some (.literal value) => "literal:" ++ jsonString value
  | some .currentTimestamp => "current_timestamp"

def onDeleteText (policy : Option DeletePolicy) : String :=
  policy.elim "none" fun p => Text.lower p.asSql

end Members

namespace RuntimeSchema

variable (schema : RuntimeSchema) (withIds : Bool)

def fieldRef (collection : CollectionId) (field : FieldId) : String :=
  if withIds then field
  else ((schema.collection? collection).bind (·.field? field)).elim "" (·.physicalColumn)

def fieldRefs (collection : CollectionId) (fields : List FieldId) : String :=
  join "," (fields.map (schema.fieldRef withIds collection))

def idMember (id : String) : String := if withIds then "|id=" ++ id else ""

def collectionLine (collection : RuntimeCollection) : String :=
  "collection" ++ idMember withIds collection.id ++
    "|type=" ++ collection.apiTypeName ++ "|plural=" ++ collection.apiPluralName ++
    "|table=" ++ collection.physicalTable ++ "|append_only=" ++ boolText collection.appendOnly ++
    (if collection.retentionPurge then "|retention_purge=true" else "") ++
    if withIds then
      semanticMembers collection.description collection.classification none ++
        if collection.labelFields.isEmpty then ""
        else "|label=" ++ jsonStrings collection.labelFields
    else ""

def primaryKeyLine (collection : RuntimeCollection) : String :=
  "  primary_key|" ++ schema.fieldRefs withIds collection.id collection.primaryKey

def fieldLine (field : RuntimeField) : String :=
  "  field" ++ idMember withIds field.id ++
    "|api=" ++ field.apiName ++ "|column=" ++ field.physicalColumn ++
    "|kind=" ++ field.valueKind.canonicalName ++ "|nullable=" ++ boolText field.nullable ++
    "|unique=" ++ boolText field.unique ++ "|filterable=" ++ boolText field.filterable ++
    "|sortable=" ++ boolText field.sortable ++ "|generated=" ++ boolText field.generated ++
    "|default=" ++ RuntimeDefault.text field.default ++
    optionalMember "auto_timestamp" RuntimeAutoTimestamp.asStr field.autoTimestamp ++
    optionalMember "auto_actor" RuntimeAutoActor.asStr field.autoActor ++
    if withIds then
      optionalMember "format" (fun format => jsonString format.canonical) field.format ++
        semanticMembers field.description field.classification field.export
    else ""

def keyPairText (source target : CollectionId) (pair : RelationKeyPair) : String :=
  schema.fieldRef withIds source pair.source ++ "=" ++ schema.fieldRef withIds target pair.target

def joinColumnText (owner : CollectionId) (column : RuntimeJoinColumn) : String :=
  schema.fieldRef withIds owner column.field ++ "=" ++ column.column

def joinMember (source target : CollectionId) (table : RuntimeJoinTable) : String :=
  "|join=" ++ table.physicalTable ++
    "|join_source=" ++ join "," (table.source.map (schema.joinColumnText withIds source)) ++
    "|join_target=" ++ join "," (table.target.map (schema.joinColumnText withIds target))

def relationTarget (target : CollectionId) : String :=
  if withIds then target else (schema.collection? target).elim "" (·.apiTypeName)

def relationLine (collection : CollectionId) (relation : RuntimeRelation) : String :=
  "  relation" ++ idMember withIds relation.id ++
    "|api=" ++ relation.apiName ++ "|target=" ++ schema.relationTarget withIds relation.target ++
    "|keys=" ++
      join "," (relation.keyPairs.map (schema.keyPairText withIds collection relation.target)) ++
    "|cardinality=" ++ relation.cardinality.asStr ++
    "|fk=" ++ boolText relation.enforceForeignKey ++
    "|on_delete=" ++ onDeleteText relation.onDelete ++
    relation.join.elim "" (schema.joinMember withIds collection relation.target) ++
    if withIds then
      semanticMembers relation.description relation.classification relation.export
    else ""

def indexLine (collection : CollectionId) (index : RuntimeIndex) : String :=
  "  index" ++ idMember withIds index.id ++
    "|name=" ++ index.name ++ "|fields=" ++ schema.fieldRefs withIds collection index.fields ++
    "|unique=" ++ boolText index.unique

def orderTermText (collection : CollectionId) (term : RuntimeOrderTerm) : String :=
  schema.fieldRef withIds collection term.field ++ " " ++ term.direction.asStr

def searchFieldLine (collection : CollectionId) (entry : RuntimeSearchField) : String :=
  "  search_field|" ++ schema.fieldRef withIds collection entry.field ++
    "|weight=" ++ entry.weight.asStr ++ "|path=" ++ entry.jsonPath.elim "null" jsonString

def searchLines (collection : CollectionId) (search : RuntimeSearch) : List String :=
  ("  search|language=" ++ search.effectiveLanguage ++
      "|tokenizer=" ++ search.effectiveTokenizer.asStr ++
      "|remove_diacritics=" ++ boolText search.removeDiacritics ++
      "|min_token_len=" ++ search.effectiveMinTokenLen.repr) ::
    search.fields.map (schema.searchFieldLine withIds collection)

/-- The order of declarations never shows: the parts of a collection are sorted by their
IDs, or by their names where IDs are left out. -/
def collectionLines (collection : RuntimeCollection) : List String :=
  collectionLine withIds collection :: schema.primaryKeyLine withIds collection ::
    ((sortBy (fun f => if withIds then f.id else f.apiName) collection.fields).map
        (fieldLine withIds) ++
      (sortBy (fun r => if withIds then r.id else r.apiName) collection.relations).map
        (schema.relationLine withIds collection.id) ++
      (sortBy (fun i => if withIds then i.id else i.name) collection.indexes).map
        (schema.indexLine withIds collection.id) ++
      (sortBy id (collection.compositeUnique.map (schema.fieldRefs withIds collection.id))).map
        ("  composite_unique|" ++ ·) ++
      (if collection.defaultOrder.isEmpty then []
        else ["  default_order|" ++
          join "," (collection.defaultOrder.map (schema.orderTermText withIds collection.id))]) ++
      collection.search.elim [] (schema.searchLines withIds collection.id))

def renderLines : List String :=
  "runtime-schema v1" ::
    (sortBy (fun c => if withIds then c.id else c.apiTypeName) schema.collections).flatMap
      (schema.collectionLines withIds)

def render : String := String.join ((schema.renderLines withIds).map (· ++ "\n"))

def canonicalBytes : List UInt8 := Bytes.utf8 (schema.render true)

end RuntimeSchema

abbrev SchemaFingerprint := String

def RuntimeSchema.fingerprint (schema : RuntimeSchema) : SchemaFingerprint :=
  Migration.hex64 (Migration.fnv1a64 schema.canonicalBytes)

def RuntimeSchema.structuralFingerprint (schema : RuntimeSchema) : SchemaFingerprint :=
  Migration.hex64 (Migration.fnv1a64 (Bytes.utf8 (schema.render false)))

end GraphqlOrm.Runtime
