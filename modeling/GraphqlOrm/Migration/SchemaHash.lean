import GraphqlOrm.Foundation.Records
import GraphqlOrm.Foundation.StableSort
import GraphqlOrm.Migration.CreateTable

/-!
# The schema hash

`stable_schema_view_hash`: a schema is written down as lines of text, sorted by
name within each kind, and the text is hashed. Values are joined by separators as
they are, without escaping.
-/
namespace GraphqlOrm.Migration

open Schema Text

def taggedLine (tag : String) (fields : List String) : String := tag ++ ":" ++ join "|" fields

/-! ### The fields of each kind of line -/

def tableFields (table : TableModel) : List String :=
  [table.entityName, table.tableName, table.primaryKey, join "," table.primaryKeyColumns,
    table.defaultSort, if table.appendOnly then "append_only" else "mutable"] ++
  if table.retentionPurge then ["retention_purge"] else []

/-- The canonical tokens of a check, or its expression when it has none. -/
def checkText (constraint : CheckConstraintModel) : String :=
  ((canonicalCheckTokens constraint.expression).map (join "|")).getD constraint.expression

def spatialText (spatial : SpatialColumnDef) : String :=
  spatial.kind.asSql ++ ":" ++ spatial.geometryType.asSql ++ ":" ++ Int.repr spatial.srid.toInt

def columnFields (column : ColumnModel) : List String :=
  [column.name, column.sqlType, if column.nullable then "nullable" else "not_null",
    if column.isPrimaryKey then "pk" else "not_pk",
    if column.isUnique then "unique" else "not_unique",
    (column.default.map canonicalizeColumnDefaultExpression).getD "",
    (column.spatial.map spatialText).getD ""]

def indexMethodText : IndexMethod → String
  | .default => "default"
  | .gist => "gist"

def predicateText : Option IndexPredicateModel → String
  | some predicate => "where_in:" ++ predicate.column ++ ":" ++ join "," predicate.values
  | none => "no_predicate"

def directionsText (index : IndexModel) : String :=
  unlines ',' ((List.range index.columns.length).map fun i => (index.directionAt i).asSql)

def indexFields (index : IndexModel) : List String :=
  [index.name, join "," index.columns, directionsText index,
    if index.isUnique then "unique" else "index", indexMethodText index.method,
    if index.isSpatial then "spatial" else "not_spatial", predicateText index.predicate]

def searchFieldFields (field : SearchFieldModel) : List String :=
  [field.fieldName, field.columnName, field.weight.asStr, field.alias.getD "",
    field.policy.getD ""]

def searchJsonPathFields (jsonPath : SearchJsonPathModel) : List String :=
  [jsonPath.fieldName, jsonPath.columnName, jsonPath.path, jsonPath.weight.asStr,
    jsonPath.policy.getD ""]

def searchRelationFields (relation : SearchRelationFieldModel) : List String :=
  [relation.relationField, relation.targetType, join "," relation.fields, relation.weight.asStr,
    Nat.repr relation.maxItems, relation.policy.getD ""]

def searchIndexFields (index : SearchIndexModel) : List String :=
  [index.name, index.strategy.asStr, index.language, index.tokenizer, Nat.repr index.minTokenLen,
    if index.fallbackEnabled then "fallback" else "native_only"]

def pairText (pair : ForeignKeyColumnPairModel) : String :=
  pair.sourceColumn ++ "->" ++ pair.targetColumn

def foreignKeyFields (foreignKey : ForeignKeyModel) : List String :=
  [foreignKey.targetTable,
    unlines ',' (foreignKey.columnPairs.map pairText) ++ foreignKey.onDelete.asSql]

/-! ### The lines of a schema -/

def checkLines (constraints : List CheckConstraintModel) : List String :=
  ((constraints.map checkText).insertionSort (· ≤ ·)).map fun text => taggedLine "check" [text]

def columnLines (columns : List ColumnModel) : List String :=
  (sortBy ColumnModel.name columns).map fun column => taggedLine "column" (columnFields column)

def indexLines (indexes : List IndexModel) : List String :=
  (sortBy IndexModel.name indexes).map fun index => taggedLine "index" (indexFields index)

def jsonPathKey (jsonPath : SearchJsonPathModel) : String ×ₗ String :=
  toLex (jsonPath.fieldName, jsonPath.path)

def searchIndexLines (index : SearchIndexModel) : List String :=
  taggedLine "search_index" (searchIndexFields index) ::
    ((sortBy SearchFieldModel.fieldName index.fields).map (fun field =>
        taggedLine "search_field" (searchFieldFields field)) ++
      (sortBy jsonPathKey index.jsonPaths).map (fun jsonPath =>
        taggedLine "search_json_path" (searchJsonPathFields jsonPath)) ++
      (sortBy SearchRelationFieldModel.relationField index.relations).map fun relation =>
        taggedLine "search_relation" (searchRelationFields relation))

def searchLines (indexes : List SearchIndexModel) : List String :=
  (sortBy SearchIndexModel.name indexes).flatMap searchIndexLines

def foreignKeyLines (foreignKeys : List ForeignKeyModel) : List String :=
  (sortBy ForeignKeyModel.identity foreignKeys).map fun foreignKey =>
    taggedLine "foreign_key" (foreignKeyFields foreignKey)

def tableLines (table : TableModel) : List String :=
  taggedLine "table" (tableFields table) ::
    (checkLines table.checkConstraints ++ columnLines table.columns ++ indexLines table.indexes ++
      searchLines table.searchIndexes ++ foreignKeyLines table.foreignKeys)

def extensionLines (extensions : List String) : List String :=
  (extensions.insertionSort (· ≤ ·)).map fun extension => taggedLine "extension" [extension]

def canonicalLines (schema : SchemaModel) : List String :=
  extensionLines schema.extensions ++
    (sortBy TableModel.tableName schema.tables).flatMap tableLines

def canonicalText (schema : SchemaModel) : String := unlines '\n' (canonicalLines schema)

def stableSchemaViewHash (schema : SchemaModel) : String :=
  hex64 (fnv1a64 ((canonicalText schema).toList.flatMap String.utf8EncodeChar))

end GraphqlOrm.Migration
