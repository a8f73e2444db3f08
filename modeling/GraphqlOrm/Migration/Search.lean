import GraphqlOrm.Migration.CreateTable

/-!
# Search storage

The managed helper tables of a search index, and the metadata row that records
its whole definition as JSON.
-/
namespace GraphqlOrm.Migration

open Schema Text

/-! ### Names of the helper tables -/

def sanitizeSearchName (value : String) : String :=
  String.ofList (value.toList.map fun c => if c.isAlphanum || c == '_' then c else '_')

def searchTableName (tableName : String) : String :=
  "__graphql_orm_search_" ++ sanitizeSearchName tableName

def sqliteFtsTableName (tableName : String) : String :=
  "__graphql_orm_fts_" ++ sanitizeSearchName tableName

def searchTokenTableName (tableName : String) : String :=
  "__graphql_orm_search_token_" ++ sanitizeSearchName tableName

def searchMetadataTableName : String := "__graphql_orm_search_metadata"

/-! ### The configuration of an index -/

def quotedMember (value : String) : String := "\"" ++ replace '"' ['\\', '"'] value ++ "\""

def optionalMember (value : Option String) : String := (value.map quotedMember).getD "null"

def jsonOptionString (value : Option String) : String := (value.map jsonString).getD "null"

def jsonObject (members : List (String × String)) : String :=
  "\x7b" ++ join "," (members.map fun (key, value) => "\"" ++ key ++ "\":" ++ value) ++ "\x7d"

def jsonArray (values : List String) : String := "[" ++ join "," values ++ "]"

def searchFieldJson (field : SearchFieldModel) : String :=
  jsonObject [("field", quotedMember field.fieldName), ("column", quotedMember field.columnName),
    ("weight", quotedMember field.weight.asStr), ("alias", optionalMember field.alias),
    ("policy", optionalMember field.policy)]

def searchJsonPathJson (jsonPath : SearchJsonPathModel) : String :=
  jsonObject [("field", quotedMember jsonPath.fieldName),
    ("column", quotedMember jsonPath.columnName), ("path", quotedMember jsonPath.path),
    ("weight", quotedMember jsonPath.weight.asStr), ("policy", jsonOptionString jsonPath.policy)]

def searchRelationJson (relation : SearchRelationFieldModel) : String :=
  jsonObject [("relation", quotedMember relation.relationField),
    ("target", quotedMember relation.targetType),
    ("fields", jsonArray (relation.fields.map quotedMember)),
    ("weight", quotedMember relation.weight.asStr), ("max_items", Nat.repr relation.maxItems),
    ("policy", optionalMember relation.policy)]

/-- A readiness-tracked index starts as `building`; other indexes keep their
earlier form. -/
def searchIndexConfigJson (index : SearchIndexModel) : String :=
  jsonObject ([("name", quotedMember index.name), ("table", quotedMember index.tableName),
    ("entity", quotedMember index.entityName), ("primary_key", quotedMember index.primaryKey),
    ("strategy", quotedMember index.strategy.asStr), ("language", quotedMember index.language),
    ("tokenizer", quotedMember index.tokenizer), ("min_token_len", Nat.repr index.minTokenLen),
    ("fallback_enabled", if index.fallbackEnabled then "true" else "false"),
    ("fields", jsonArray (index.fields.map searchFieldJson)),
    ("json_paths", jsonArray (index.jsonPaths.map searchJsonPathJson)),
    ("relations", jsonArray (index.relations.map searchRelationJson))] ++
    if index.readinessTracked then [("readiness", "\"building\"")] else [])

end GraphqlOrm.Migration
