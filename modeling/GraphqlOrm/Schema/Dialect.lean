import GraphqlOrm.Foundation.Text
import GraphqlOrm.Schema.Model

/-!
# Identifiers in generated SQL

How a backend writes a name: bare when it is a plain, unreserved identifier,
delimited otherwise. Names that arrive delimited pass through unchanged.
-/
namespace GraphqlOrm.Schema

open Text

namespace DatabaseBackend

def name : DatabaseBackend → String
  | sqlite => "sqlite"
  | postgres => "postgres"
  | mysql => "mysql"
  | mssql => "mssql"

/-- A bind parameter: by number where the backend has numbers, else by position. -/
def placeholder : DatabaseBackend → Nat → String
  | postgres, index => "$" ++ index.repr
  | mssql, index => "@P" ++ index.repr
  | sqlite, _ => "?"
  | mysql, _ => "?"

def sqliteReservedIdentifiers : List String :=
  ["add", "all", "alter", "and", "as", "autoincrement", "between", "case", "cast", "check",
    "collate", "commit", "constraint", "create", "current_date", "current_time",
    "current_timestamp", "default", "deferrable", "delete", "distinct", "drop", "else", "escape",
    "except", "exists", "foreign", "from", "group", "having", "if", "in", "index", "insert",
    "intersect", "into", "is", "isnull", "join", "limit", "not", "nothing", "notnull", "null",
    "on", "or", "order", "primary", "raise", "references", "returning", "select", "set", "table",
    "then", "to", "transaction", "union", "unique", "update", "using", "values", "when", "where"]

def postgresReservedIdentifiers : List String :=
  ["all", "analyse", "analyze", "and", "any", "array", "as", "asc", "asymmetric", "authorization",
    "binary", "both", "case", "cast", "check", "collate", "collation", "column", "concurrently",
    "constraint", "create", "cross", "current_catalog", "current_date", "current_role",
    "current_schema", "current_time", "current_timestamp", "current_user", "default",
    "deferrable", "desc", "distinct", "do", "else", "end", "except", "false", "fetch", "for",
    "foreign", "freeze", "from", "full", "grant", "group", "having", "ilike", "in", "initially",
    "inner", "intersect", "into", "is", "isnull", "join", "lateral", "leading", "left", "like",
    "limit", "localtime", "localtimestamp", "natural", "not", "notnull", "null", "offset", "on",
    "only", "or", "order", "outer", "overlaps", "placing", "primary", "references", "returning",
    "right", "select", "session_user", "similar", "some", "symmetric", "system_user", "table",
    "tablesample", "then", "to", "trailing", "true", "union", "unique", "user", "using",
    "variadic", "verbose", "when", "where", "window", "with"]

def mssqlReservedIdentifiers : List String :=
  ["add", "all", "alter", "and", "any", "as", "asc", "authorization", "backup", "begin",
    "between", "break", "browse", "bulk", "by", "cascade", "case", "check", "checkpoint", "close",
    "clustered", "coalesce", "collate", "column", "commit", "compute", "constraint", "contains",
    "containstable", "continue", "convert", "create", "cross", "current", "current_date",
    "current_time", "current_timestamp", "current_user", "cursor", "database", "dbcc",
    "deallocate", "declare", "default", "delete", "deny", "desc", "disk", "distinct",
    "distributed", "double", "drop", "dump", "else", "end", "errlvl", "escape", "except", "exec",
    "execute", "exists", "exit", "external", "fetch", "file", "fillfactor", "for", "foreign",
    "freetext", "freetexttable", "from", "full", "function", "goto", "grant", "group", "having",
    "holdlock", "identity", "identity_insert", "identitycol", "if", "in", "index", "inner",
    "insert", "intersect", "into", "is", "join", "key", "kill", "left", "like", "lineno", "load",
    "merge", "national", "nocheck", "nonclustered", "not", "null", "nullif", "of", "off",
    "offsets", "on", "open", "opendatasource", "openquery", "openrowset", "openxml", "option",
    "or", "order", "outer", "over", "percent", "pivot", "plan", "precision", "primary", "print",
    "proc", "procedure", "public", "raiserror", "read", "readtext", "reconfigure", "references",
    "replication", "restore", "restrict", "return", "revert", "revoke", "right", "rollback",
    "rowcount", "rowguidcol", "rule", "save", "schema", "securityaudit", "select",
    "semantickeyphrasetable", "semanticsimilaritydetailstable", "semanticsimilaritytable",
    "session_user", "set", "setuser", "shutdown", "some", "statistics", "system_user", "table",
    "tablesample", "textsize", "then", "to", "top", "tran", "transaction", "trigger", "truncate",
    "try_convert", "tsequal", "union", "unique", "unpivot", "update", "updatetext", "use", "user",
    "values", "varying", "view", "waitfor", "when", "where", "while", "with", "within",
    "writetext"]

def reservedIdentifiers : DatabaseBackend → List String
  | sqlite => sqliteReservedIdentifiers
  | postgres => postgresReservedIdentifiers
  | mssql => mssqlReservedIdentifiers
  | mysql => []

def delimit (opening closing : Char) (identifier : String) : String :=
  String.ofList [opening] ++ replace closing [closing, closing] identifier ++ String.ofList [closing]

def wrapped (opening closing : Char) (identifier : String) : Bool :=
  startsWith opening identifier && endsWith closing identifier

def quoteIdentifier (backend : DatabaseBackend) (identifier : String) : String :=
  match backend with
  | mssql =>
    if wrapped '[' ']' identifier || wrapped '"' '"' identifier then identifier
    else delimit '[' ']' identifier
  | postgres => if wrapped '"' '"' identifier then identifier else delimit '"' '"' identifier
  | sqlite =>
    if wrapped '"' '"' identifier || wrapped '[' ']' identifier || wrapped '`' '`' identifier then
      identifier
    else delimit '"' '"' identifier
  | mysql => identifier

/-- Non-ASCII characters are identifier characters on every backend. -/
def plainStart (backend : DatabaseBackend) (c : Char) : Bool :=
  c.isAlpha || c == '_' || !isAscii c || (backend = mssql && (c == '#' || c == '@'))

def plainRest (backend : DatabaseBackend) (c : Char) : Bool :=
  backend.plainStart c || c.isDigit || c == '$'

def identifierNeedsQuoting (backend : DatabaseBackend) (identifier : String) : Bool :=
  if backend = mysql ∨ backend.quoteIdentifier identifier = identifier then false
  else
    match identifier.toList with
    | [] => true
    | first :: rest =>
      !backend.plainStart first || !rest.all backend.plainRest ||
        backend.reservedIdentifiers.contains (lower identifier)

def renderIdentifier (backend : DatabaseBackend) (identifier : String) : String :=
  if backend.identifierNeedsQuoting identifier then backend.quoteIdentifier identifier
  else identifier

/-- Where the scan of a qualified name stands: outside delimiters, inside them,
or just past a closing one that may turn out to be doubled. -/
inductive PathState where
  | plain
  | quoted (closer : Char)
  | closing (closer : Char)

/-- Split at the dots outside delimiters. A delimiter opens only at the start of
a part. -/
def pathParts : List Char → PathState → Bool → List Char → List (List Char)
  | [], _, _, part => [part.reverse]
  | c :: rest, .quoted closer, _, part =>
    pathParts rest (if c = closer then .closing closer else .quoted closer) false (c :: part)
  | c :: rest, .closing closer, _, part =>
    if c = closer then pathParts rest (.quoted closer) false (c :: part)
    else if c = '.' then part.reverse :: pathParts rest .plain true []
    else pathParts rest .plain false (c :: part)
  | c :: rest, .plain, start, part =>
    if start ∧ (c = '"' ∨ c = '`') then pathParts rest (.quoted c) false (c :: part)
    else if start ∧ c = '[' then pathParts rest (.quoted ']') false (c :: part)
    else if c = '.' then part.reverse :: pathParts rest .plain true []
    else pathParts rest .plain false (c :: part)

def identifierPathParts (identifier : String) : List String :=
  (pathParts identifier.toList .plain true []).map String.ofList

def renderIdentifierPath (backend : DatabaseBackend) (identifier : String) : String :=
  let parts := (identifierPathParts identifier).filter (!·.isEmpty)
  if parts.any backend.identifierNeedsQuoting then join "." (parts.map backend.renderIdentifier)
  else identifier

def renderIdentifierList (backend : DatabaseBackend) (identifiers : List String) : String :=
  join ", " (identifiers.map backend.renderIdentifier)

def quoteIdentifierPath (backend : DatabaseBackend) (identifier : String) : String :=
  if backend = mysql then identifier
  else join "." (((identifierPathParts identifier).filter (!·.isEmpty)).map backend.quoteIdentifier)

end DatabaseBackend

end GraphqlOrm.Schema
