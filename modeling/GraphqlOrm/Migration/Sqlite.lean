import GraphqlOrm.Migration.Diff
import GraphqlOrm.Migration.Search
import GraphqlOrm.Schema.IndexPredicate

/-!
# SQLite plans

The statements a plan renders for SQLite. SQLite alters almost nothing in place:
one step that needs a rebuild moves its whole table through a temporary copy, and
then stands for all the other steps of that table.
-/
namespace GraphqlOrm.Migration

open Schema Text

/-- The two events that append-only enforcement refuses. -/
inductive TriggerEvent where
  | update | delete

namespace TriggerEvent

def sql : TriggerEvent → String
  | update => "UPDATE"
  | delete => "DELETE"

def suffix : TriggerEvent → String
  | update => "_update"
  | delete => "_delete"

end TriggerEvent

/-! ### Statements -/

/-- The statements of a SQLite plan. Statements about the managed helper tables
of search and retention only carry the data they write. -/
inductive Statement where
  | foreignKeys (enabled : Bool)
  | createTable (table : TableModel) (tableName : String)
  | copyRows (target source : String) (columns : List String)
  | dropTable (tableName : String)
  | renameTable (tableName newName : String)
  | addColumn (tableName : String) (column : ColumnModel)
  | createIndex (tableName : String) (index : IndexModel)
  | dropIndex (indexName : String)
  | dropTrigger (triggerName : String)
  | createTrigger (triggerName tableName : String) (event : TriggerEvent) (retention : Bool)
  | dropRetentionContext
  | createRetentionContext
  | createSearchMetadata
  | recordSearchIndex (index : SearchIndexModel)
  | forgetSearchIndexes (tableName : String)
  | createSearchTable (tableName : String)
  | createSearchTokenTable (tableName : String)
  | createSearchTokenIndex (tableName : String)
  | createFtsTable (tableName tokenizer : String)
  | dropHelperTable (helperName : String)
  | marker (text : String)

namespace Statement

def sql : Statement → String
  | foreignKeys enabled => "PRAGMA foreign_keys = " ++ if enabled then "ON" else "OFF"
  | createTable table tableName => renderCreateTableStatementForName .sqlite table tableName
  | copyRows target source columns =>
    "INSERT INTO " ++ DatabaseBackend.sqlite.renderIdentifierPath target ++ " (" ++
      DatabaseBackend.sqlite.renderIdentifierList columns ++ ") SELECT " ++
      DatabaseBackend.sqlite.renderIdentifierList columns ++ " FROM " ++
      DatabaseBackend.sqlite.renderIdentifierPath source
  | dropTable tableName => "DROP TABLE " ++ DatabaseBackend.sqlite.renderIdentifierPath tableName
  | renameTable tableName newName =>
    "ALTER TABLE " ++ DatabaseBackend.sqlite.renderIdentifierPath tableName ++ " RENAME TO " ++
      DatabaseBackend.sqlite.renderIdentifierPath newName
  | addColumn tableName column =>
    "ALTER TABLE " ++ DatabaseBackend.sqlite.renderIdentifierPath tableName ++ " ADD COLUMN " ++
      renderColumnDefinition .sqlite column true
  | createIndex tableName index => renderCreateIndexStatement .sqlite tableName index
  | dropIndex indexName => "DROP INDEX " ++ DatabaseBackend.sqlite.quoteIdentifier indexName
  | dropTrigger triggerName => "DROP TRIGGER IF EXISTS " ++ triggerName
  | createTrigger triggerName tableName event retention =>
    "CREATE TRIGGER " ++ triggerName ++ " BEFORE " ++ event.sql ++ " ON " ++
      DatabaseBackend.sqlite.renderIdentifierPath tableName ++
      (if retention then
        " WHEN NOT EXISTS (SELECT 1 FROM __graphql_orm_retention_context WHERE table_name = " ++
          sqlStringLiteral tableName ++ ")"
      else "") ++ " BEGIN SELECT RAISE(ABORT, 'append-only entity'); END"
  | dropRetentionContext => "DROP TABLE IF EXISTS __graphql_orm_retention_context"
  | createRetentionContext =>
    "CREATE TABLE __graphql_orm_retention_context (table_name TEXT PRIMARY KEY NOT NULL)"
  | createSearchMetadata =>
    "CREATE TABLE IF NOT EXISTS " ++ searchMetadataTableName ++ " (entity_name TEXT PRIMARY KEY, " ++
      "table_name TEXT NOT NULL, strategy TEXT NOT NULL, config_json TEXT NOT NULL, " ++
      "updated_at INTEGER NOT NULL)"
  | recordSearchIndex index =>
    "INSERT OR REPLACE INTO " ++ searchMetadataTableName ++
      " (entity_name, table_name, strategy, config_json, updated_at) VALUES (" ++
      sqlStringLiteral index.entityName ++ ", " ++ sqlStringLiteral index.tableName ++ ", " ++
      sqlStringLiteral index.strategy.asStr ++ ", " ++
      sqlStringLiteral (searchIndexConfigJson index) ++ ", unixepoch())"
  | forgetSearchIndexes tableName =>
    "DELETE FROM " ++ searchMetadataTableName ++ " WHERE table_name = " ++
      sqlStringLiteral tableName
  | createSearchTable tableName =>
    "CREATE TABLE " ++ searchTableName tableName ++ " (entity_pk TEXT PRIMARY KEY, " ++
      "entity_pk_json TEXT NOT NULL, document_text TEXT NOT NULL, weight_a TEXT NOT NULL, " ++
      "weight_b TEXT NOT NULL, weight_c TEXT NOT NULL, weight_d TEXT NOT NULL, " ++
      "updated_at INTEGER NOT NULL)"
  | createSearchTokenTable tableName =>
    "CREATE TABLE " ++ searchTokenTableName tableName ++ " (entity_pk TEXT NOT NULL, " ++
      "token TEXT NOT NULL, weight INTEGER NOT NULL, frequency INTEGER NOT NULL, " ++
      "PRIMARY KEY (entity_pk, token, weight))"
  | createSearchTokenIndex tableName =>
    "CREATE INDEX idx_gom_search_token_" ++ sanitizeSearchName tableName ++ " ON " ++
      searchTokenTableName tableName ++ " (token)"
  | createFtsTable tableName tokenizer =>
    "CREATE VIRTUAL TABLE " ++ sqliteFtsTableName tableName ++ " USING fts5(entity_pk UNINDEXED, " ++
      "weight_a, weight_b, weight_c, weight_d, document_text, tokenize = " ++
      sqlStringLiteral tokenizer ++ ")"
  | dropHelperTable helperName => "DROP TABLE IF EXISTS " ++ helperName
  | marker text => text

end Statement

/-! ### Statements of one step -/

/-- `append_only_name`: a sanitized name of at most 56 bytes. -/
def appendOnlyName (tableName : String) : String :=
  let full := "graphql_orm_append_only_" ++ String.ofList (tableName.toList.map fun c =>
    if c.isAlphanum then c.toLower else '_')
  if full.utf8ByteSize ≤ 56 then full
  else String.ofList (full.toList.take 39) ++ "_" ++
    hex64 (fnv1a64 (full.toList.flatMap String.utf8EncodeChar))

def triggerName (tableName : String) (event : TriggerEvent) : String :=
  appendOnlyName tableName ++ event.suffix

def renderAppendOnlyStatements (tableName : String) (enabled retentionPurge : Bool) :
    List Statement :=
  let drops := [.dropTrigger (triggerName tableName .update),
    .dropTrigger (triggerName tableName .delete)]
  if enabled then
    (if retentionPurge then [.dropRetentionContext, .createRetentionContext] else []) ++ drops ++
    [.createTrigger (triggerName tableName .update) tableName .update false,
      .createTrigger (triggerName tableName .delete) tableName .delete retentionPurge]
  else drops

def renderCreateSearchIndexStatement (index : SearchIndexModel) : List Statement :=
  [.createSearchMetadata, .recordSearchIndex index] ++
  match index.strategy with
  | .fallbackTable =>
    [.createSearchTable index.tableName, .createSearchTokenTable index.tableName,
      .createSearchTokenIndex index.tableName]
  | _ => [.createFtsTable index.tableName index.tokenizer]

def renderDropSearchIndexStatement (tableName : String) : List Statement :=
  [.dropHelperTable (sqliteFtsTableName tableName),
    .dropHelperTable (searchTokenTableName tableName),
    .dropHelperTable (searchTableName tableName), .forgetSearchIndexes tableName]

def stripAny (prefixes : List Char) : List Char → List Char
  | [] => []
  | c :: rest => if prefixes.contains c then rest else c :: rest

def withoutDoubledQuotes : List Char → List Char
  | '\'' :: '\'' :: rest => withoutDoubledQuotes rest
  | c :: rest => c :: withoutDoubledQuotes rest
  | [] => []

/-- Whether SQLite accepts the default in `ADD COLUMN`. -/
def sqliteConstantDefault (expression : String) : Bool :=
  let value := (canonicalizeColumnDefaultExpression expression).toList
  let isQuoted := match stripAny ['x', 'X'] value with
    | '\'' :: rest => rest.getLast? == some '\'' && !(withoutDoubledQuotes rest.dropLast).contains '\''
    | _ => false
  isQuoted || (!value.isEmpty && !"CURRENT_".toList.isPrefixOf value &&
    value.all fun c => c.isAlphanum || c == '.' || c == '-' || c == '+')

def sqliteRequiresTableRebuild : MigrationStep → Bool
  | .addColumn _ column => column.default.any fun expression => !sqliteConstantDefault expression
  | .dropColumn _ _ | .alterColumn _ _ _ | .addForeignKey _ _ | .dropForeignKey _ _
  | .setCheckConstraints _ _ _ => true
  | _ => false

/-- `render_migration_step_view` for SQLite. A step that needs a rebuild leaves a
marker only. -/
def renderMigrationStepView (step : MigrationStep) : List Statement :=
  match step with
  | .enableExtension name =>
    [.marker ("-- extension " ++ name ++ " is not supported on " ++ DatabaseBackend.sqlite.name)]
  | .createTable table =>
    [.createTable table table.tableName] ++
    table.indexes.map (.createIndex table.tableName) ++
    table.searchIndexes.flatMap renderCreateSearchIndexStatement ++
    if table.appendOnly then renderAppendOnlyStatements table.tableName true table.retentionPurge
    else []
  | .dropTable tableName => [.dropTable tableName]
  | .addColumn tableName column =>
    if sqliteRequiresTableRebuild step then
      [.marker ("-- sqlite requires table rebuild to add column " ++ column.name ++
        " with a non-constant default to " ++ tableName)]
    else [.addColumn tableName column]
  | .dropColumn tableName columnName =>
    [.marker ("-- sqlite requires table rebuild to drop column " ++ columnName ++ " from " ++
      tableName)]
  | .alterColumn tableName _ after =>
    [.marker ("-- sqlite requires table rebuild to alter column " ++ after.name ++ " on " ++
      tableName)]
  | .createIndex tableName index => [.createIndex tableName index]
  | .dropIndex _ indexName => [.dropIndex indexName]
  | .createSearchIndex _ index => renderCreateSearchIndexStatement index
  | .dropSearchIndex tableName _ => renderDropSearchIndexStatement tableName
  | .alterSearchIndex tableName _ after =>
    renderDropSearchIndexStatement tableName ++ renderCreateSearchIndexStatement after
  | .addForeignKey tableName foreignKey =>
    [.marker ("-- sqlite requires table rebuild to add foreign key " ++
      foreignKeyConstraintName tableName foreignKey ++ " on " ++ tableName)]
  | .dropForeignKey tableName foreignKey =>
    [.marker ("-- sqlite requires table rebuild to drop foreign key " ++
      foreignKeyConstraintName tableName foreignKey ++ " on " ++ tableName)]
  | .setAppendOnly tableName enabled retentionPurge =>
    renderAppendOnlyStatements tableName enabled retentionPurge
  | .setCheckConstraints tableName _ _ =>
    [.marker ("-- sqlite rebuild required for portable constraints on " ++ tableName)]

/-! ### Whole plans -/

def temporaryName (tableName : String) : String := "__graphql_orm_" ++ tableName ++ "_new"

def commonColumns (current target : TableModel) : List String :=
  (target.columns.filter fun column =>
    current.columns.any fun existing => existing.name == column.name).map (·.name)

def renderSqliteTableRebuildStatements (current target : TableModel) : List Statement :=
  let temporary := temporaryName target.tableName
  [.createTable target temporary] ++
  (if (commonColumns current target).isEmpty then []
  else [.copyRows temporary current.tableName (commonColumns current target)]) ++
  [.dropTable current.tableName, .renameTable temporary target.tableName] ++
  target.indexes.map (.createIndex target.tableName) ++
  if target.appendOnly then renderAppendOnlyStatements target.tableName true target.retentionPurge
  else []

def rebuildTables (steps : List MigrationStep) : List String :=
  (steps.filter sqliteRequiresTableRebuild).filterMap (·.tableName?)

/-- The accumulators of the rendering loop. -/
structure Rendering where
  rebuilt : List String := []
  statements : List Statement := []

def rebuildScript (current target : OrderedMap String TableModel) (tableName : String) :
    List Statement :=
  match current.get? tableName, target.get? tableName with
  | some currentTable, some targetTable => renderSqliteTableRebuildStatements currentTable targetTable
  | _, _ => []

def renderStep (current target : OrderedMap String TableModel) (rebuilds : List String)
    (rendering : Rendering) (step : MigrationStep) : Rendering :=
  match step.tableName? with
  | some tableName =>
    if rebuilds.contains tableName then
      if rendering.rebuilt.contains tableName then rendering
      else
        { rebuilt := tableName :: rendering.rebuilt
          statements := rendering.statements ++ rebuildScript current target tableName }
    else { rendering with statements := rendering.statements ++ renderMigrationStepView step }
  | none => { rendering with statements := rendering.statements ++ renderMigrationStepView step }

/-- `render_owned_plan_steps` for SQLite. -/
def renderOwnedPlanSteps (current target : SchemaModel) (steps : List MigrationStep) :
    List Statement :=
  let rebuilds := rebuildTables steps
  let body := (steps.foldl (renderStep (tableMap current) (tableMap target) rebuilds) {}).statements
  if rebuilds.isEmpty then body else [.foreignKeys false] ++ body ++ [.foreignKeys true]

structure SqlitePlan where
  steps : List MigrationStep
  statements : List Statement

/-- `build_migration_plan_views` for SQLite, where extensions mean nothing. -/
def buildMigrationPlanViews (current target : SchemaModel) : SqlitePlan :=
  let targetForBackend := { target with extensions := [] }
  let steps := diffSchemaViews .sqlite current targetForBackend
  { steps, statements := renderOwnedPlanSteps current targetForBackend steps }

end GraphqlOrm.Migration
