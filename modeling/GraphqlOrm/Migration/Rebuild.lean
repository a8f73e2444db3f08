import GraphqlOrm.Migration.IndexOrder
import GraphqlOrm.Migration.Sqlite

/-!
# Table rebuilds

Which steps of a SQLite plan its statements carry out. A rebuild stands for all
steps of its table, so the rebuilt table has to come out as the target describes
it, down to what lives outside the table: the rebuild creates the indexes and the
triggers anew, and leaves the search storage as it was.
-/
namespace GraphqlOrm.Migration

open Schema OrderedMap

/-! ### What statements do to a database -/

structure Trigger where
  name : String
  event : TriggerEvent
  retention : Bool

/-- A table with everything SQLite drops together with it. Foreign keys are
compared by identity, which excludes their physical names. -/
structure SqliteTable where
  columns : List ColumnModel
  primaryKey : List String
  uniqueKeys : List (List String)
  foreignKeys : List ForeignKeyIdentity
  checkConstraints : List CheckConstraintModel
  indexes : List IndexModel := []
  triggers : List Trigger := []

/-- The tables by name, and per table the search indexes on record. The helper
tables of a search index come and go with its record. -/
structure SqliteDatabase where
  tables : String → Option SqliteTable
  searchIndexes : String → List SearchIndexModel

namespace SqliteDatabase

def edit (database : SqliteDatabase) (name : String) (f : SqliteTable → SqliteTable) :
    SqliteDatabase :=
  { database with tables := Function.update database.tables name ((database.tables name).map f) }

def editAll (database : SqliteDatabase) (f : SqliteTable → SqliteTable) : SqliteDatabase :=
  { database with tables := fun name => (database.tables name).map f }

end SqliteDatabase

/-- The table that `CREATE TABLE` makes. -/
def createdTable (table : TableModel) : SqliteTable where
  columns := table.columns
  primaryKey := declaredPrimaryKey table
  uniqueKeys := table.compositeUniqueIndexes
  foreignKeys := table.foreignKeys.map (·.identity)
  checkConstraints := table.checkConstraints

/-- The effect of a statement that SQLite accepts. -/
def Statement.run (database : SqliteDatabase) : Statement → SqliteDatabase
  | createTable table tableName =>
    { database with tables := Function.update database.tables tableName (some (createdTable table)) }
  | dropTable tableName =>
    { database with tables := Function.update database.tables tableName none }
  | renameTable tableName newName =>
    { database with
      tables := Function.update (Function.update database.tables tableName none) newName
        (database.tables tableName) }
  | addColumn tableName column =>
    database.edit tableName fun table => { table with columns := table.columns ++ [column] }
  | createIndex tableName index =>
    database.edit tableName fun table => { table with indexes := table.indexes ++ [index] }
  | dropIndex indexName =>
    database.editAll fun table =>
      { table with indexes := table.indexes.filter fun index => index.name ≠ indexName }
  | dropTrigger triggerName =>
    database.editAll fun table =>
      { table with triggers := table.triggers.filter fun trigger => trigger.name ≠ triggerName }
  | createTrigger triggerName tableName event retention =>
    database.edit tableName fun table =>
      { table with triggers := table.triggers ++ [⟨triggerName, event, retention⟩] }
  | recordSearchIndex index =>
    -- One record per entity: an older one is replaced wherever it is.
    let others := fun name => (database.searchIndexes name).filter fun stored =>
      stored.entityName ≠ index.entityName
    { database with
      searchIndexes := Function.update others index.tableName (others index.tableName ++ [index]) }
  | forgetSearchIndexes tableName =>
    { database with searchIndexes := Function.update database.searchIndexes tableName [] }
  | foreignKeys _ | copyRows _ _ _ | dropRetentionContext | createRetentionContext
  | createSearchMetadata | createSearchTable _ | createSearchTokenTable _
  | createSearchTokenIndex _ | createFtsTable _ _ | dropHelperTable _ | marker _ => database

def layout (table : TableModel) : SqliteTable :=
  { createdTable table with
    indexes := table.indexes
    triggers :=
      if table.appendOnly then
        [⟨triggerName table.tableName .update, .update, false⟩,
          ⟨triggerName table.tableName .delete, .delete, table.retentionPurge⟩]
      else [] }

def LaidOut (table : TableModel) (database : SqliteDatabase) : Prop :=
  database.tables table.tableName = some (layout table) ∧
    MapsAgree Eq (collectBy SearchIndexModel.name (database.searchIndexes table.tableName))
      (collectBy SearchIndexModel.name table.searchIndexes)

/-! ### Plans whose statements carry out every step -/

/-- The steps of the table share one script, which comes with the first of them. -/
def CarriedOnce (blocks : List (MigrationStep × List Statement)) (name : String)
    (script : List Statement) : Prop :=
  ∃ first rest, blocks.filter (fun block => block.1.tableName? = some name) = (first, script) :: rest ∧
    ∀ block ∈ rest, block.2 = []

/-- The statements fall into one block per step: its own statements for a table
that is not rebuilt, and one rebuild for all steps of a table that is. A rebuild
turns the current table into the target table. -/
def Realised (current target : SchemaModel) (plan : SqlitePlan) : Prop :=
  ∃ blocks : List (MigrationStep × List Statement),
    blocks.map Prod.fst = plan.steps ∧
    plan.statements = (if (rebuildTables plan.steps).isEmpty then blocks.flatMap Prod.snd
      else [.foreignKeys false] ++ blocks.flatMap Prod.snd ++ [.foreignKeys true]) ∧
    (∀ block ∈ blocks, (∀ name ∈ rebuildTables plan.steps, block.1.tableName? ≠ some name) →
      block.2 = renderMigrationStepView block.1) ∧
    ∀ name ∈ rebuildTables plan.steps, ∃ before after,
      (tableMap current).get? name = some before ∧ (tableMap target).get? name = some after ∧
      CarriedOnce blocks name (renderSqliteTableRebuildStatements before after) ∧
      ∀ database, LaidOut before database →
        LaidOut after ((renderSqliteTableRebuildStatements before after).foldl Statement.run database)

/-! ### The inputs for which that holds -/

/-- SQLite cannot alter the table in place: a column is dropped, changed or added
with a default that is no constant, or the foreign keys or checks differ. -/
def NeedsRebuild (before after : TableModel) : Prop :=
  (∃ name, DropsColumn before after name) ∨
  (∃ name old new, (collectBy ColumnModel.name before.columns).get? name = some old ∧
    (collectBy ColumnModel.name after.columns).get? name = some new ∧
    columnChangedWith .sqlite old new .pinned8e1 = true) ∨
  (∃ name new, (collectBy ColumnModel.name after.columns).get? name = some new ∧
    (collectBy ColumnModel.name before.columns).get? name = none ∧
    (new.default.any fun expression => !sqliteConstantDefault expression) = true) ∨
  (∃ identity, identityCount before.foreignKeys identity ≠
    identityCount after.foreignKeys identity) ∨
  checkConstraintsEquivalent before.checkConstraints after.checkConstraints = false

def RebuildsKeepSearch (current target : SchemaModel) : Prop :=
  ∀ name before after, (tableMap current).get? name = some before →
    (tableMap target).get? name = some after → NeedsRebuild before after →
    MapsAgree Eq (collectBy SearchIndexModel.name before.searchIndexes)
      (collectBy SearchIndexModel.name after.searchIndexes)

/-! ### The rendering loop -/

section Loop

variable (current target : OrderedMap String TableModel) (rebuilds : List String)

def stepBlocks : List String → List MigrationStep → List (MigrationStep × List Statement)
  | _, [] => []
  | rebuilt, step :: rest =>
    match step.tableName? with
    | some name =>
      if rebuilds.contains name then
        if rebuilt.contains name then (step, []) :: stepBlocks rebuilt rest
        else (step, rebuildScript current target name) :: stepBlocks (name :: rebuilt) rest
      else (step, renderMigrationStepView step) :: stepBlocks rebuilt rest
    | none => (step, renderMigrationStepView step) :: stepBlocks rebuilt rest

variable {current target rebuilds}

attribute [local simp] stepBlocks

theorem foldl_renderStep (steps : List MigrationStep) (rendering : Rendering) :
    (steps.foldl (renderStep current target rebuilds) rendering).statements =
      rendering.statements ++
        (stepBlocks current target rebuilds rendering.rebuilt steps).flatMap Prod.snd := by
  induction steps generalizing rendering with
  | nil => simp [stepBlocks]
  | cons step rest ih =>
    rw [List.foldl_cons, ih, renderStep, stepBlocks]
    cases step.tableName? with
    | none => simp
    | some name =>
      simp only
      split
      · split <;> simp
      · simp

theorem stepBlocks_steps (rebuilt : List String) (steps : List MigrationStep) :
    (stepBlocks current target rebuilds rebuilt steps).map Prod.fst = steps := by
  induction steps generalizing rebuilt with
  | nil => rfl
  | cons step rest ih =>
    rw [stepBlocks]
    split
    · split
      · split
        · simp [ih]
        · simp [ih]
      · simp [ih]
    · simp [ih]

variable {rebuilt : List String} {steps : List MigrationStep}

/-- A step of a table that is not rebuilt contributes its own statements. -/
theorem stepBlocks_own {block : MigrationStep × List Statement}
    (mem : block ∈ stepBlocks current target rebuilds rebuilt steps)
    (kept : ∀ name ∈ rebuilds, block.1.tableName? ≠ some name) :
    block.2 = renderMigrationStepView block.1 := by
  induction steps generalizing rebuilt with
  | nil => cases mem
  | cons step rest ih =>
    rw [stepBlocks] at mem
    split at mem
    next name named =>
      split at mem
      next listed =>
        have notHere : ∀ script, block ≠ (step, script) := by
          rintro script rfl
          exact kept name (by simpa using listed) named
        split at mem
        · exact ih ((List.mem_cons.mp mem).resolve_left (notHere _))
        · exact ih ((List.mem_cons.mp mem).resolve_left (notHere _))
      · rcases List.mem_cons.mp mem with rfl | later
        · rfl
        · exact ih later
    · rcases List.mem_cons.mp mem with rfl | later
      · rfl
      · exact ih later

/-- A table that was rebuilt contributes nothing more. -/
theorem stepBlocks_rebuilt {name : String} (listed : name ∈ rebuilds) (done : name ∈ rebuilt)
    {block : MigrationStep × List Statement}
    (mem : block ∈ stepBlocks current target rebuilds rebuilt steps)
    (named : block.1.tableName? = some name) : block.2 = [] := by
  induction steps generalizing rebuilt with
  | nil => cases mem
  | cons step rest ih =>
    rw [stepBlocks] at mem
    split at mem
    next other own =>
      split at mem
      next rebuild =>
        split at mem
        · rcases List.mem_cons.mp mem with rfl | later
          · rfl
          · exact ih done later
        next fresh =>
          rcases List.mem_cons.mp mem with rfl | later
          · cases own.symm.trans named
            exact absurd (by simpa using done) fresh
          · exact ih (.tail _ done) later
      next outside =>
        rcases List.mem_cons.mp mem with rfl | later
        · cases own.symm.trans named
          exact absurd (by simpa using listed) outside
        · exact ih done later
    next unnamed =>
      rcases List.mem_cons.mp mem with rfl | later
      · cases unnamed.symm.trans named
      · exact ih done later

/-- A table with a step is rebuilt once, with its first step. -/
theorem stepBlocks_once {name : String} (listed : name ∈ rebuilds) (fresh : name ∉ rebuilt)
    (present : ∃ step ∈ steps, step.tableName? = some name) :
    CarriedOnce (stepBlocks current target rebuilds rebuilt steps) name
      (rebuildScript current target name) := by
  induction steps generalizing rebuilt with
  | nil =>
    obtain ⟨_, mem, _⟩ := present
    cases mem
  | cons step rest ih =>
    by_cases own : step.tableName? = some name
    · refine ⟨step, (stepBlocks current target rebuilds (name :: rebuilt) rest).filter
        fun block => block.1.tableName? = some name, ?_, ?_⟩
      · simp [stepBlocks, own, listed, fresh]
      · intro block mem
        obtain ⟨inside, named⟩ := List.mem_filter.mp mem
        exact stepBlocks_rebuilt listed (.head _) inside (by simpa using named)
    · have later : ∃ step ∈ rest, step.tableName? = some name := by
        obtain ⟨other, mem, named⟩ := present
        rcases List.mem_cons.mp mem with rfl | inside
        · exact absurd named own
        · exact ⟨other, inside, named⟩
      -- A step of another table is filtered out and leaves this one to be rebuilt.
      have skip (script : List Statement) (done : List String) (open_ : name ∉ done) :
          CarriedOnce ((step, script) :: stepBlocks current target rebuilds done rest) name
            (rebuildScript current target name) := by
        obtain ⟨first, others, found, empty⟩ := ih open_ later
        exact ⟨first, others, by rw [List.filter_cons_of_neg (by simpa using own), found], empty⟩
      rw [stepBlocks]
      split
      next other named =>
        have different : name ≠ other := by
          rintro rfl
          exact own named
        split
        · split
          · exact skip _ _ fresh
          · exact skip _ _ (by simp [different, fresh])
        · exact skip _ _ fresh
      · exact skip _ _ fresh

end Loop

/-! ### The rebuild of one table -/

section Script

variable {database : SqliteDatabase} {name : String} {table : SqliteTable}

theorem temporaryName_ne (tableName : String) : temporaryName tableName ≠ tableName := by
  intro same
  have lengths := congrArg String.length same
  unfold temporaryName at lengths
  rw [String.length_append, String.length_append] at lengths
  have positive : "_new".length = 4 := rfl
  omega

theorem run_createIndexes (present : database.tables name = some table) (indexes : List IndexModel) :
    ((indexes.map (.createIndex name)).foldl Statement.run database).tables name =
      some { table with indexes := table.indexes ++ indexes } := by
  induction indexes generalizing database table with
  | nil => simp [present]
  | cons index rest ih =>
    have first : (Statement.run database (.createIndex name index)).tables name =
        some { table with indexes := table.indexes ++ [index] } := by
      simp [Statement.run, SqliteDatabase.edit, present]
    rw [List.map_cons, List.foldl_cons, ih first]
    simp

theorem run_appendOnly (present : database.tables name = some table) (bare : table.triggers = [])
    (retention : Bool) :
    ((renderAppendOnlyStatements name true retention).foldl Statement.run database).tables name =
      some { table with
        triggers := [⟨triggerName name .update, .update, false⟩,
          ⟨triggerName name .delete, .delete, retention⟩] } := by
  cases retention <;>
    simp [renderAppendOnlyStatements, Statement.run, SqliteDatabase.edit, SqliteDatabase.editAll,
      present, bare]

/-- After its rebuild the table is laid out as the target has it. -/
theorem rebuild_layout {before after : TableModel} (same : before.tableName = after.tableName)
    (database : SqliteDatabase) :
    ((renderSqliteTableRebuildStatements before after).foldl Statement.run database).tables
      after.tableName = some (layout after) := by
  have different := temporaryName_ne after.tableName
  unfold renderSqliteTableRebuildStatements
  simp only [List.foldl_append]
  -- Copying rows leaves the catalog alone, so both branches reach the same tables.
  generalize copied : List.foldl Statement.run (List.foldl Statement.run database _)
    (if (commonColumns before after).isEmpty then [] else _) = filled
  have made : filled.tables (temporaryName after.tableName) = some (createdTable after) := by
    rw [← copied]
    split <;> simp [Statement.run]
  have renamed : (List.foldl Statement.run filled [.dropTable before.tableName,
      .renameTable (temporaryName after.tableName) after.tableName]).tables after.tableName =
      some (createdTable after) := by
    simp [Statement.run, same, different, made]
  have indexed := run_createIndexes renamed after.indexes
  split
  next enforced =>
    rw [run_appendOnly indexed rfl]
    simp [layout, enforced, createdTable]
  next free =>
    rw [List.foldl_nil, indexed]
    simp [layout, free, createdTable]

def KeepsSearch : Statement → Prop
  | .recordSearchIndex _ | .forgetSearchIndexes _ => False
  | _ => True

theorem foldl_run_searchIndexes {statements : List Statement}
    (keeps : ∀ statement ∈ statements, KeepsSearch statement) (database : SqliteDatabase) :
    (statements.foldl Statement.run database).searchIndexes = database.searchIndexes := by
  induction statements generalizing database with
  | nil => rfl
  | cons statement rest ih =>
    have first : (Statement.run database statement).searchIndexes = database.searchIndexes := by
      have here := keeps statement (.head _)
      cases statement <;> first | rfl | exact absurd here not_false
    rw [List.foldl_cons, ih fun s mem => keeps s (.tail _ mem), first]

theorem rebuild_keepsSearch (before after : TableModel) :
    ∀ statement ∈ renderSqliteTableRebuildStatements before after, KeepsSearch statement := by
  simp only [renderSqliteTableRebuildStatements, List.forall_mem_append]
  refine ⟨⟨⟨⟨?created, ?copied⟩, ?swapped⟩, ?indexed⟩, ?enforced⟩
  case created => simp [KeepsSearch]
  case copied => split <;> simp [KeepsSearch]
  case swapped => simp [KeepsSearch]
  case indexed => simp [KeepsSearch]
  case enforced =>
    cases after.appendOnly <;> cases after.retentionPurge <;>
      simp [renderAppendOnlyStatements, KeepsSearch]

/-- A rebuild leads to the target exactly when the search indexes agree. -/
theorem rebuild_laidOut {before after : TableModel} (same : before.tableName = after.tableName) :
    (∀ database, LaidOut before database →
      LaidOut after ((renderSqliteTableRebuildStatements before after).foldl Statement.run
        database)) ↔
      MapsAgree Eq (collectBy SearchIndexModel.name before.searchIndexes)
        (collectBy SearchIndexModel.name after.searchIndexes) := by
  have kept := foldl_run_searchIndexes (rebuild_keepsSearch before after)
  constructor
  · intro all
    -- The database that holds exactly the current table shows what the rebuild leaves.
    have start : LaidOut before ⟨fun _ => some (layout before), fun _ => before.searchIndexes⟩ :=
      ⟨rfl, mapsAgree_eq_iff.mpr fun _ => rfl⟩
    have reached := (all _ start).2
    rwa [kept] at reached
  · intro agree database laid
    refine ⟨rebuild_layout same database, mapsAgree_eq_iff.mpr fun key => ?_⟩
    rw [kept, ← same, mapsAgree_eq_iff.mp laid.2 key]
    exact mapsAgree_eq_iff.mp agree key

end Script

/-! ### Which tables are rebuilt -/

section Rebuilt

variable {backend : DatabaseBackend} {equivalence : DefaultEquivalence} {tableName : String}

theorem alterColumn_mem {current target : List ColumnModel} {old new : ColumnModel} :
    .alterColumn tableName old new ∈ columnSteps tableName backend equivalence current target ↔
      ∃ name, (collectBy ColumnModel.name current).get? name = some old ∧
        (collectBy ColumnModel.name target).get? name = some new ∧
        columnChangedWith backend old new equivalence = true := by
  unfold columnSteps
  rw [List.mem_append, OrderedMap.mem_flatMap, OrderedMap.mem_flatMap]
  constructor
  · rintro (⟨_, _, _, emitted⟩ | ⟨name, column, stored, emitted⟩)
    · simp only [addedColumn] at emitted
      split at emitted <;> simp at emitted
    · simp only [editedColumn] at emitted
      split at emitted
      · simp at emitted
      next wanted found =>
        split at emitted
        next changed =>
          cases List.mem_singleton.mp emitted
          exact ⟨name, stored, found, changed⟩
        · cases emitted
  · rintro ⟨name, stored, found, changed⟩
    exact .inr ⟨name, old, stored, by simp [editedColumn, found, changed]⟩

/-- The column steps that force a rebuild. -/
theorem columnSteps_rebuild (before after : TableModel) :
    (∃ step ∈ columnSteps tableName .sqlite .pinned8e1 before.columns after.columns,
        sqliteRequiresTableRebuild step = true) ↔
      (∃ name, DropsColumn before after name) ∨
      (∃ name old new, (collectBy ColumnModel.name before.columns).get? name = some old ∧
        (collectBy ColumnModel.name after.columns).get? name = some new ∧
        columnChangedWith .sqlite old new .pinned8e1 = true) ∨
      ∃ name new, (collectBy ColumnModel.name after.columns).get? name = some new ∧
        (collectBy ColumnModel.name before.columns).get? name = none ∧
        (new.default.any fun expression => !sqliteConstantDefault expression) = true := by
  constructor
  · rintro ⟨step, mem, forced⟩
    rcases mem_columnSteps mem with ⟨column, rfl⟩ | ⟨name, rfl⟩ | ⟨old, new, rfl⟩
    · obtain ⟨name, found, absent⟩ := addColumn_mem.mp mem
      exact .inr (.inr ⟨name, column, found, absent, forced⟩)
    · exact .inl ⟨name, (dropColumn_mem.mp mem).2⟩
    · obtain ⟨name, stored, found, changed⟩ := alterColumn_mem.mp mem
      exact .inr (.inl ⟨name, old, new, stored, found, changed⟩)
  · rintro (⟨name, dropped⟩ | ⟨name, old, new, stored, found, changed⟩ |
      ⟨name, new, found, absent, forced⟩)
    · exact ⟨_, dropColumn_mem.mpr ⟨rfl, dropped⟩, rfl⟩
    · exact ⟨_, alterColumn_mem.mpr ⟨name, stored, found, changed⟩, rfl⟩
    · exact ⟨_, addColumn_mem.mpr ⟨name, found, absent⟩, forced⟩

theorem foreignKeySteps_rebuild (current target : List ForeignKeyModel) :
    (∃ step ∈ foreignKeySteps tableName current target, sqliteRequiresTableRebuild step = true) ↔
      ∃ identity, identityCount current identity ≠ identityCount target identity := by
  have all : ∀ step ∈ foreignKeySteps tableName current target,
      sqliteRequiresTableRebuild step = true := by
    intro step mem
    rcases mem_foreignKeySteps mem with ⟨_, rfl⟩ | ⟨_, rfl⟩ <;> rfl
  have silent : foreignKeySteps tableName current target = [] ↔ _ := foreignKeySteps_eq_nil
  rw [← not_forall, ← silent]
  constructor
  · rintro ⟨step, mem, _⟩ empty
    rw [empty] at mem
    cases mem
  · intro some
    obtain ⟨step, mem⟩ := List.exists_mem_of_ne_nil _ some
    exact ⟨step, mem, all step mem⟩

theorem checkConstraintSteps_rebuild (current target : List CheckConstraintModel) :
    (∃ step ∈ checkConstraintSteps tableName current target,
        sqliteRequiresTableRebuild step = true) ↔
      checkConstraintsEquivalent current target = false := by
  unfold checkConstraintSteps
  cases checkConstraintsEquivalent current target <;> simp [sqliteRequiresTableRebuild]

/-- A surviving table gets a forcing step exactly when it needs a rebuild. -/
theorem alterTableSteps_rebuild (before after : TableModel) :
    (∃ step ∈ alterTableSteps .sqlite .pinned8e1 before after,
        sqliteRequiresTableRebuild step = true) ↔ NeedsRebuild before after := by
  have never {steps : List MigrationStep}
      (harmless : ∀ step ∈ steps, sqliteRequiresTableRebuild step = false) :
      ¬∃ step ∈ steps, sqliteRequiresTableRebuild step = true := by
    rintro ⟨step, mem, forced⟩
    rw [harmless step mem] at forced
    cases forced
  have indexes : ∀ step ∈ indexSteps before.tableName before.indexes after.indexes,
      sqliteRequiresTableRebuild step = false := by
    intro step mem
    rcases mem_indexSteps mem with ⟨_, rfl⟩ | ⟨_, rfl⟩ <;> rfl
  have searches : ∀ step ∈ searchIndexSteps before.tableName before.searchIndexes
      after.searchIndexes, sqliteRequiresTableRebuild step = false := by
    intro step mem
    rcases mem_searchIndexSteps mem with ⟨_, rfl⟩ | ⟨_, _, rfl⟩ | ⟨_, rfl⟩ <;> rfl
  have flags : ∀ step ∈ appendOnlySteps before.tableName before after,
      sqliteRequiresTableRebuild step = false := by
    intro step mem
    rw [mem_appendOnlySteps mem]
    rfl
  unfold alterTableSteps NeedsRebuild
  simp only [List.mem_append, or_and_right, exists_or, columnSteps_rebuild,
    foreignKeySteps_rebuild, checkConstraintSteps_rebuild, never indexes, never searches,
    never flags, false_or, or_assoc]

/-- A plan rebuilds exactly the surviving tables that need it. -/
theorem mem_rebuildTables {current target : SchemaModel} {name : String} :
    name ∈ rebuildTables (diffSchemaViews .sqlite current target) ↔
      ∃ before after, (tableMap current).get? name = some before ∧
        (tableMap target).get? name = some after ∧ NeedsRebuild before after := by
  have named := tableMap_named current
  simp only [rebuildTables, List.mem_filterMap, List.mem_filter]
  constructor
  · rintro ⟨step, ⟨mem, forced⟩, own⟩
    unfold diffSchemaViews diffSchemaViewsWith at mem
    rcases List.mem_append.mp mem with early | late
    · rcases mem_early early with ⟨_, rfl⟩ | ⟨_, rfl, _⟩ <;> cases forced
    · obtain ⟨table, visited, emitted⟩ := List.mem_flatMap.mp late
      rw [List.mem_reverse, mem_orderTables named] at visited
      cases (currentTableSteps_named target table step emitted).symm.trans own
      simp only [currentTableSteps] at emitted
      split at emitted
      · rcases mem_dropTableSteps emitted with searches | ⟨_, rfl⟩
        · cases step <;> simp_all [sqliteRequiresTableRebuild, MigrationStep.kind]
        · cases forced
      next after wanted =>
        exact ⟨table, after, visited, wanted,
          (alterTableSteps_rebuild table after).mp ⟨step, emitted, forced⟩⟩
  · rintro ⟨before, after, stored, wanted, needs⟩
    have own := named name before stored
    subst own
    obtain ⟨step, emitted, forced⟩ := (alterTableSteps_rebuild before after).mpr needs
    have inside : step ∈ currentTableSteps .sqlite .pinned8e1 target before := by
      simpa only [currentTableSteps, wanted] using emitted
    refine ⟨step, ⟨?_, forced⟩, currentTableSteps_named target before step inside⟩
    unfold diffSchemaViews diffSchemaViewsWith
    apply List.mem_append_right
    refine List.mem_flatMap.mpr ⟨before, ?_, inside⟩
    rw [List.mem_reverse, mem_orderTables named]
    exact stored

end Rebuilt

/-- A SQLite plan carries out every step exactly when no rebuilt table changes its
search indexes. -/
theorem realised_iff (current target : SchemaModel) :
    Realised current target (buildMigrationPlanViews current target) ↔
      RebuildsKeepSearch current target := by
  have script {name : String} {before after : TableModel}
      (stored : (tableMap current).get? name = some before)
      (wanted : (tableMap target).get? name = some after) :
      rebuildScript (tableMap current) (tableMap target) name =
        renderSqliteTableRebuildStatements before after := by
    simp only [rebuildScript, stored, wanted]
  have sameName {name : String} {before after : TableModel}
      (stored : (tableMap current).get? name = some before)
      (wanted : (tableMap target).get? name = some after) :
      before.tableName = after.tableName :=
    (tableMap_named current name before stored).trans (tableMap_named target name after wanted).symm
  constructor
  · rintro ⟨_, _, _, _, rebuilt⟩ name before after stored wanted needs
    have listed : name ∈ rebuildTables (buildMigrationPlanViews current target).steps :=
      mem_rebuildTables.mpr ⟨before, after, stored, wanted, needs⟩
    obtain ⟨before', after', stored', wanted', _, reached⟩ := rebuilt name listed
    cases stored.symm.trans stored'
    cases wanted.symm.trans wanted'
    exact (rebuild_laidOut (sameName stored wanted)).mp reached
  · intro keep
    refine ⟨stepBlocks (tableMap current) (tableMap target)
      (rebuildTables (buildMigrationPlanViews current target).steps) []
      (buildMigrationPlanViews current target).steps, stepBlocks_steps _ _, ?_,
      fun block mem => stepBlocks_own mem, fun name listed => ?_⟩
    · simp only [buildMigrationPlanViews, renderOwnedPlanSteps, foldl_renderStep]
      rfl
    · obtain ⟨before, after, stored, wanted, needs⟩ := mem_rebuildTables.mp listed
      have present : ∃ step ∈ (buildMigrationPlanViews current target).steps,
          step.tableName? = some name := by
        obtain ⟨step, mem, own⟩ := List.mem_filterMap.mp listed
        exact ⟨step, List.mem_of_mem_filter mem, own⟩
      refine ⟨before, after, stored, wanted, ?_, ?_⟩
      · rw [← script stored wanted]
        exact stepBlocks_once listed List.not_mem_nil present
      · exact (rebuild_laidOut (sameName stored wanted)).mpr
          (keep name before after stored wanted needs)

/-- Articles with a draft flag, and the schema that replaces the flag by search. -/
def articlesBefore : SchemaModel where
  tables := [{
    tableName := "articles", primaryKey := "id"
    columns := [{ name := "id", sqlType := "TEXT", isPrimaryKey := true },
      { name := "title", sqlType := "TEXT" }, { name := "draft", sqlType := "INTEGER" }] }]

def articlesAfter : SchemaModel where
  tables := [{
    tableName := "articles", primaryKey := "id"
    columns := [{ name := "id", sqlType := "TEXT", isPrimaryKey := true },
      { name := "title", sqlType := "TEXT" }]
    searchIndexes := [titles] }]
where
  titles : SearchIndexModel :=
    { name := "search_articles", tableName := "articles", entityName := "Article"
      primaryKey := "id", strategy := .sqliteFts5, language := "english", tokenizer := "unicode61"
      minTokenLen := 2, fallbackEnabled := true
      fields := [{ fieldName := "title", columnName := "title", weight := .a }] }

/-- The plan lists the search index, and the rebuild that replaces its steps does
not create it. -/
theorem realised_fails_articles :
    articlesBefore.validatePhysicalContract = .ok () ∧
    articlesAfter.validatePhysicalContract = .ok () ∧
    (buildMigrationPlanViews articlesBefore articlesAfter).steps =
      [.dropColumn "articles" "draft", .createSearchIndex "articles" articlesAfter.titles] ∧
    (buildMigrationPlanViews articlesBefore articlesAfter).statements.map Statement.sql =
      ["PRAGMA foreign_keys = OFF",
        "CREATE TABLE __graphql_orm_articles_new (id TEXT NOT NULL PRIMARY KEY, title TEXT NOT NULL)",
        "INSERT INTO __graphql_orm_articles_new (id, title) SELECT id, title FROM articles",
        "DROP TABLE articles", "ALTER TABLE __graphql_orm_articles_new RENAME TO articles",
        "PRAGMA foreign_keys = ON"] ∧
    ¬Realised articlesBefore articlesAfter (buildMigrationPlanViews articlesBefore articlesAfter) := by
  have plan : (buildMigrationPlanViews articlesBefore articlesAfter).steps =
      [.dropColumn "articles" "draft", .createSearchIndex "articles" articlesAfter.titles] := by
    decide
  refine ⟨rfl, rfl, plan, by decide, ?_⟩
  rintro ⟨_, _, _, _, rebuilt⟩
  have listed : "articles" ∈ rebuildTables (buildMigrationPlanViews articlesBefore
      articlesAfter).steps := by
    rw [plan]
    decide
  obtain ⟨before, after, stored, wanted, _, reached⟩ := rebuilt "articles" listed
  have same : before.tableName = after.tableName :=
    (tableMap_named _ _ _ stored).trans (tableMap_named _ _ _ wanted).symm
  have agree := mapsAgree_eq_iff.mp ((rebuild_laidOut same).mp reached) "search_articles"
  cases stored
  cases wanted
  cases agree

end GraphqlOrm.Migration
