import GraphqlOrm.Foundation.StableSort
import GraphqlOrm.Migration.Diff
import GraphqlOrm.Schema.Contract
import Mathlib.Data.List.Count

/-!
# Applying a plan to a schema model

What each step means for the model it is planned against. A step on a table
edits one component of the tables of that name; edits of a named object replace
or remove it by name, and a dropped foreign key is removed once.
-/
namespace GraphqlOrm.Migration

open Schema

namespace MigrationStep

def applyColumns (columns : List ColumnModel) : MigrationStep → List ColumnModel
  | addColumn _ column => columns ++ [column]
  | dropColumn _ name => columns.filter fun column => column.name ≠ name
  | alterColumn _ before after =>
    columns.map fun column => if column.name = before.name then after else column
  | _ => columns

def applyIndexes (indexes : List IndexModel) : MigrationStep → List IndexModel
  | createIndex _ index => indexes ++ [index]
  | dropIndex _ name => indexes.filter fun index => index.name ≠ name
  | _ => indexes

def applySearchIndexes (indexes : List SearchIndexModel) : MigrationStep → List SearchIndexModel
  | createSearchIndex _ index => indexes ++ [index]
  | dropSearchIndex _ name => indexes.filter fun index => index.name ≠ name
  | alterSearchIndex _ before after =>
    indexes.map fun index => if index.name = before.name then after else index
  | _ => indexes

def applyForeignKeys (foreignKeys : List ForeignKeyModel) : MigrationStep → List ForeignKeyModel
  | addForeignKey _ foreignKey => foreignKeys ++ [foreignKey]
  | dropForeignKey _ foreignKey => foreignKeys.erase foreignKey
  | _ => foreignKeys

def applyFlags (flags : Bool × Bool) : MigrationStep → Bool × Bool
  | setAppendOnly _ enabled retentionPurge => (enabled, retentionPurge)
  | _ => flags

def applyCheckConstraints (constraints : List CheckConstraintModel) :
    MigrationStep → List CheckConstraintModel
  | setCheckConstraints _ _ after => after
  | _ => constraints

def applyTable (table : TableModel) (step : MigrationStep) : TableModel :=
  { table with
    columns := applyColumns table.columns step
    indexes := applyIndexes table.indexes step
    searchIndexes := applySearchIndexes table.searchIndexes step
    foreignKeys := applyForeignKeys table.foreignKeys step
    appendOnly := (applyFlags (table.appendOnly, table.retentionPurge) step).1
    retentionPurge := (applyFlags (table.appendOnly, table.retentionPurge) step).2
    checkConstraints := applyCheckConstraints table.checkConstraints step }

def apply (schema : SchemaModel) : MigrationStep → SchemaModel
  | enableExtension name => { schema with extensions := schema.extensions ++ [name] }
  | createTable table => { schema with tables := schema.tables ++ [table] }
  | dropTable name =>
    { schema with tables := schema.tables.filter fun table => table.tableName ≠ name }
  | step => { schema with
      tables := schema.tables.map fun table =>
        if step.tableName? = some table.tableName then applyTable table step else table }

def applyAll (schema : SchemaModel) (steps : List MigrationStep) : SchemaModel :=
  steps.foldl apply schema

end MigrationStep

open MigrationStep

/-! ### Steps on one table -/

def Edits (name : String) : MigrationStep → Prop
  | .enableExtension _ | .createTable _ | .dropTable _ => False
  | step => step.tableName? = some name

theorem apply_edits {name : String} {step : MigrationStep} (edits : Edits name step)
    (schema : SchemaModel) :
    apply schema step = { schema with
      tables := schema.tables.map fun table =>
        if table.tableName = name then applyTable table step else table } := by
  cases step <;> simp only [Edits] at edits <;> simp only [apply, edits, Option.some.injEq, eq_comm]

theorem applyAll_edits {name : String} {steps : List MigrationStep}
    (edits : ∀ step ∈ steps, Edits name step) (schema : SchemaModel) :
    applyAll schema steps = { schema with
      tables := schema.tables.map fun table =>
        if table.tableName = name then steps.foldl applyTable table else table } := by
  induction steps generalizing schema with
  | nil => simp [applyAll]
  | cons step rest ih =>
    have later : ∀ step ∈ rest, Edits name step := fun s m => edits s (.tail _ m)
    have next := ih later (apply schema step)
    unfold applyAll at next ⊢
    rw [List.foldl_cons, next, apply_edits (edits step (.head _)), List.map_map]
    congr 1
    apply List.map_congr_left
    intro table _
    simp only [Function.comp, List.foldl_cons]
    -- The first edit keeps the name, so the second one meets the same table.
    by_cases same : table.tableName = name <;> simp [same, applyTable]

/-- A run of steps edits every component on its own. -/
theorem foldl_applyTable (steps : List MigrationStep) (table : TableModel) :
    steps.foldl applyTable table = { table with
      columns := steps.foldl applyColumns table.columns
      indexes := steps.foldl applyIndexes table.indexes
      searchIndexes := steps.foldl applySearchIndexes table.searchIndexes
      foreignKeys := steps.foldl applyForeignKeys table.foreignKeys
      appendOnly := (steps.foldl applyFlags (table.appendOnly, table.retentionPurge)).1
      retentionPurge := (steps.foldl applyFlags (table.appendOnly, table.retentionPurge)).2
      checkConstraints := steps.foldl applyCheckConstraints table.checkConstraints } := by
  induction steps generalizing table with
  | nil => rfl
  | cons step rest ih =>
    simp only [List.foldl_cons]
    rw [ih]
    rfl

/-- Which component of a table a step edits. -/
inductive StepKind where
  | extension | table | column | index | searchIndex | foreignKey | appendOnly | checkConstraint
deriving DecidableEq

def MigrationStep.kind : MigrationStep → StepKind
  | enableExtension _ => .extension
  | createTable _ | dropTable _ => .table
  | addColumn _ _ | dropColumn _ _ | alterColumn _ _ _ => .column
  | createIndex _ _ | dropIndex _ _ => .index
  | createSearchIndex _ _ | dropSearchIndex _ _ | alterSearchIndex _ _ _ => .searchIndex
  | addForeignKey _ _ | dropForeignKey _ _ => .foreignKey
  | setAppendOnly _ _ _ => .appendOnly
  | setCheckConstraints _ _ _ => .checkConstraint

/-- A component is edited by the steps of its kind only. -/
theorem foldl_kind {γ : Type} {act : γ → MigrationStep → γ} {kind : StepKind}
    (ignores : ∀ component step, step.kind ≠ kind → act component step = component)
    (steps : List MigrationStep) (component : γ) :
    steps.foldl act component =
      (steps.filter fun step => step.kind = kind).foldl act component := by
  induction steps generalizing component with
  | nil => rfl
  | cons step rest ih =>
    by_cases same : step.kind = kind
    · simp [same, ih]
    · simp [same, ignores component step same, ih]

theorem applyColumns_ignores (columns : List ColumnModel) (step : MigrationStep)
    (other : step.kind ≠ .column) : applyColumns columns step = columns := by
  cases step <;> first | rfl | exact absurd rfl other

theorem applyIndexes_ignores (indexes : List IndexModel) (step : MigrationStep)
    (other : step.kind ≠ .index) : applyIndexes indexes step = indexes := by
  cases step <;> first | rfl | exact absurd rfl other

theorem applySearchIndexes_ignores (indexes : List SearchIndexModel) (step : MigrationStep)
    (other : step.kind ≠ .searchIndex) : applySearchIndexes indexes step = indexes := by
  cases step <;> first | rfl | exact absurd rfl other

theorem applyForeignKeys_ignores (foreignKeys : List ForeignKeyModel) (step : MigrationStep)
    (other : step.kind ≠ .foreignKey) : applyForeignKeys foreignKeys step = foreignKeys := by
  cases step <;> first | rfl | exact absurd rfl other

theorem applyFlags_ignores (flags : Bool × Bool) (step : MigrationStep)
    (other : step.kind ≠ .appendOnly) : applyFlags flags step = flags := by
  cases step <;> first | rfl | exact absurd rfl other

theorem applyCheckConstraints_ignores (constraints : List CheckConstraintModel)
    (step : MigrationStep) (other : step.kind ≠ .checkConstraint) :
    applyCheckConstraints constraints step = constraints := by
  cases step <;> first | rfl | exact absurd rfl other

/-! ### The steps of each comparison -/

section Shapes

variable {tableName : String} {backend : DatabaseBackend} {equivalence : DefaultEquivalence}
  {step : MigrationStep}

theorem mem_columnSteps {current target : List ColumnModel}
    (mem : step ∈ columnSteps tableName backend equivalence current target) :
    (∃ column, step = .addColumn tableName column) ∨
    (∃ name, step = .dropColumn tableName name) ∨
    ∃ before after, step = .alterColumn tableName before after := by
  unfold columnSteps at mem
  rcases List.mem_append.mp mem with added | edited
  · obtain ⟨name, column, _, emitted⟩ := OrderedMap.mem_flatMap.mp added
    simp only [addedColumn] at emitted
    split at emitted
    · cases emitted
    · exact .inl ⟨column, List.mem_singleton.mp emitted⟩
  · obtain ⟨name, column, _, emitted⟩ := OrderedMap.mem_flatMap.mp edited
    simp only [editedColumn] at emitted
    split at emitted
    · exact .inr (.inl ⟨name, List.mem_singleton.mp emitted⟩)
    next after _ =>
      split at emitted
      · exact .inr (.inr ⟨column, after, List.mem_singleton.mp emitted⟩)
      · cases emitted

theorem mem_indexSteps {current target : List IndexModel}
    (mem : step ∈ indexSteps tableName current target) :
    (∃ index, step = .createIndex tableName index) ∨ ∃ name, step = .dropIndex tableName name := by
  unfold indexSteps at mem
  rcases List.mem_append.mp mem with added | dropped
  · obtain ⟨name, index, _, emitted⟩ := OrderedMap.mem_flatMap.mp added
    simp only [wantedIndex] at emitted
    split at emitted
    · split at emitted
      · cases emitted
      · rcases List.mem_cons.mp emitted with first | second
        · exact .inr ⟨name, first⟩
        · exact .inl ⟨index, List.mem_singleton.mp second⟩
    · exact .inl ⟨index, List.mem_singleton.mp emitted⟩
  · obtain ⟨name, _, emitted⟩ := List.mem_flatMap.mp dropped
    simp only [removedIndex] at emitted
    split at emitted
    · cases emitted
    · exact .inr ⟨name, List.mem_singleton.mp emitted⟩

theorem mem_searchIndexSteps {current target : List SearchIndexModel}
    (mem : step ∈ searchIndexSteps tableName current target) :
    (∃ index, step = .createSearchIndex tableName index) ∨
    (∃ before after, step = .alterSearchIndex tableName before after) ∨
    ∃ name, step = .dropSearchIndex tableName name := by
  unfold searchIndexSteps at mem
  rcases List.mem_append.mp mem with added | dropped
  · obtain ⟨name, index, _, emitted⟩ := OrderedMap.mem_flatMap.mp added
    simp only [wantedSearchIndex] at emitted
    split at emitted
    next before _ =>
      split at emitted
      · cases emitted
      · exact .inr (.inl ⟨before, index, List.mem_singleton.mp emitted⟩)
    · exact .inl ⟨index, List.mem_singleton.mp emitted⟩
  · obtain ⟨name, _, emitted⟩ := List.mem_flatMap.mp dropped
    simp only [removedSearchIndex] at emitted
    split at emitted
    · cases emitted
    · exact .inr (.inr ⟨name, List.mem_singleton.mp emitted⟩)

theorem mem_foreignKeySteps {current target : List ForeignKeyModel}
    (mem : step ∈ foreignKeySteps tableName current target) :
    (∃ fk, step = .dropForeignKey tableName fk) ∨ ∃ fk, step = .addForeignKey tableName fk := by
  unfold foreignKeySteps at mem
  rcases List.mem_append.mp mem with dropped | added
  · obtain ⟨_, _, emitted⟩ := List.mem_flatMap.mp dropped
    obtain ⟨fk, _, same⟩ := List.mem_map.mp emitted
    exact .inl ⟨fk, same.symm⟩
  · obtain ⟨_, _, emitted⟩ := List.mem_flatMap.mp added
    obtain ⟨fk, _, same⟩ := List.mem_map.mp emitted
    exact .inr ⟨fk, same.symm⟩

variable {current target : TableModel}

theorem mem_appendOnlySteps (mem : step ∈ appendOnlySteps tableName current target) :
    step = .setAppendOnly tableName target.appendOnly target.retentionPurge := by
  unfold appendOnlySteps at mem
  split at mem
  · exact List.mem_singleton.mp mem
  · cases mem

theorem mem_checkConstraintSteps {current target : List CheckConstraintModel}
    (mem : step ∈ checkConstraintSteps tableName current target) :
    step = .setCheckConstraints tableName current target := by
  unfold checkConstraintSteps at mem
  split at mem
  · cases mem
  · exact List.mem_singleton.mp mem

/-- Every step of a surviving table edits that table. -/
theorem mem_alterTableSteps (mem : step ∈ alterTableSteps backend equivalence current target) :
    Edits current.tableName step := by
  simp only [alterTableSteps, List.mem_append] at mem
  rcases mem with ((((columns | indexes) | searches) | foreignKeys) | flags) | checks
  · rcases mem_columnSteps columns with ⟨_, rfl⟩ | ⟨_, rfl⟩ | ⟨_, _, rfl⟩ <;> rfl
  · rcases mem_indexSteps indexes with ⟨_, rfl⟩ | ⟨_, rfl⟩ <;> rfl
  · rcases mem_searchIndexSteps searches with ⟨_, rfl⟩ | ⟨_, _, rfl⟩ | ⟨_, rfl⟩ <;> rfl
  · rcases mem_foreignKeySteps foreignKeys with ⟨_, rfl⟩ | ⟨_, rfl⟩ <;> rfl
  · rw [mem_appendOnlySteps flags]
    rfl
  · rw [mem_checkConstraintSteps checks]
    rfl

theorem columnSteps_kind {current target : List ColumnModel} :
    ∀ step ∈ columnSteps tableName backend equivalence current target, step.kind = .column := by
  intro step mem
  rcases mem_columnSteps mem with ⟨_, rfl⟩ | ⟨_, rfl⟩ | ⟨_, _, rfl⟩ <;> rfl

theorem indexSteps_kind {current target : List IndexModel} :
    ∀ step ∈ indexSteps tableName current target, step.kind = .index := by
  intro step mem
  rcases mem_indexSteps mem with ⟨_, rfl⟩ | ⟨_, rfl⟩ <;> rfl

theorem searchIndexSteps_kind {current target : List SearchIndexModel} :
    ∀ step ∈ searchIndexSteps tableName current target, step.kind = .searchIndex := by
  intro step mem
  rcases mem_searchIndexSteps mem with ⟨_, rfl⟩ | ⟨_, _, rfl⟩ | ⟨_, rfl⟩ <;> rfl

theorem foreignKeySteps_kind {current target : List ForeignKeyModel} :
    ∀ step ∈ foreignKeySteps tableName current target, step.kind = .foreignKey := by
  intro step mem
  rcases mem_foreignKeySteps mem with ⟨_, rfl⟩ | ⟨_, rfl⟩ <;> rfl

theorem appendOnlySteps_kind :
    ∀ step ∈ appendOnlySteps tableName current target, step.kind = .appendOnly := by
  intro step mem
  rw [mem_appendOnlySteps mem]
  rfl

theorem checkConstraintSteps_kind {current target : List CheckConstraintModel} :
    ∀ step ∈ checkConstraintSteps tableName current target, step.kind = .checkConstraint := by
  intro step mem
  rw [mem_checkConstraintSteps mem]
  rfl

/-- The steps of one kind are those of one comparison. -/
theorem alterTableSteps_filter (backend : DatabaseBackend) (equivalence : DefaultEquivalence)
    (current target : TableModel) (kind : StepKind) :
    (alterTableSteps backend equivalence current target).filter (fun step => step.kind = kind) =
      match kind with
      | .extension | .table => []
      | .column => columnSteps current.tableName backend equivalence current.columns target.columns
      | .index => indexSteps current.tableName current.indexes target.indexes
      | .searchIndex =>
        searchIndexSteps current.tableName current.searchIndexes target.searchIndexes
      | .foreignKey => foreignKeySteps current.tableName current.foreignKeys target.foreignKeys
      | .appendOnly => appendOnlySteps current.tableName current target
      | .checkConstraint =>
        checkConstraintSteps current.tableName current.checkConstraints target.checkConstraints := by
  simp only [alterTableSteps, List.filter_append, filter_kind columnSteps_kind,
    filter_kind indexSteps_kind, filter_kind searchIndexSteps_kind, filter_kind foreignKeySteps_kind,
    filter_kind appendOnlySteps_kind, filter_kind checkConstraintSteps_kind]
  cases kind <;> simp

end Shapes

end GraphqlOrm.Migration
