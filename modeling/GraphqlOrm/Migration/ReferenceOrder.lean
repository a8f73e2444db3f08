import GraphqlOrm.Migration.PlanOrder

/-!
# Tables after the tables they reference

The walk is a depth-first search that lists a table after its nested calls. Where no table refers
back to itself through others, every call below a table ends with all that the table references
listed, and a plan creates and drops tables in an order that its foreign keys allow.
-/
namespace GraphqlOrm.Migration

open Schema OrderedMap

section Graph

variable (tables : OrderedMap String TableModel)

/-- The table under the first name has a foreign key to the other one, within the map. -/
def Refers (name other : String) : Prop :=
  (∃ table, tables.get? name = some table ∧
    ∃ foreignKey ∈ table.foreignKeys, foreignKey.targetTable = other) ∧
  tables.contains other = true ∧ name ≠ other

def Acyclic : Prop := ∀ name, ¬ Relation.TransGen (Refers tables) name name

end Graph

variable {tables : OrderedMap String TableModel}

/-! ### The graph of the walk -/

theorem refers_iff {name other : String} :
    Refers tables name other ↔ PostOrder.Refers (tableGraph tables) name other := by
  constructor
  · rintro ⟨⟨table, stored, foreignKey, mem, rfl⟩, inside, apart⟩
    refine ⟨mem_keys.mpr (contains_iff.mpr ⟨table, stored⟩), ?_, mem_keys.mpr inside, apart⟩
    simpa [tableGraph, stored] using ⟨foreignKey, mem, rfl⟩
  · rintro ⟨listed, reference, inside, apart⟩
    obtain ⟨table, stored⟩ := contains_iff.mp (mem_keys.mp listed)
    simp only [tableGraph, stored, Option.map_some, Option.getD_some, List.mem_map] at reference
    exact ⟨⟨table, stored, reference⟩, mem_keys.mp inside, apart⟩

theorem acyclic_graph (acyclic : Acyclic tables) : PostOrder.Acyclic (tableGraph tables) :=
  fun name cycle => acyclic name (cycle.lift id fun _ _ => refers_iff.mpr)

/-! ### Plans -/

/-- Both steps are there, and the second one never comes before the first. -/
def Precedes (steps : List MigrationStep) (first second : MigrationStep) : Prop :=
  first ∈ steps ∧ second ∈ steps ∧ ¬Before steps second first

section Plans

variable {backend : DatabaseBackend} {equivalence : DefaultEquivalence}
  {current target schema : SchemaModel} {table referenced referencing : TableModel}
  {step : MigrationStep} {name : String}

theorem before_of_reference (acyclic : Acyclic (tableMap schema))
    (stored : (tableMap schema).get? table.tableName = some table)
    (also : (tableMap schema).get? referenced.tableName = some referenced)
    (reference : ∃ foreignKey ∈ table.foreignKeys,
      foreignKey.targetTable = referenced.tableName)
    (apart : table.tableName ≠ referenced.tableName) :
    Before (orderTablesByForeignKeys (tableMap schema)) referenced table := by
  have refers : Refers (tableMap schema) table.tableName referenced.tableName :=
    ⟨⟨table, stored, reference⟩, contains_iff.mpr ⟨referenced, also⟩, apart⟩
  have before := PostOrder.order_before (acyclic_graph acyclic) (refers_iff.mp refers)
  have pair := before.filterMap (tableMap schema).get?
  unfold Before
  rw [orderTables_eq]
  simpa [stored, also] using pair

theorem orderTables_asymm (before : Before (orderTablesByForeignKeys (tableMap schema)) referenced table) :
    ¬Before (orderTablesByForeignKeys (tableMap schema)) table referenced :=
  before.asymm (orderTables_nodup (tableMap_named schema)).of_map

/-- A step for a current table names that table, and creates nothing. -/
theorem currentTableSteps_name (mem : step ∈ currentTableSteps backend equivalence target table) :
    step.tableName? = some table.tableName ∧ ∀ created, step ≠ .createTable created := by
  simp only [currentTableSteps] at mem
  split at mem
  · simp only [dropTableSteps, List.mem_append, List.mem_map, List.mem_singleton] at mem
    rcases mem with ⟨_, _, rfl⟩ | rfl
    · exact ⟨rfl, fun _ same => by cases same⟩
    · exact ⟨rfl, fun _ same => by cases same⟩
  · have edits := mem_alterTableSteps mem
    cases step with
    | enableExtension | createTable | dropTable => cases edits
    | _ => exact ⟨edits, fun _ same => by cases same⟩

theorem createTable_mem_diff :
    .createTable table ∈ diffSchemaViewsWith backend current target equivalence ↔
      (tableMap target).get? table.tableName = some table ∧
        (tableMap current).contains table.tableName = false := by
  unfold diffSchemaViewsWith
  rw [List.mem_append, List.mem_append, createTable_mem, extensionSteps_eq]
  constructor
  · rintro ((extension | created) | later)
    · obtain ⟨_, _, same⟩ := List.mem_map.mp extension
      cases same
    · exact created
    · obtain ⟨_, _, emitted⟩ := List.mem_flatMap.mp later
      exact absurd rfl ((currentTableSteps_name emitted).2 table)
  · exact fun created => .inl (.inr created)

theorem before_createTable (before : Before (diffSchemaViewsWith backend current target equivalence)
    (.createTable table) (.createTable referenced)) :
    Before (orderTablesByForeignKeys (tableMap target)) table referenced := by
  have noExtension (created : TableModel) :
      .createTable created ∉ extensionSteps current.extensions target.extensions := by
    rw [extensionSteps_eq]
    intro mem
    obtain ⟨_, _, same⟩ := List.mem_map.mp mem
    cases same
  have notLater (created : TableModel) :
      .createTable created ∉ (orderTablesByForeignKeys (tableMap current)).reverse.flatMap
        (currentTableSteps backend equivalence target) := by
    intro mem
    obtain ⟨_, _, emitted⟩ := List.mem_flatMap.mp mem
    exact (currentTableSteps_name emitted).2 created rfl
  unfold diffSchemaViewsWith at before
  rcases Before.append_iff.mp before with early | ⟨_, late⟩ | late
  · rcases Before.append_iff.mp early with extension | ⟨extension, _⟩ | created
    · exact absurd extension.left_mem (noExtension table)
    · exact absurd extension (noExtension table)
    · rw [createTableSteps_eq] at created
      obtain ⟨a, b, inside, first, second⟩ := Before.map_iff.mp created
      cases first
      cases second
      exact inside.trans List.filter_sublist
  · exact absurd late (notLater referenced)
  · exact absurd late.left_mem (notLater table)

/-- New tables are created after the new tables that they reference. -/
theorem precedes_createTable (acyclic : Acyclic (tableMap target))
    (created : .createTable table ∈ diffSchemaViewsWith backend current target equivalence)
    (also : .createTable referenced ∈ diffSchemaViewsWith backend current target equivalence)
    (reference : ∃ foreignKey ∈ table.foreignKeys,
      foreignKey.targetTable = referenced.tableName)
    (apart : table.tableName ≠ referenced.tableName) :
    Precedes (diffSchemaViewsWith backend current target equivalence)
      (.createTable referenced) (.createTable table) :=
  ⟨also, created, fun before => orderTables_asymm
    (before_of_reference acyclic (createTable_mem_diff.mp created).1
      (createTable_mem_diff.mp also).1 reference apart) (before_createTable before)⟩

/-- A step of the plan that names a table without creating it belongs to a current table. -/
theorem mem_diff_of_name (mem : step ∈ diffSchemaViewsWith backend current target equivalence)
    (named : step.tableName? = some name) (edits : ∀ created, step ≠ .createTable created) :
    ∃ table, (tableMap current).get? name = some table ∧
      step ∈ currentTableSteps backend equivalence target table := by
  rcases List.mem_append.mp mem with early | late
  · rcases mem_early early with ⟨_, rfl⟩ | ⟨created, rfl, _⟩
    · cases named
    · exact absurd rfl (edits created)
  · obtain ⟨table, listed, emitted⟩ := List.mem_flatMap.mp late
    rw [List.mem_reverse, mem_orderTables (tableMap_named current)] at listed
    have own := (currentTableSteps_name emitted).1
    rw [named] at own
    cases own
    exact ⟨table, listed, emitted⟩

/-- The steps of a table come before those of the tables that it references. -/
theorem precedes_currentTable (acyclic : Acyclic (tableMap current))
    (stored : (tableMap current).get? referencing.tableName = some referencing)
    (also : (tableMap current).get? referenced.tableName = some referenced)
    (reference : ∃ foreignKey ∈ referencing.foreignKeys,
      foreignKey.targetTable = referenced.tableName)
    (apart : referencing.tableName ≠ referenced.tableName) {first second : MigrationStep}
    (firstMember : first ∈ currentTableSteps backend equivalence target referencing)
    (secondMember : second ∈ currentTableSteps backend equivalence target referenced) :
    Precedes (diffSchemaViewsWith backend current target equivalence) first second := by
  have listed {table : TableModel}
      (found : (tableMap current).get? table.tableName = some table) :
      table ∈ (orderTablesByForeignKeys (tableMap current)).reverse := by
    rw [List.mem_reverse, mem_orderTables (tableMap_named current)]
    exact found
  refine ⟨List.mem_append_right _ (List.mem_flatMap.mpr ⟨referencing, listed stored, firstMember⟩),
    List.mem_append_right _ (List.mem_flatMap.mpr ⟨referenced, listed also, secondMember⟩),
    fun before => ?_⟩
  have order := before_of_reference acyclic stored also reference apart
  obtain ⟨firstName, firstEdits⟩ := currentTableSteps_name firstMember
  obtain ⟨secondName, secondEdits⟩ := currentTableSteps_name secondMember
  have notEarly {step : MigrationStep} {name : String} (named : step.tableName? = some name)
      (edits : ∀ created, step ≠ .createTable created) :
      step ∉ extensionSteps current.extensions target.extensions ++
        createTableSteps current target := by
    intro mem
    rcases mem_early mem with ⟨_, rfl⟩ | ⟨created, rfl, _⟩
    · cases named
    · exact edits created rfl
  rcases Before.append_iff.mp before with early | ⟨early, _⟩ | late
  · exact notEarly secondName secondEdits early.left_mem
  · exact notEarly secondName secondEdits early
  rcases Before.flatMap_iff.mp late with ⟨table, _, inside⟩ | ⟨a, b, walked, left, right⟩
  · -- The steps of one table name one table.
    have one := (currentTableSteps_name inside.left_mem).1
    have two := (currentTableSteps_name inside.right_mem).1
    rw [secondName] at one
    rw [firstName] at two
    exact apart (Option.some.inj (two.trans one.symm))
  · have memberA := walked.left_mem
    have memberB := walked.right_mem
    rw [List.mem_reverse, mem_orderTables (tableMap_named current)] at memberA memberB
    have one := (currentTableSteps_name left).1
    have two := (currentTableSteps_name right).1
    rw [secondName] at one
    rw [firstName] at two
    rw [← Option.some.inj one, also] at memberA
    rw [← Option.some.inj two, stored] at memberB
    cases memberA
    cases memberB
    have back : Before (orderTablesByForeignKeys (tableMap current)) referencing referenced := by
      have turned := walked.reverse
      rw [List.reverse_reverse] at turned
      exact turned
    exact orderTables_asymm order back

theorem dropTable_mem_diff :
    .dropTable name ∈ diffSchemaViewsWith backend current target equivalence ↔
      (tableMap current).contains name = true ∧ (tableMap target).contains name = false := by
  constructor
  · intro mem
    obtain ⟨table, stored, emitted⟩ := mem_diff_of_name mem rfl (fun _ same => by cases same)
    refine ⟨contains_iff.mpr ⟨table, stored⟩, ?_⟩
    have own := tableMap_named current _ _ stored
    simp only [currentTableSteps, own] at emitted
    split at emitted
    next absent => exact contains_eq_false.mpr absent
    · exact absurd (mem_alterTableSteps emitted) id
  · rintro ⟨present, absent⟩
    obtain ⟨table, stored⟩ := contains_iff.mp present
    have own := tableMap_named current _ _ stored
    refine List.mem_append_right _ (List.mem_flatMap.mpr ⟨table, ?_, ?_⟩)
    · rw [List.mem_reverse, mem_orderTables (tableMap_named current), own]
      exact stored
    · simp [currentTableSteps, dropTableSteps, own, contains_eq_false.mp absent]

theorem dropTable_emitted (stored : (tableMap current).get? table.tableName = some table)
    (dropped : .dropTable table.tableName ∈ diffSchemaViewsWith backend current target equivalence) :
    .dropTable table.tableName ∈ currentTableSteps backend equivalence target table := by
  obtain ⟨other, found, emitted⟩ := mem_diff_of_name dropped rfl (fun _ same => by cases same)
  rw [stored] at found
  cases found
  exact emitted

/-- Where the target has fewer foreign keys of an identity, one of them is dropped. -/
theorem dropForeignKey_mem {current target : List ForeignKeyModel} (tableName : String)
    {foreignKey : ForeignKeyModel}
    (fewer : identityCount target foreignKey.identity < identityCount current foreignKey.identity)
    (mem : foreignKey ∈ current) :
    ∃ dropped ∈ current, dropped.identity = foreignKey.identity ∧
      .dropForeignKey tableName dropped ∈ foreignKeySteps tableName current target := by
  have length := surplusOf_length current target foreignKey.identity
  obtain ⟨dropped, inside⟩ := List.exists_mem_of_length_pos
    (show 0 < (surplusOf current target foreignKey.identity).length by omega)
  have among := (surplusOf_sublist current target foreignKey.identity).subset inside
  refine ⟨dropped, (List.mem_filter.mp among).1, surplusOf_identity inside, ?_⟩
  unfold foreignKeySteps
  refine List.mem_append_left _ (List.mem_flatMap.mpr ⟨foreignKey.identity, ?_, ?_⟩)
  · exact mem_identities.mpr (.inl ⟨foreignKey, mem, rfl⟩)
  · exact List.mem_map_of_mem inside

end Plans

/-! ### The order of tables and plans -/

/-- The walk lists every table of a map once, whatever its foreign keys, and after the tables that it
references when no cycle leads through others. A plan creates tables in this order, and drops a table
only after the tables and the foreign keys that refer to it. -/
theorem tables_follow_references (backend : DatabaseBackend) (equivalence : DefaultEquivalence)
    (tables : OrderedMap String TableModel) (current target : SchemaModel) :
    let plan := diffSchemaViewsWith backend current target equivalence
    (orderTablesByForeignKeys tables).Perm tables.values ∧
    (∀ fuel, tables.keys.length < fuel →
      (tables.keys.foldl (visit tables fuel) {}).ordered = orderTablesByForeignKeys tables) ∧
    (∃ names : List String, names.Perm tables.keys ∧
      orderTablesByForeignKeys tables = names.filterMap tables.get? ∧
      (Acyclic tables → ∀ name other, Refers tables name other → Before names other name)) ∧
    (Acyclic (tableMap target) → ∀ table referenced, .createTable table ∈ plan →
      .createTable referenced ∈ plan → table.tableName ≠ referenced.tableName →
      (∃ foreignKey ∈ table.foreignKeys, foreignKey.targetTable = referenced.tableName) →
        Precedes plan (.createTable referenced) (.createTable table)) ∧
    (Acyclic (tableMap current) → ∀ name referencing, .dropTable name ∈ plan →
      (tableMap current).get? referencing.tableName = some referencing →
      referencing.tableName ≠ name → ∀ foreignKey ∈ referencing.foreignKeys,
      foreignKey.targetTable = name →
        ((tableMap target).get? referencing.tableName = none →
          Precedes plan (.dropTable referencing.tableName) (.dropTable name)) ∧
        ∀ after, (tableMap target).get? referencing.tableName = some after →
          (∀ lost, .dropForeignKey referencing.tableName lost ∈ plan →
            Precedes plan (.dropForeignKey referencing.tableName lost) (.dropTable name)) ∧
          (identityCount after.foreignKeys foreignKey.identity <
              identityCount referencing.foreignKeys foreignKey.identity →
            ∃ lost ∈ referencing.foreignKeys, lost.identity = foreignKey.identity ∧
              .dropForeignKey referencing.tableName lost ∈ plan)) := by
  intro plan
  refine ⟨orderTables_perm tables, fun _ => orderTables_fuel, ?_, ?_, ?_⟩
  · refine ⟨PostOrder.order (tableGraph tables), PostOrder.order_perm _, orderTables_eq tables, ?_⟩
    intro acyclic name other refers
    exact PostOrder.order_before (acyclic_graph acyclic) (refers_iff.mp refers)
  · exact fun acyclic table referenced created also apart reference =>
      precedes_createTable acyclic created also reference apart
  · intro acyclic name referencing dropped stored apart foreignKey mem named
    obtain ⟨referenced, also⟩ := contains_iff.mp (dropTable_mem_diff.mp dropped).1
    obtain rfl := tableMap_named current _ _ also
    have last := dropTable_emitted also dropped
    have reference : ∃ foreignKey ∈ referencing.foreignKeys,
        foreignKey.targetTable = referenced.tableName := ⟨foreignKey, mem, named⟩
    refine ⟨fun absent => ?_, fun after wanted => ?_⟩
    · refine precedes_currentTable acyclic stored also reference apart ?_ last
      refine dropTable_emitted stored (dropTable_mem_diff.mpr ⟨?_, contains_eq_false.mpr absent⟩)
      exact contains_iff.mpr ⟨referencing, stored⟩
    · refine ⟨fun lost inside => ?_, fun fewer => ?_⟩
      · obtain ⟨other, found, emitted⟩ := mem_diff_of_name inside rfl (fun _ same => by cases same)
        rw [stored] at found
        cases found
        exact precedes_currentTable acyclic stored also reference apart emitted last
      · obtain ⟨lost, among, same, emitted⟩ := dropForeignKey_mem
          referencing.tableName fewer mem
        refine ⟨lost, among, same, List.mem_append_right _ (List.mem_flatMap.mpr
          ⟨referencing, ?_, ?_⟩)⟩
        · rw [List.mem_reverse, mem_orderTables (tableMap_named current)]
          exact stored
        · simp only [currentTableSteps, wanted, alterTableSteps, List.mem_append]
          exact .inl (.inl (.inr emitted))

end GraphqlOrm.Migration
