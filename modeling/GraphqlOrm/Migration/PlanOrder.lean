import GraphqlOrm.Migration.Convergence

/-!
# Foreign keys and the columns they reference

A plan creates new tables before it touches any current table, and visits the
current tables in reverse foreign-key order of the current schema. A foreign key
of the target therefore meets the column or the unique key it references only
when the referenced table needs no such step, or happens to be visited earlier.
-/
namespace GraphqlOrm.Migration

open Schema OrderedMap

/-! ### Users and suppliers of a referenced key -/

def References (foreignKey : ForeignKeyModel) : MigrationStep → Prop
  | .addForeignKey _ added => added = foreignKey
  | .createTable table => foreignKey ∈ table.foreignKeys
  | _ => False

/-- The step gives the referenced table a column, or the unique key, that the
foreign key references. -/
def Supplies (foreignKey : ForeignKeyModel) : MigrationStep → Prop
  | .addColumn tableName column =>
    tableName = foreignKey.targetTable ∧ column.name ∈ foreignKey.targetColumns
  | .createIndex tableName index =>
    tableName = foreignKey.targetTable ∧ index.isUnique = true ∧ index.predicate = none ∧
      index.columns = foreignKey.targetColumns
  | _ => False

/-- No step puts a foreign key onto a current table into force before a step that
supplies what it references. -/
def ReferencesSupplied (current : SchemaModel) (steps : List MigrationStep) : Prop :=
  ∀ foreignKey user supplier, References foreignKey user →
    (tableMap current).contains foreignKey.targetTable = true → Supplies foreignKey supplier →
    ¬Before steps user supplier

/-! ### The inputs for which a plan is well ordered -/

/-- The current form of the referenced table lacks a referenced column or the
unique index, and its target form has it. -/
def Awaits (current target : SchemaModel) (foreignKey : ForeignKeyModel) : Prop :=
  ∃ before after, (tableMap current).get? foreignKey.targetTable = some before ∧
    (tableMap target).get? foreignKey.targetTable = some after ∧
    ((∃ name column, (collectBy ColumnModel.name after.columns).get? name = some column ∧
        (collectBy ColumnModel.name before.columns).get? name = none ∧
        name ∈ foreignKey.targetColumns) ∨
      ∃ name index, (collectBy IndexModel.name after.indexes).get? name = some index ∧
        (∀ old, (collectBy IndexModel.name before.indexes).get? name = some old →
          old.eq index = false) ∧
        index.isUnique = true ∧ index.predicate = none ∧ index.columns = foreignKey.targetColumns)

/-- The target declares the foreign key on a table that the current schema lacks. -/
def OnNewTable (current target : SchemaModel) (foreignKey : ForeignKeyModel) : Prop :=
  ∃ name table, (tableMap target).get? name = some table ∧
    (tableMap current).contains name = false ∧ foreignKey ∈ table.foreignKeys

def OnCurrentTable (current target : SchemaModel) (table : TableModel)
    (foreignKey : ForeignKeyModel) : Prop :=
  (tableMap current).get? table.tableName = some table ∧
    ∃ after, (tableMap target).get? table.tableName = some after ∧
      foreignKey ∈ after.foreignKeys ∧ ∀ old ∈ table.foreignKeys, old.identity ≠ foreignKey.identity

/-- A plan goes backwards through the current tables, which are taken in the order of
their names, each behind the tables that its current foreign keys reference. -/
def VisitedBefore (current : SchemaModel) (name other : String) : Prop :=
  Before (PostOrder.order (tableGraph (tableMap current))) other name

/-- No new table waits for a current one, and a current table that waits is not
visited before the table it waits for. -/
def OrderSafe (current target : SchemaModel) : Prop :=
  (∀ foreignKey, OnNewTable current target foreignKey → ¬Awaits current target foreignKey) ∧
  ∀ table foreignKey, OnCurrentTable current target table foreignKey →
    Awaits current target foreignKey →
    ¬VisitedBefore current table.tableName foreignKey.targetTable

/-- The tables are visited in the order of their names' positions. -/
theorem visitedBefore_iff {current : SchemaModel} {table : TableModel} {other : String}
    (stored : (tableMap current).get? table.tableName = some table) :
    VisitedBefore current table.tableName other ↔
      ∃ referenced, referenced.tableName = other ∧
        Before (orderTablesByForeignKeys (tableMap current)).reverse table referenced := by
  have named := tableMap_named current
  unfold VisitedBefore
  rw [← map_orderTables named, Before.map_iff]
  simp only [Before.reverse_iff]
  constructor
  · rintro ⟨referenced, same, before, own, name⟩
    have found := (mem_orderTables named).mp before.right_mem
    rw [name, stored] at found
    cases found
    exact ⟨referenced, own, before⟩
  · rintro ⟨referenced, own, before⟩
    exact ⟨referenced, table, before, own, rfl⟩

/-! ### Which steps a plan contains -/

section Members

variable {backend : DatabaseBackend} {equivalence : DefaultEquivalence} {tableName : String}

theorem addColumn_mem {current target : List ColumnModel} {column : ColumnModel} :
    .addColumn tableName column ∈ columnSteps tableName backend equivalence current target ↔
      ∃ name, (collectBy ColumnModel.name target).get? name = some column ∧
        (collectBy ColumnModel.name current).get? name = none := by
  unfold columnSteps
  rw [List.mem_append, OrderedMap.mem_flatMap, OrderedMap.mem_flatMap]
  constructor
  · rintro (⟨name, wanted, found, emitted⟩ | ⟨name, before, _, emitted⟩)
    · simp only [addedColumn] at emitted
      split at emitted
      · cases emitted
      next absent =>
        cases List.mem_singleton.mp emitted
        rw [Bool.not_eq_true, contains_eq_false] at absent
        exact ⟨name, found, absent⟩
    · simp only [editedColumn] at emitted
      split at emitted
      · cases List.mem_singleton.mp emitted
      · split at emitted
        · cases List.mem_singleton.mp emitted
        · cases emitted
  · rintro ⟨name, found, absent⟩
    refine .inl ⟨name, column, found, ?_⟩
    simp [addedColumn, contains_eq_false.mpr absent]

theorem createIndex_mem {current target : List IndexModel} {index : IndexModel} :
    .createIndex tableName index ∈ indexSteps tableName current target ↔
      ∃ name, (collectBy IndexModel.name target).get? name = some index ∧
        ∀ old, (collectBy IndexModel.name current).get? name = some old → old.eq index = false := by
  unfold indexSteps
  rw [List.mem_append, OrderedMap.mem_flatMap, List.mem_flatMap]
  constructor
  · rintro (⟨name, wanted, found, emitted⟩ | ⟨name, _, emitted⟩)
    · simp only [wantedIndex] at emitted
      split at emitted
      next before stored =>
        split at emitted
        · cases emitted
        next changed =>
          simp only [List.mem_cons, List.not_mem_nil, or_false, reduceCtorEq, false_or,
            MigrationStep.createIndex.injEq, true_and] at emitted
          subst emitted
          refine ⟨name, found, fun old same => ?_⟩
          rw [stored] at same
          cases same
          simpa using changed
      next absent =>
        cases List.mem_singleton.mp emitted
        refine ⟨name, found, fun old same => ?_⟩
        rw [absent] at same
        cases same
    · simp only [removedIndex] at emitted
      split at emitted
      · cases emitted
      · cases List.mem_singleton.mp emitted
  · rintro ⟨name, found, changed⟩
    refine .inl ⟨name, index, found, ?_⟩
    simp only [wantedIndex]
    split
    next before stored => simp [changed before stored]
    · exact .head _

/-- With distinct target identities, exactly the unmatched foreign keys are added. -/
theorem addForeignKey_mem {current target : List ForeignKeyModel} {foreignKey : ForeignKeyModel}
    (distinct : (target.map (·.identity)).Nodup) :
    .addForeignKey tableName foreignKey ∈ foreignKeySteps tableName current target ↔
      foreignKey ∈ target ∧ ∀ old ∈ current, old.identity ≠ foreignKey.identity := by
  have emitted : .addForeignKey tableName foreignKey ∈ foreignKeySteps tableName current target ↔
      ∃ identity ∈ identitiesOf current target,
        foreignKey ∈ surplusOf target current identity := by
    simp [foreignKeySteps, identitiesOf, surplusOf]
  have single : ∀ identity, identityCount target identity ≤ 1 := by
    intro identity
    have sorted := List.nodup_iff_count_le_one.mp distinct identity
    rwa [List.count, List.countP_map, List.countP_eq_length_filter] at sorted
  rw [emitted]
  constructor
  · rintro ⟨identity, _, mem⟩
    have own := surplusOf_identity mem
    have inside := (surplusOf_sublist target current identity).subset mem
    refine ⟨(List.mem_filter.mp inside).1, fun old stored same => ?_⟩
    -- A matching current key uses up the only target key of this identity.
    have positive : 0 < identityCount current identity := by
      unfold identityCount
      apply List.length_pos_of_mem (a := old)
      simp [stored, same, own]
    have length := surplusOf_length target current identity
    have bound := single identity
    have some := List.length_pos_of_mem mem
    omega
  · rintro ⟨mem, unmatched⟩
    refine ⟨foreignKey.identity, mem_identities.mpr (.inr ⟨foreignKey, mem, rfl⟩), ?_⟩
    have zero : identityCount current foreignKey.identity = 0 := by
      apply identityCount_eq_zero
      rintro ⟨old, stored, same⟩
      exact unmatched old stored same
    unfold surplusOf surplus
    rw [sortedGroup_length current, zero, Nat.min_zero, List.drop_zero]
    exact (sortedGroup_perm target foreignKey.identity).mem_iff.mpr
      (List.mem_filter.mpr ⟨mem, by simp⟩)

end Members

section Plan

variable {backend : DatabaseBackend} {equivalence : DefaultEquivalence}
  {current target : SchemaModel} {table : TableModel} {foreignKey : ForeignKeyModel}
  {step user supplier : MigrationStep}

theorem mem_dropTableSteps (mem : step ∈ dropTableSteps table) :
    step.kind = .searchIndex ∨ step.kind = .table ∧ step = .dropTable table.tableName := by
  simp only [dropTableSteps, List.mem_append, List.mem_map, List.mem_singleton] at mem
  rcases mem with ⟨_, _, rfl⟩ | rfl
  · exact .inl rfl
  · exact .inr ⟨rfl, rfl⟩

/-- Among the steps of a current table only its added foreign keys are users. -/
theorem references_mem (mem : step ∈ currentTableSteps backend equivalence target table)
    (uses : References foreignKey step) :
    ∃ after, (tableMap target).get? table.tableName = some after ∧
      .addForeignKey table.tableName foreignKey ∈
        foreignKeySteps table.tableName table.foreignKeys after.foreignKeys ∧
      step.kind = .foreignKey := by
  simp only [currentTableSteps] at mem
  split at mem
  · rcases mem_dropTableSteps mem with searches | ⟨_, rfl⟩
    · cases step <;> simp_all [References, MigrationStep.kind]
    · cases uses
  next after wanted =>
    have edits := mem_alterTableSteps mem
    have kept : step.kind = .foreignKey := by cases step <;> simp_all [References, Edits, MigrationStep.kind]
    have inside : step ∈ (alterTableSteps backend equivalence table after).filter
        fun s => s.kind = .foreignKey := List.mem_filter.mpr ⟨mem, by simpa using kept⟩
    rw [alterTableSteps_filter] at inside
    rcases mem_foreignKeySteps inside with ⟨_, rfl⟩ | ⟨added, rfl⟩
    · cases uses
    · cases uses
      exact ⟨after, wanted, inside, rfl⟩

/-- Only the referenced table supplies, through its columns and indexes. -/
theorem supplies_mem (mem : step ∈ currentTableSteps backend equivalence target table)
    (gives : Supplies foreignKey step) :
    table.tableName = foreignKey.targetTable ∧
      (step.kind = .column ∨ step.kind = .index) ∧
      ∃ after, (tableMap target).get? table.tableName = some after ∧
        (step ∈ columnSteps table.tableName backend equivalence table.columns after.columns ∨
          step ∈ indexSteps table.tableName table.indexes after.indexes) := by
  simp only [currentTableSteps] at mem
  split at mem
  · rcases mem_dropTableSteps mem with searches | ⟨_, rfl⟩
    · cases step <;> simp_all [Supplies, MigrationStep.kind]
    · cases gives
  next after wanted =>
    have edits := mem_alterTableSteps mem
    have named : table.tableName = foreignKey.targetTable := by
      cases step <;> simp_all [Supplies, Edits, MigrationStep.tableName?]
    have kinds : step.kind = .column ∨ step.kind = .index := by
      cases step <;> simp_all [Supplies, MigrationStep.kind]
    refine ⟨named, kinds, after, wanted, ?_⟩
    have filtered := alterTableSteps_filter backend equivalence table after
    rcases kinds with column | index
    · left
      have inside : step ∈ (alterTableSteps backend equivalence table after).filter
          fun s => s.kind = .column := List.mem_filter.mpr ⟨mem, decide_eq_true column⟩
      rwa [filtered] at inside
    · right
      have inside : step ∈ (alterTableSteps backend equivalence table after).filter
          fun s => s.kind = .index := List.mem_filter.mpr ⟨mem, decide_eq_true index⟩
      rwa [filtered] at inside

/-- Inside one table the columns and indexes come before the foreign keys. -/
theorem alterTableSteps_ordered {after : TableModel} (usesKind : user.kind = .foreignKey)
    (givesKind : supplier.kind = .column ∨ supplier.kind = .index) :
    ¬Before (alterTableSteps backend equivalence table after) user supplier := by
  intro before
  unfold alterTableSteps at before
  simp only [List.append_assoc] at before
  have notColumn : user ∉ columnSteps table.tableName backend equivalence table.columns
      after.columns := by
    intro mem
    rw [columnSteps_kind user mem] at usesKind
    cases usesKind
  have notIndex : user ∉ indexSteps table.tableName table.indexes after.indexes := by
    intro mem
    rw [indexSteps_kind user mem] at usesKind
    cases usesKind
  rcases Before.append_iff.mp before with inside | ⟨here, _⟩ | later
  · exact notColumn inside.left_mem
  · exact notColumn here
  rcases Before.append_iff.mp later with inside | ⟨here, _⟩ | last
  · exact notIndex inside.left_mem
  · exact notIndex here
  -- What follows the indexes neither adds a column nor creates an index.
  have kinds : supplier.kind ≠ .column ∧ supplier.kind ≠ .index := by
    have mem := last.right_mem
    simp only [List.mem_append] at mem
    rcases mem with searches | keys | flags | checks
    · rw [searchIndexSteps_kind supplier searches]
      decide
    · rw [foreignKeySteps_kind supplier keys]
      decide
    · rw [appendOnlySteps_kind supplier flags]
      decide
    · rw [checkConstraintSteps_kind supplier checks]
      decide
  rcases givesKind with column | index
  · exact kinds.1 column
  · exact kinds.2 index

/-- The referenced table has a supplying step exactly when something is awaited. -/
theorem supplier_iff (backend : DatabaseBackend) (equivalence : DefaultEquivalence)
    {referenced : TableModel}
    (stored : (tableMap current).get? foreignKey.targetTable = some referenced) :
    (∃ step ∈ currentTableSteps backend equivalence target referenced, Supplies foreignKey step) ↔
      Awaits current target foreignKey := by
  have own := tableMap_named current _ _ stored
  constructor
  · rintro ⟨step, mem, gives⟩
    obtain ⟨_, _, after, wanted, columns | indexes⟩ := supplies_mem mem gives
    · rw [own] at wanted
      refine ⟨referenced, after, stored, wanted, .inl ?_⟩
      rcases mem_columnSteps columns with ⟨column, rfl⟩ | ⟨_, rfl⟩ | ⟨_, _, rfl⟩
      · obtain ⟨name, found, absent⟩ := addColumn_mem.mp columns
        exact ⟨name, column, found, absent, (get?_collectBy_some found).2 ▸ gives.2⟩
      · cases gives
      · cases gives
    · rw [own] at wanted
      refine ⟨referenced, after, stored, wanted, .inr ?_⟩
      rcases mem_indexSteps indexes with ⟨index, rfl⟩ | ⟨_, rfl⟩
      · obtain ⟨name, found, changed⟩ := createIndex_mem.mp indexes
        exact ⟨name, index, found, changed, gives.2⟩
      · cases gives
  · rintro ⟨before, after, stored', wanted, supplied⟩
    cases stored.symm.trans stored'
    have steps : currentTableSteps backend equivalence target referenced =
        alterTableSteps backend equivalence referenced after := by
      simp only [currentTableSteps, own, wanted]
    rw [steps]
    rcases supplied with ⟨name, column, found, absent, listed⟩ |
      ⟨name, index, found, changed, key⟩
    · refine ⟨.addColumn referenced.tableName column, ?_, own,
        (get?_collectBy_some found).2.symm ▸ listed⟩
      simp only [alterTableSteps, List.mem_append]
      exact .inl (.inl (.inl (.inl (.inl (addColumn_mem.mpr ⟨name, found, absent⟩)))))
    · refine ⟨.createIndex referenced.tableName index, ?_, own, key⟩
      simp only [alterTableSteps, List.mem_append]
      exact .inl (.inl (.inl (.inl (.inr (createIndex_mem.mpr ⟨name, found, changed⟩)))))

/-! ### Exactly when a plan is well ordered -/

theorem createTable_mem :
    .createTable table ∈ createTableSteps current target ↔
      (tableMap target).get? table.tableName = some table ∧
        (tableMap current).contains table.tableName = false := by
  rw [createTableSteps_eq]
  simp [newTables, mem_orderTables (tableMap_named target)]

/-- Before the current tables a plan only enables extensions and creates tables. -/
theorem mem_early (mem : step ∈ extensionSteps current.extensions target.extensions ++
    createTableSteps current target) :
    (∃ name, step = .enableExtension name) ∨
      ∃ table, step = .createTable table ∧ step ∈ createTableSteps current target := by
  rcases List.mem_append.mp mem with extension | created
  · rw [extensionSteps_eq] at extension
    obtain ⟨name, _, rfl⟩ := List.mem_map.mp extension
    exact .inl ⟨name, rfl⟩
  · have shape := created
    rw [createTableSteps_eq] at shape
    obtain ⟨table, _, rfl⟩ := List.mem_map.mp shape
    exact .inr ⟨table, rfl, created⟩

/-- A plan supplies every reference in time exactly when no foreign key waits for
a table that is visited after it takes force. -/
theorem referencesSupplied_iff (backend : DatabaseBackend) (current target : SchemaModel)
    (accepted : target.validatePhysicalContract = .ok ()) :
    ReferencesSupplied current (diffSchemaViews backend current target) ↔
      OrderSafe current target := by
  have named := tableMap_named current
  have visited (table : TableModel) : table ∈ (orderTablesByForeignKeys (tableMap current)).reverse ↔
      (tableMap current).get? table.tableName = some table := by
    rw [List.mem_reverse, mem_orderTables named]
  have identities (name : String) (after : TableModel)
      (wanted : (tableMap target).get? name = some after) :
      (after.foreignKeys.map (·.identity)).Nodup :=
    (foreignKeys_of_accepted accepted (get?_collectBy_some wanted).1).2
  unfold diffSchemaViews diffSchemaViewsWith
  constructor
  · intro supplied
    constructor
    · rintro foreignKey ⟨name, table, wanted, absent, declared⟩ awaits
      have own := tableMap_named target name table wanted
      have ⟨referenced, _, stored, _⟩ := awaits
      obtain ⟨supplier, mem, gives⟩ := (supplier_iff backend .pinned8e1 stored).mpr awaits
      apply supplied foreignKey (.createTable table) supplier declared
        (contains_iff.mpr ⟨referenced, stored⟩) gives
      -- All tables are created before any current table is visited.
      apply Before.append_iff.mpr
      refine .inr (.inl ⟨List.mem_append_right _ (createTable_mem.mpr ?_),
        List.mem_flatMap.mpr ⟨referenced, (visited referenced).mpr ?_, mem⟩⟩)
      · rw [own]
        exact ⟨wanted, absent⟩
      · rw [named _ _ stored]
        exact stored
    · rintro table foreignKey ⟨present, after, wanted, declared, unmatched⟩ awaits earlier
      obtain ⟨referenced, name, before⟩ := (visitedBefore_iff present).mp earlier
      have stored : (tableMap current).get? foreignKey.targetTable = some referenced := by
        rw [← name]
        exact (visited referenced).mp before.right_mem
      obtain ⟨supplier, mem, gives⟩ := (supplier_iff backend .pinned8e1 stored).mpr awaits
      apply supplied foreignKey (.addForeignKey table.tableName foreignKey) supplier rfl
        (contains_iff.mpr ⟨referenced, stored⟩) gives
      apply Before.append_iff.mpr
      refine .inr (.inr (Before.flatMap_iff.mpr (.inr ⟨table, referenced, before, ?_, mem⟩)))
      simp only [currentTableSteps, wanted, alterTableSteps, List.mem_append]
      exact .inl (.inl (.inr ((addForeignKey_mem (identities _ after wanted)).mpr
        ⟨declared, unmatched⟩)))
  · rintro ⟨fresh, kept⟩ foreignKey user supplier uses present gives before
    obtain ⟨referenced, stored⟩ := contains_iff.mp present
    rcases Before.append_iff.mp before with early | ⟨first, second⟩ | late
    · rcases mem_early early.right_mem with ⟨_, rfl⟩ | ⟨_, rfl, _⟩ <;> cases gives
    · rcases mem_early first with ⟨_, rfl⟩ | ⟨table, rfl, created⟩
      · cases uses
      obtain ⟨other, mem, emitted⟩ := List.mem_flatMap.mp second
      have location := (supplies_mem emitted gives).1
      have same := (visited other).mp mem
      rw [location, stored] at same
      cases same
      obtain ⟨wanted, absent⟩ := createTable_mem.mp created
      exact fresh foreignKey ⟨_, table, wanted, absent, uses⟩
        ((supplier_iff backend .pinned8e1 stored).mp ⟨supplier, emitted, gives⟩)
    · rcases Before.flatMap_iff.mp late with ⟨table, _, inside⟩ | ⟨table, other, order, first, second⟩
      · obtain ⟨after, wanted, _, usesKind⟩ := references_mem inside.left_mem uses
        have givesKind := (supplies_mem inside.right_mem gives).2.1
        simp only [currentTableSteps, wanted] at inside
        exact alterTableSteps_ordered usesKind givesKind inside
      · obtain ⟨after, wanted, emitted, _⟩ := references_mem first uses
        obtain ⟨declared, unmatched⟩ := (addForeignKey_mem (identities _ after wanted)).mp emitted
        have location := (supplies_mem second gives).1
        have same := (visited other).mp order.right_mem
        rw [location, stored] at same
        cases same
        have present := (visited table).mp order.left_mem
        exact kept table foreignKey ⟨present, after, wanted, declared, unmatched⟩
          ((supplier_iff backend .pinned8e1 stored).mp ⟨supplier, second, gives⟩)
          ((visitedBefore_iff present).mpr ⟨referenced, location, order⟩)

end Plan

/-- Shops without codes, and the schema that gives them a unique code and lets a
new table refer to it. -/
def shopsBefore : SchemaModel where
  tables := [{
    tableName := "shops", primaryKey := "id"
    columns := [{ name := "id", sqlType := "TEXT", isPrimaryKey := true }] }]

def shopsAfter : SchemaModel where
  tables := [{
    tableName := "shops", primaryKey := "id"
    columns := [{ name := "id", sqlType := "TEXT", isPrimaryKey := true },
      { name := "code", sqlType := "TEXT", isUnique := true }] },
   { tableName := "visits", primaryKey := "id"
     columns := [{ name := "id", sqlType := "TEXT", isPrimaryKey := true },
      { name := "shop", sqlType := "TEXT" }]
     foreignKeys := [visitShop] }]
where
  visitShop : ForeignKeyModel := { columnPairs := [⟨"shop", "code"⟩], targetTable := "shops" }

/-- Both schemas are accepted, and the plan creates the visits before the codes. -/
theorem referencesSupplied_fails_shops :
    shopsBefore.validatePhysicalContract = .ok () ∧ shopsAfter.validatePhysicalContract = .ok () ∧
    ¬ReferencesSupplied shopsBefore (diffSchemaViews .postgres shopsBefore shopsAfter) := by
  refine ⟨rfl, rfl, fun supplied => ?_⟩
  have plan : diffSchemaViews .postgres shopsBefore shopsAfter =
      [.createTable (shopsAfter.tables.get ⟨1, by decide⟩),
        .addColumn "shops" { name := "code", sqlType := "TEXT", isUnique := true }] := by
    decide
  rw [plan] at supplied
  apply supplied shopsAfter.visitShop (.createTable (shopsAfter.tables.get ⟨1, by decide⟩))
    (.addColumn "shops" { name := "code", sqlType := "TEXT", isUnique := true })
  · exact .head _
  · decide
  · exact ⟨rfl, by decide⟩
  · exact List.Sublist.refl _

/-- The upgrade of the customers is in order: orders refer to a key that exists. -/
theorem referencesSupplied_customers :
    customersAfter.validatePhysicalContract = .ok () ∧
    (ReferencesSupplied customersBefore (diffSchemaViews .postgres customersBefore customersAfter) ↔
      OrderSafe customersBefore customersAfter) :=
  ⟨rfl, referencesSupplied_iff .postgres customersBefore customersAfter rfl⟩

end GraphqlOrm.Migration
