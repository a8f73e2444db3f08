import GraphqlOrm.Migration.TableOrder

/-!
# When the diff is empty

The planner is silent exactly when the two views agree in everything it
compares: extensions up to case, table names, and per table the columns, the
indexes, the search indexes, the number of foreign keys of each identity, the
append-only flags and the check constraints. Nothing else of a table matters.
-/
namespace GraphqlOrm.Migration

open Schema

def MapsAgree {κ α : Type} [LinearOrder κ] (same : α → α → Prop) (current target : OrderedMap κ α) :
    Prop :=
  ∀ key, Option.Rel same (current.get? key) (target.get? key)

def identityCount (foreignKeys : List ForeignKeyModel) (identity : ForeignKeyIdentity) : Nat :=
  (foreignKeys.filter fun foreignKey => foreignKey.identity = identity).length

/-- Agreement of one table in everything the planner compares. -/
structure TableAgrees (backend : DatabaseBackend) (equivalence : DefaultEquivalence)
    (current target : TableModel) : Prop where
  columns : MapsAgree (fun before after => columnChangedWith backend before after equivalence = false)
    (.collectBy ColumnModel.name current.columns) (.collectBy ColumnModel.name target.columns)
  indexes : MapsAgree (fun before after => before.eq after = true)
    (.collectBy IndexModel.name current.indexes) (.collectBy IndexModel.name target.indexes)
  searchIndexes : MapsAgree Eq (.collectBy SearchIndexModel.name current.searchIndexes)
    (.collectBy SearchIndexModel.name target.searchIndexes)
  foreignKeys : ∀ identity,
    identityCount current.foreignKeys identity = identityCount target.foreignKeys identity
  appendOnly : current.appendOnly = target.appendOnly
  retentionPurge : current.retentionPurge = target.retentionPurge
  checkConstraints : checkConstraintsEquivalent current.checkConstraints target.checkConstraints

/-- Agreement of two schemas in everything the planner compares. -/
structure SchemaAgrees (backend : DatabaseBackend) (equivalence : DefaultEquivalence)
    (current target : SchemaModel) : Prop where
  extensions : ∀ extension ∈ target.extensions,
    Text.lower extension ∈ current.extensions.map Text.lower
  tables : MapsAgree (TableAgrees backend equivalence) (tableMap current) (tableMap target)

/-! ### Maps -/

section Maps

variable {κ α β : Type} [LinearOrder κ] {same : α → α → Prop} {current target : OrderedMap κ α}

theorem mapsAgree_iff : MapsAgree same current target ↔
    (∀ key t, target.get? key = some t → ∃ c, current.get? key = some c ∧ same c t) ∧
    (∀ key c, current.get? key = some c → target.contains key = true) := by
  constructor
  · intro agree
    refine ⟨fun key t found => ?_, fun key c found => ?_⟩
    · have related := agree key
      rw [found] at related
      cases stored : current.get? key with
      | none =>
        rw [stored] at related
        cases related
      | some c =>
        rw [stored] at related
        cases related with
        | some holds => exact ⟨c, rfl, holds⟩
    · have related := agree key
      rw [found] at related
      cases stored : target.get? key with
      | none =>
        rw [stored] at related
        cases related
      | some t => exact OrderedMap.contains_iff.mpr ⟨t, stored⟩
  · rintro ⟨forward, backward⟩ key
    cases wanted : target.get? key with
    | some t =>
      obtain ⟨c, stored, holds⟩ := forward key t wanted
      rw [stored]
      exact .some holds
    | none =>
      cases stored : current.get? key with
      | none => exact .none
      | some c =>
        have kept := backward key c stored
        rw [OrderedMap.contains, wanted] at kept
        cases kept

theorem rel_imp {same' : α → α → Prop} {a b : Option α} (related : Option.Rel same a b)
    (stronger : ∀ x y, a = some x → b = some y → same x y → same' x y) : Option.Rel same' a b := by
  cases related with
  | none => exact .none
  | some holds => exact .some (stronger _ _ rfl rfl holds)

theorem rel_eq_iff {a b : Option α} : Option.Rel Eq a b ↔ a = b := by
  constructor
  · rintro (_ | _)
    · simp_all
    · rfl
  · rintro rfl
    cases a with
    | none => exact .none
    | some value => exact .some rfl

theorem mapsAgree_eq_iff :
    MapsAgree Eq current target ↔ ∀ key, current.get? key = target.get? key := by
  simp only [MapsAgree, rel_eq_iff]

/-- The emission pattern of every name-keyed comparison. -/
theorem flatMaps_eq_nil {f g : κ × α → List β}
    (targetSilent : ∀ key t, f (key, t) = [] ↔ ∃ c, current.get? key = some c ∧ same c t)
    (currentSilent : ∀ key c, g (key, c) = [] ↔ target.contains key = true) :
    target.entries.flatMap f ++ current.entries.flatMap g = [] ↔ MapsAgree same current target := by
  rw [List.append_eq_nil_iff, OrderedMap.flatMap_eq_nil, OrderedMap.flatMap_eq_nil, mapsAgree_iff]
  simp only [targetSilent, currentSilent]

end Maps

/-! ### Components of one table -/

variable {backend : DatabaseBackend} {equivalence : DefaultEquivalence} {tableName : String}

theorem columnSteps_eq_nil {current target : List ColumnModel} :
    columnSteps tableName backend equivalence current target = [] ↔
      MapsAgree (fun before after => columnChangedWith backend before after equivalence = false)
        (.collectBy ColumnModel.name current) (.collectBy ColumnModel.name target) := by
  -- Here the comparison is made while walking the current columns, not the target ones.
  unfold columnSteps
  rw [List.append_eq_nil_iff, OrderedMap.flatMap_eq_nil, OrderedMap.flatMap_eq_nil]
  constructor
  · rintro ⟨added, dropped⟩ name
    cases wanted : (OrderedMap.collectBy ColumnModel.name target).get? name with
    | none =>
      cases stored : (OrderedMap.collectBy ColumnModel.name current).get? name with
      | none => exact .none
      | some column =>
        have silent := dropped name column stored
        simp [editedColumn, wanted] at silent
    | some column =>
      cases stored : (OrderedMap.collectBy ColumnModel.name current).get? name with
      | none =>
        have silent := added name column wanted
        simp [addedColumn, OrderedMap.contains, stored] at silent
      | some before =>
        have silent := dropped name before stored
        exact .some (by simpa [editedColumn, wanted] using silent)
  · intro agree
    refine ⟨fun name column wanted => ?_, fun name column stored => ?_⟩
    · obtain ⟨before, stored, _⟩ := (mapsAgree_iff.mp agree).1 name column wanted
      simp [addedColumn, OrderedMap.contains, stored]
    · have related := agree name
      rw [stored] at related
      cases wanted : (OrderedMap.collectBy ColumnModel.name target).get? name with
      | none =>
        rw [wanted] at related
        cases related
      | some after =>
        rw [wanted] at related
        cases related with
        | some unchanged => simp [editedColumn, wanted, unchanged]

theorem indexSteps_eq_nil {current target : List IndexModel} :
    indexSteps tableName current target = [] ↔
      MapsAgree (fun before after => before.eq after = true)
        (.collectBy IndexModel.name current) (.collectBy IndexModel.name target) := by
  unfold indexSteps
  simp only [OrderedMap.keys, List.flatMap_map]
  apply flatMaps_eq_nil
  · intro name index
    cases stored : (OrderedMap.collectBy IndexModel.name current).get? name <;>
      simp [wantedIndex, stored]
  · intro name index
    simp [removedIndex]

theorem searchIndexSteps_eq_nil {current target : List SearchIndexModel} :
    searchIndexSteps tableName current target = [] ↔
      MapsAgree Eq (.collectBy SearchIndexModel.name current)
        (.collectBy SearchIndexModel.name target) := by
  unfold searchIndexSteps
  simp only [OrderedMap.keys, List.flatMap_map]
  apply flatMaps_eq_nil
  · intro name index
    cases stored : (OrderedMap.collectBy SearchIndexModel.name current).get? name <;>
      simp [wantedSearchIndex, stored]
  · intro name index
    simp [removedSearchIndex]

theorem sortedGroup_perm (foreignKeys : List ForeignKeyModel) (identity : ForeignKeyIdentity) :
    (sortedGroup (.groupBy ForeignKeyModel.identity foreignKeys) identity).Perm
      (foreignKeys.filter fun foreignKey => foreignKey.identity = identity) := by
  unfold sortedGroup
  rw [OrderedMap.getD_groupBy]
  exact List.perm_insertionSort
    (fun a b : ForeignKeyModel => nameLe a.constraintName b.constraintName) _

theorem sortedGroup_length (foreignKeys : List ForeignKeyModel) (identity : ForeignKeyIdentity) :
    (sortedGroup (.groupBy ForeignKeyModel.identity foreignKeys) identity).length =
      identityCount foreignKeys identity :=
  (sortedGroup_perm foreignKeys identity).length_eq

variable {identity : ForeignKeyIdentity}

/-- The identities the comparison goes through are those of either side. -/
theorem mem_identities {current target : List ForeignKeyModel} :
    identity ∈ (OrderedMap.collectBy id
      ((OrderedMap.groupBy ForeignKeyModel.identity current).keys ++
        (OrderedMap.groupBy ForeignKeyModel.identity target).keys)).keys ↔
      (∃ fk ∈ current, fk.identity = identity) ∨ ∃ fk ∈ target, fk.identity = identity := by
  rw [OrderedMap.mem_keys, OrderedMap.contains_collectBy]
  simp only [List.mem_append, OrderedMap.mem_keys, OrderedMap.contains_groupBy, id_eq,
    exists_eq_right]

theorem surplus_eq_nil {current target : List ForeignKeyModel} :
    surplus (.groupBy ForeignKeyModel.identity current) (.groupBy ForeignKeyModel.identity target)
        identity = [] ↔ identityCount current identity ≤ identityCount target identity := by
  unfold surplus
  rw [List.drop_eq_nil_iff, sortedGroup_length, sortedGroup_length]
  omega

theorem identityCount_eq_zero {foreignKeys : List ForeignKeyModel}
    (absent : ¬∃ fk ∈ foreignKeys, fk.identity = identity) :
    identityCount foreignKeys identity = 0 := by
  unfold identityCount
  rw [List.length_eq_zero_iff, List.filter_eq_nil_iff]
  intro fk mem
  simpa using fun same => absent ⟨fk, mem, same⟩

theorem foreignKeySteps_eq_nil {current target : List ForeignKeyModel} :
    foreignKeySteps tableName current target = [] ↔
      ∀ identity, identityCount current identity = identityCount target identity := by
  unfold foreignKeySteps
  rw [List.append_eq_nil_iff, List.flatMap_eq_nil_iff, List.flatMap_eq_nil_iff]
  simp only [List.map_eq_nil_iff, surplus_eq_nil, mem_identities]
  constructor
  · rintro ⟨dropped, added⟩ identity
    by_cases listed : (∃ fk ∈ current, fk.identity = identity) ∨ ∃ fk ∈ target, fk.identity = identity
    · exact Nat.le_antisymm (dropped identity listed) (added identity listed)
    · rw [not_or] at listed
      rw [identityCount_eq_zero listed.1, identityCount_eq_zero listed.2]
  · intro equal
    exact ⟨fun identity _ => (equal identity).le, fun identity _ => (equal identity).ge⟩

theorem alterTableSteps_eq_nil {current target : TableModel} :
    alterTableSteps backend equivalence current target = [] ↔
      TableAgrees backend equivalence current target := by
  unfold alterTableSteps
  simp only [List.append_eq_nil_iff, columnSteps_eq_nil, indexSteps_eq_nil,
    searchIndexSteps_eq_nil, foreignKeySteps_eq_nil]
  have flags : appendOnlySteps current.tableName current target = [] ↔
      current.appendOnly = target.appendOnly ∧ current.retentionPurge = target.retentionPurge := by
    unfold appendOnlySteps
    simp
  have checks : checkConstraintSteps current.tableName current.checkConstraints
      target.checkConstraints = [] ↔
      checkConstraintsEquivalent current.checkConstraints target.checkConstraints = true := by
    unfold checkConstraintSteps
    simp
  rw [flags, checks]
  constructor
  · rintro ⟨⟨⟨⟨⟨columns, indexes⟩, searches⟩, foreignKeys⟩, appendOnly, retention⟩, constraints⟩
    exact ⟨columns, indexes, searches, foreignKeys, appendOnly, retention, constraints⟩
  · rintro ⟨columns, indexes, searches, foreignKeys, appendOnly, retention, constraints⟩
    exact ⟨⟨⟨⟨⟨columns, indexes⟩, searches⟩, foreignKeys⟩, appendOnly, retention⟩, constraints⟩

/-! ### The whole diff -/

theorem extensionSteps_eq_nil {current target : List String} :
    extensionSteps current target = [] ↔
      ∀ extension ∈ target, Text.lower extension ∈ current.map Text.lower := by
  unfold extensionSteps
  rw [List.flatMap_eq_nil_iff]
  simp only [List.contains_eq_mem, decide_eq_true_eq, ite_eq_left_iff, List.cons_ne_nil, imp_false,
    not_not]

theorem createTableSteps_eq_nil {current target : SchemaModel} :
    createTableSteps current target = [] ↔
      ∀ name table, (tableMap target).get? name = some table →
        (tableMap current).contains name = true := by
  have named := tableMap_named target
  unfold createTableSteps
  rw [List.flatMap_eq_nil_iff]
  constructor
  · intro silent name table found
    have own := named name table found
    have emitted := silent table ((mem_orderTables named).mpr (by rw [own]; exact found))
    rw [own] at emitted
    simpa using emitted
  · intro present table mem
    simp [present _ table ((mem_orderTables named).mp mem)]

theorem currentTableSteps_eq_nil {target : SchemaModel} {table : TableModel} :
    currentTableSteps backend equivalence target table = [] ↔
      ∃ wanted, (tableMap target).get? table.tableName = some wanted ∧
        TableAgrees backend equivalence table wanted := by
  unfold currentTableSteps
  cases (tableMap target).get? table.tableName with
  | none => simp [dropTableSteps]
  | some wanted => simp [alterTableSteps_eq_nil]

/-- The diff is empty exactly when the schemas agree in what the planner compares. -/
theorem diff_eq_nil {current target : SchemaModel} :
    diffSchemaViewsWith backend current target equivalence = [] ↔
      SchemaAgrees backend equivalence current target := by
  have named := tableMap_named current
  unfold diffSchemaViewsWith
  rw [List.append_eq_nil_iff, List.append_eq_nil_iff, extensionSteps_eq_nil,
    createTableSteps_eq_nil, List.flatMap_eq_nil_iff]
  simp only [List.mem_reverse, mem_orderTables named, currentTableSteps_eq_nil]
  constructor
  · rintro ⟨⟨extensions, created⟩, altered⟩
    refine ⟨extensions, mapsAgree_iff.mpr ⟨fun name table wanted => ?_, fun name table stored => ?_⟩⟩
    · obtain ⟨before, stored⟩ := OrderedMap.contains_iff.mp (created name table wanted)
      have own := named name before stored
      obtain ⟨found, lookup, agrees⟩ := altered before (by rw [own]; exact stored)
      rw [own, wanted] at lookup
      cases lookup
      exact ⟨before, stored, agrees⟩
    · have own := named name table stored
      obtain ⟨found, lookup, _⟩ := altered table (by rw [own]; exact stored)
      exact OrderedMap.contains_iff.mpr ⟨found, own ▸ lookup⟩
  · rintro ⟨extensions, tables⟩
    obtain ⟨forward, backward⟩ := mapsAgree_iff.mp tables
    refine ⟨⟨extensions, fun name table wanted => ?_⟩, fun table stored => ?_⟩
    · obtain ⟨before, stored, _⟩ := forward name table wanted
      exact OrderedMap.contains_iff.mpr ⟨before, stored⟩
    · obtain ⟨wanted, found⟩ := OrderedMap.contains_iff.mp (backward _ table stored)
      obtain ⟨before, stored', agrees⟩ := forward _ wanted found
      rw [stored] at stored'
      cases stored'
      exact ⟨wanted, found, agrees⟩

end GraphqlOrm.Migration
