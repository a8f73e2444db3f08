import GraphqlOrm.Migration.Agreement
import GraphqlOrm.Migration.Apply

/-!
# Applying a plan settles the diff

A comparison emits its steps name by name, and the steps of one name act on that
name only. So the result of a whole comparison can be read off one name at a
time, and there the four cases of "present before" and "wanted after" decide.
-/
namespace GraphqlOrm.Migration

open Schema MigrationStep OrderedMap

variable {backend : DatabaseBackend} {equivalence : DefaultEquivalence} {tableName : String}

/-! ### Columns -/

def columnNamed (columns : List ColumnModel) : String → Option ColumnModel :=
  (collectBy ColumnModel.name columns).get?

variable {name : String}

theorem addedColumn_touches (current : OrderedMap String ColumnModel) {target : List ColumnModel}
    {column : ColumnModel} (wanted : (collectBy ColumnModel.name target).get? name = some column)
    (columns : List ColumnModel) (other : String) :
    columnNamed ((addedColumn tableName current (name, column)).foldl applyColumns columns) other =
      if name = other then
        if current.contains name then columnNamed columns other else some column
      else columnNamed columns other := by
  have own := (get?_collectBy_some wanted).2
  simp only [addedColumn]
  split
  · simp
  · simp [applyColumns, columnNamed, get?_collectBy_append, own]

/-- What is under a name after the drop or the replacement of its column. -/
def editedResult (backend : DatabaseBackend) (equivalence : DefaultEquivalence)
    (target : OrderedMap String ColumnModel) : String × ColumnModel → Option ColumnModel →
      Option ColumnModel
  | (name, column), found =>
    match target.get? name with
    | none => none
    | some after =>
      if columnChangedWith backend column after equivalence then found.map fun _ => after else found

theorem editedColumn_touches {current target : List ColumnModel} {column : ColumnModel}
    (stored : (collectBy ColumnModel.name current).get? name = some column)
    (columns : List ColumnModel) (other : String) :
    columnNamed ((editedColumn tableName backend equivalence (collectBy ColumnModel.name target)
        (name, column)).foldl applyColumns columns) other =
      if name = other then
        editedResult backend equivalence (collectBy ColumnModel.name target) (name, column)
          (columnNamed columns other)
      else columnNamed columns other := by
  have own := (get?_collectBy_some stored).2
  simp only [editedColumn, editedResult]
  cases wanted : (collectBy ColumnModel.name target).get? name with
  | none => exact get?_collectBy_filter ColumnModel.name columns name other
  | some after =>
    have ownAfter := (get?_collectBy_some wanted).2
    simp only
    split
    · simp only [List.foldl_cons, List.foldl_nil, applyColumns, own]
      exact get?_collectBy_replace ColumnModel.name columns ownAfter other
    · simp

theorem columns_settle (current target : List ColumnModel) :
    MapsAgree (fun before after => columnChangedWith backend before after equivalence = false)
      (collectBy ColumnModel.name ((columnSteps tableName backend equivalence current target).foldl
        applyColumns current)) (collectBy ColumnModel.name target) := by
  intro name
  unfold columnSteps
  rw [List.foldl_append]
  have edited := foldl_flatMap_touch columnNamed applyColumns
    (editedColumn tableName backend equivalence (collectBy ColumnModel.name target))
    (editedResult backend equivalence (collectBy ColumnModel.name target))
    (collectBy ColumnModel.name current) (fun _ _ stored => editedColumn_touches stored)
  have added := foldl_flatMap_touch columnNamed applyColumns
    (addedColumn tableName (collectBy ColumnModel.name current))
    (fun e found => if (collectBy ColumnModel.name current).contains e.1 then found else some e.2)
    (collectBy ColumnModel.name target) (fun _ _ wanted => addedColumn_touches _ wanted)
  change Option.Rel _ (columnNamed _ name) _
  rw [edited, added]
  cases stored : (collectBy ColumnModel.name current).get? name with
  | none =>
    cases wanted : (collectBy ColumnModel.name target).get? name with
    | none => simp [columnNamed, stored]
    | some after => simp [contains, stored, columnChangedWith_self]
  | some before =>
    cases wanted : (collectBy ColumnModel.name target).get? name with
    | none => simp [editedResult, wanted]
    | some after =>
      by_cases changed : columnChangedWith backend before after equivalence = true
      · simp [editedResult, wanted, changed, contains, stored, columnNamed, columnChangedWith_self]
      · simp [editedResult, wanted, changed, contains, stored, columnNamed]

/-! ### Models compared by name -/

/-- Models that are handled name by name, the target's first, and dropped where the target has
none of their name. -/
theorem named_settle {M : Type} {nameOf : M → String} {apply : List M → MigrationStep → List M}
    {wanted : String × M → List MigrationStep} {drop : String → MigrationStep}
    {result : String × M → Option M → Option M} {agree : M → M → Prop} {current target : List M}
    (drops : ∀ models name, apply models (drop name) = models.filter fun model => nameOf model ≠ name)
    (touches : ∀ name model, (collectBy nameOf target).get? name = some model → ∀ models other,
      (collectBy nameOf ((wanted (name, model)).foldl apply models)).get? other =
        if name = other then result (name, model) ((collectBy nameOf models).get? other)
        else (collectBy nameOf models).get? other)
    (settled : ∀ name after, (collectBy nameOf target).get? name = some after →
      Option.Rel agree (result (name, after) ((collectBy nameOf current).get? name)) (some after)) :
    MapsAgree agree
      (collectBy nameOf (((collectBy nameOf target).entries.flatMap wanted ++
        (collectBy nameOf current).keys.flatMap fun name =>
          if (collectBy nameOf target).contains name then [] else [drop name]).foldl apply current))
      (collectBy nameOf target) := by
  intro name
  simp only [keys, List.flatMap_map, List.foldl_append]
  have removed := foldl_flatMap_touch (fun models => (collectBy nameOf models).get?) apply
    (fun e => if (collectBy nameOf target).contains e.1 then [] else [drop e.1])
    (fun e found => if (collectBy nameOf target).contains e.1 then found else none)
    (collectBy nameOf current) fun name _ _ models other => by
      simp only
      split
      · simp
      · rw [List.foldl_cons, List.foldl_nil, drops, get?_collectBy_filter]
  have created := foldl_flatMap_touch (fun models => (collectBy nameOf models).get?) apply wanted
    result (collectBy nameOf target) touches
  simp only [removed, created]
  cases listed : (collectBy nameOf target).get? name with
  | none =>
    cases stored : (collectBy nameOf current).get? name with
    | none => simp
    | some before => simp [contains, listed]
  | some after =>
    have same := settled name after listed
    cases stored : (collectBy nameOf current).get? name with
    | none => simpa [stored] using same
    | some before => simpa [contains, listed, stored] using same

/-! ### Indexes -/

/-- What is under a name after the target index of that name was handled. -/
def wantedIndexResult (current : OrderedMap String IndexModel) :
    String × IndexModel → Option IndexModel → Option IndexModel
  | (name, index), found =>
    match current.get? name with
    | some before => if before.eq index then found else some index
    | none => some index

theorem indexes_settle (current target : List IndexModel)
    (fits : ∀ index ∈ target, index.directionsFit = true) :
    MapsAgree (fun before after => before.eq after = true)
      (collectBy IndexModel.name ((indexSteps tableName current target).foldl applyIndexes current))
      (collectBy IndexModel.name target) := by
  refine @named_settle _ _ _ (wantedIndex tableName (collectBy IndexModel.name current))
    (dropIndex tableName) (wantedIndexResult (collectBy IndexModel.name current)) _ _ _
    (fun _ _ => rfl) ?touches ?settled
  case touches =>
    intro name index wanted indexes other
    have own := (get?_collectBy_some wanted).2
    simp only [wantedIndex, wantedIndexResult]
    cases (collectBy IndexModel.name current).get? name with
    | none => simp [applyIndexes, get?_collectBy_append, own]
    | some before =>
      simp only
      split
      · simp
      · simp only [List.foldl_cons, List.foldl_nil, applyIndexes, get?_collectBy_append, own,
          get?_collectBy_filter]
        split <;> rfl
  case settled =>
    intro name after wanted
    have same := IndexModel.eq_self (fits after (get?_collectBy_some wanted).1)
    cases stored : (collectBy IndexModel.name current).get? name with
    | none => simp [wantedIndexResult, stored, same]
    | some before =>
      by_cases equal : before.eq after = true <;> simp [wantedIndexResult, stored, equal, same]

/-! ### Search indexes -/

def wantedSearchIndexResult (current : OrderedMap String SearchIndexModel) :
    String × SearchIndexModel → Option SearchIndexModel → Option SearchIndexModel
  | (name, index), found =>
    match current.get? name with
    | some before => if before = index then found else found.map fun _ => index
    | none => some index

theorem searchIndexes_settle (current target : List SearchIndexModel) :
    MapsAgree Eq
      (collectBy SearchIndexModel.name
        ((searchIndexSteps tableName current target).foldl applySearchIndexes current))
      (collectBy SearchIndexModel.name target) := by
  refine @named_settle _ _ _ (wantedSearchIndex tableName (collectBy SearchIndexModel.name current))
    (dropSearchIndex tableName) (wantedSearchIndexResult (collectBy SearchIndexModel.name current))
    _ _ _ (fun _ _ => rfl) ?touches ?settled
  case touches =>
    intro name index wanted indexes other
    have own := (get?_collectBy_some wanted).2
    simp only [wantedSearchIndex, wantedSearchIndexResult]
    cases stored : (collectBy SearchIndexModel.name current).get? name with
    | none => simp [applySearchIndexes, get?_collectBy_append, own]
    | some before =>
      simp only
      split
      · simp
      · simp only [List.foldl_cons, List.foldl_nil, applySearchIndexes,
          (get?_collectBy_some stored).2]
        exact get?_collectBy_replace SearchIndexModel.name indexes own other
  case settled =>
    intro name after _
    cases stored : (collectBy SearchIndexModel.name current).get? name with
    | none => simp [wantedSearchIndexResult, stored]
    | some before =>
      by_cases equal : before = after <;> simp [wantedSearchIndexResult, stored, equal]

/-! ### Foreign keys -/

/-- The elements of one identity among lists that are grouped by identity. -/
theorem filter_flatMap_identity (identities : List ForeignKeyIdentity)
    (f : ForeignKeyIdentity → List ForeignKeyModel) (distinct : identities.Nodup)
    (grouped : ∀ id, ∀ fk ∈ f id, fk.identity = id) (identity : ForeignKeyIdentity) :
    (identities.flatMap f).filter (fun fk => fk.identity = identity) =
      if identity ∈ identities then f identity else [] := by
  induction identities with
  | nil => simp
  | cons id rest ih =>
    rw [List.nodup_cons] at distinct
    rw [List.flatMap_cons, List.filter_append, ih distinct.2]
    rcases eq_or_ne id identity with rfl | different
    · have all : (f id).filter (fun fk => fk.identity = id) = f id := by
        rw [List.filter_eq_self]
        intro fk mem
        simpa using grouped id fk mem
      simp [all, distinct.1]
    · have none : (f id).filter (fun fk => fk.identity = identity) = [] := by
        rw [List.filter_eq_nil_iff]
        intro fk mem
        simpa [grouped id fk mem] using different
      simp [none, Ne.symm different]

/-- All identities of either side, and the foreign keys one side has too many. -/
def identitiesOf (current target : List ForeignKeyModel) : List ForeignKeyIdentity :=
  (collectBy id ((groupBy ForeignKeyModel.identity current).keys ++
    (groupBy ForeignKeyModel.identity target).keys)).keys

def surplusOf (current target : List ForeignKeyModel) (identity : ForeignKeyIdentity) :
    List ForeignKeyModel :=
  surplus (groupBy ForeignKeyModel.identity current) (groupBy ForeignKeyModel.identity target)
    identity

theorem surplusOf_sublist (current target : List ForeignKeyModel) (identity : ForeignKeyIdentity) :
    (surplusOf current target identity).Subperm
      (current.filter fun fk => fk.identity = identity) :=
  (List.drop_sublist _ _).subperm.trans (sortedGroup_perm current identity).subperm

theorem surplusOf_identity {current target : List ForeignKeyModel} {identity : ForeignKeyIdentity}
    {fk : ForeignKeyModel} (mem : fk ∈ surplusOf current target identity) :
    fk.identity = identity := by
  have inside := (surplusOf_sublist current target identity).subset mem
  simpa using (List.mem_filter.mp inside).2

theorem surplusOf_length (current target : List ForeignKeyModel) (identity : ForeignKeyIdentity) :
    (surplusOf current target identity).length =
      identityCount current identity - identityCount target identity := by
  unfold surplusOf surplus
  rw [List.length_drop, sortedGroup_length, sortedGroup_length]
  omega

/-- How many foreign keys of an identity a side has too many, in the whole list. -/
theorem identityCount_surplus (current target : List ForeignKeyModel)
    (ids : List ForeignKeyIdentity) (distinct : ids.Nodup) (identity : ForeignKeyIdentity)
    (listed : ∀ fk ∈ current, fk.identity ∈ ids) :
    identityCount (ids.flatMap (surplusOf current target)) identity =
      identityCount current identity - identityCount target identity := by
  unfold identityCount
  rw [filter_flatMap_identity ids _ distinct (fun _ _ => surplusOf_identity)]
  split
  · exact surplusOf_length current target identity
  next absent =>
    have zero : identityCount current identity = 0 := by
      apply identityCount_eq_zero
      rintro ⟨fk, mem, rfl⟩
      exact absent (listed fk mem)
    unfold identityCount at zero
    simp [zero]

/-- Every foreign key to drop is really there, as often as it is dropped. -/
theorem dropped_subperm (current target : List ForeignKeyModel) (ids : List ForeignKeyIdentity)
    (distinct : ids.Nodup) : (ids.flatMap (surplusOf current target)).Subperm current := by
  rw [List.subperm_ext_iff]
  intro fk _
  have here : List.count fk (ids.flatMap (surplusOf current target)) =
      List.count fk ((ids.flatMap (surplusOf current target)).filter
        fun other => other.identity = fk.identity) := by
    rw [List.count_filter (by simp)]
  rw [here, filter_flatMap_identity ids _ distinct (fun _ _ => surplusOf_identity)]
  split
  · calc List.count fk (surplusOf current target fk.identity)
        ≤ List.count fk (current.filter fun other => other.identity = fk.identity) :=
          (surplusOf_sublist current target fk.identity).count_le fk
      _ ≤ List.count fk current := List.filter_sublist.count_le fk
  · simp

theorem foldl_dropForeignKey (fks current : List ForeignKeyModel) :
    (fks.map (MigrationStep.dropForeignKey tableName)).foldl applyForeignKeys current =
      current.diff fks := by
  rw [List.foldl_map, List.diff_eq_foldl]
  rfl

theorem foldl_addForeignKey (fks current : List ForeignKeyModel) :
    (fks.map (MigrationStep.addForeignKey tableName)).foldl applyForeignKeys current =
      current ++ fks := by
  rw [List.foldl_map]
  induction fks generalizing current with
  | nil => simp
  | cons fk rest ih =>
    rw [List.foldl_cons, ih, applyForeignKeys, List.append_assoc, List.singleton_append]

theorem foreignKeys_settle (current target : List ForeignKeyModel) (identity : ForeignKeyIdentity) :
    identityCount ((foreignKeySteps tableName current target).foldl applyForeignKeys current)
      identity = identityCount target identity := by
  have shape : foreignKeySteps tableName current target =
      ((identitiesOf current target).flatMap (surplusOf current target)).map
        (.dropForeignKey tableName) ++
      ((identitiesOf current target).flatMap (surplusOf target current)).map
        (.addForeignKey tableName) := by
    simp only [foreignKeySteps, List.map_flatMap, identitiesOf, surplusOf]
  have distinct : (identitiesOf current target).Nodup := keys_nodup _
  have listed : ∀ fk ∈ current, fk.identity ∈ identitiesOf current target := fun fk mem =>
    mem_identities.mpr (.inl ⟨fk, mem, rfl⟩)
  have listed' : ∀ fk ∈ target, fk.identity ∈ identitiesOf current target := fun fk mem =>
    mem_identities.mpr (.inr ⟨fk, mem, rfl⟩)
  rw [shape, List.foldl_append, foldl_dropForeignKey, foldl_addForeignKey]
  have kept := List.subperm_append_diff_self_of_count_le
    (List.subperm_ext_iff.mp (dropped_subperm current target _ distinct))
  have balance := (kept.filter fun fk => fk.identity = identity).length_eq
  rw [List.filter_append, List.length_append] at balance
  have dropped := identityCount_surplus current target _ distinct identity listed
  have added := identityCount_surplus target current _ distinct identity listed'
  unfold identityCount at dropped added ⊢
  rw [List.filter_append, List.length_append]
  omega

/-! ### One table -/

/-- Altering a surviving table brings it into agreement with its target. -/
theorem alterTable_settles (current target : TableModel)
    (fits : ∀ index ∈ target.indexes, index.directionsFit = true) :
    TableAgrees backend equivalence
      ((alterTableSteps backend equivalence current target).foldl applyTable current) target := by
  have filtered := alterTableSteps_filter backend equivalence current target
  have flags : (alterTableSteps backend equivalence current target).foldl applyFlags
      (current.appendOnly, current.retentionPurge) = (target.appendOnly, target.retentionPurge) := by
    rw [foldl_kind applyFlags_ignores, filtered]
    simp only [appendOnlySteps]
    split
    · rfl
    next same => simpa [not_or] using same
  rw [foldl_applyTable]
  constructor <;> simp only [flags]
  case columns =>
    rw [foldl_kind applyColumns_ignores, filtered]
    exact columns_settle current.columns target.columns
  case indexes =>
    rw [foldl_kind applyIndexes_ignores, filtered]
    exact indexes_settle current.indexes target.indexes fits
  case searchIndexes =>
    rw [foldl_kind applySearchIndexes_ignores, filtered]
    exact searchIndexes_settle current.searchIndexes target.searchIndexes
  case foreignKeys =>
    rw [foldl_kind applyForeignKeys_ignores, filtered]
    exact foreignKeys_settle current.foreignKeys target.foreignKeys
  case checkConstraints =>
    rw [foldl_kind applyCheckConstraints_ignores, filtered]
    simp only [checkConstraintSteps]
    split
    next same => exact same
    · exact checkConstraintsEquivalent_self target.checkConstraints

/-- A table agrees with itself when its index metadata is well formed. -/
theorem tableAgrees_self (table : TableModel)
    (fits : ∀ index ∈ table.indexes, index.directionsFit = true) :
    TableAgrees backend equivalence table table := by
  have reflexive {α : Type} {same : α → α → Prop} (m : OrderedMap String α)
      (self : ∀ name x, m.get? name = some x → same x x) : MapsAgree same m m := by
    intro name
    cases found : m.get? name with
    | none => exact .none
    | some x => exact .some (self name x found)
  constructor
  case columns => exact reflexive _ fun _ column _ => columnChangedWith_self backend column equivalence
  case indexes =>
    exact reflexive _ fun _ index found => IndexModel.eq_self (fits index (get?_collectBy_some found).1)
  case searchIndexes => exact reflexive _ fun _ _ _ => rfl
  case foreignKeys => exact fun _ => rfl
  case appendOnly => rfl
  case retentionPurge => rfl
  case checkConstraints => exact checkConstraintsEquivalent_self table.checkConstraints

/-! ### The whole plan -/

theorem get?_tableMap_edits {steps : List MigrationStep} (edits : ∀ step ∈ steps, Edits name step)
    (schema : SchemaModel) (other : String) :
    (tableMap (applyAll schema steps)).get? other =
      if name = other then ((tableMap schema).get? other).map (steps.foldl applyTable)
      else (tableMap schema).get? other := by
  have keeps : ∀ table : TableModel, (steps.foldl applyTable table).tableName = table.tableName :=
    fun table => by rw [foldl_applyTable]
  rw [applyAll_edits edits, tableMap, get?_collectBy_map TableModel.tableName _ (by
    intro table
    split
    · exact keeps table
    · rfl)]
  change ((tableMap schema).get? other).map _ = _
  cases found : (tableMap schema).get? other with
  | none => simp
  | some table =>
    have own := tableMap_named schema other table found
    simp only [Option.map_some, own, eq_comm (a := other)]
    split <;> rfl

/-- What is under a name after the steps of the current table of that name. -/
def currentTableResult (backend : DatabaseBackend) (equivalence : DefaultEquivalence)
    (target : SchemaModel) (table : TableModel) (found : Option TableModel) : Option TableModel :=
  match (tableMap target).get? table.tableName with
  | none => none
  | some wanted => found.map ((alterTableSteps backend equivalence table wanted).foldl applyTable)

theorem currentTableSteps_touches (target : SchemaModel) (table : TableModel)
    (schema : SchemaModel) (other : String) :
    (tableMap (applyAll schema (currentTableSteps backend equivalence target table))).get? other =
      if table.tableName = other then
        currentTableResult backend equivalence target table ((tableMap schema).get? other)
      else (tableMap schema).get? other := by
  simp only [currentTableSteps, currentTableResult]
  cases (tableMap target).get? table.tableName with
  | some wanted => exact get?_tableMap_edits (fun step => mem_alterTableSteps) schema other
  | none =>
    -- The search indexes go first; then the table itself is removed.
    have edits : ∀ step ∈ table.searchIndexes.map fun index =>
        MigrationStep.dropSearchIndex table.tableName index.name, Edits table.tableName step := by
      intro step mem
      obtain ⟨index, _, rfl⟩ := List.mem_map.mp mem
      rfl
    have searches := get?_tableMap_edits edits schema other
    simp only [dropTableSteps, applyAll, List.foldl_append, List.foldl_cons, List.foldl_nil]
      at searches ⊢
    simp only [MigrationStep.apply, tableMap, get?_collectBy_filter] at searches ⊢
    split
    · rfl
    next different => rw [searches, if_neg different]

theorem apply_extensions {step : MigrationStep} (other : step.kind ≠ .extension)
    (schema : SchemaModel) : (MigrationStep.apply schema step).extensions = schema.extensions := by
  cases step <;> first | rfl | exact absurd rfl other

theorem applyAll_extensions {steps : List MigrationStep}
    (others : ∀ step ∈ steps, step.kind ≠ .extension) (schema : SchemaModel) :
    (applyAll schema steps).extensions = schema.extensions := by
  induction steps generalizing schema with
  | nil => rfl
  | cons step rest ih =>
    have later := ih (fun s mem => others s (.tail _ mem))
      (MigrationStep.apply schema step)
    exact later.trans (apply_extensions (others step (.head _)) schema)

theorem currentTableSteps_kind {target : SchemaModel} {table : TableModel} {step : MigrationStep}
    (mem : step ∈ currentTableSteps backend equivalence target table) :
    step.kind ≠ .extension := by
  simp only [currentTableSteps] at mem
  split at mem
  · simp only [dropTableSteps, List.mem_append, List.mem_map, List.mem_singleton] at mem
    rcases mem with ⟨_, _, rfl⟩ | rfl
    · intro same
      cases same
    · intro same
      cases same
  · have edits := mem_alterTableSteps mem
    cases step <;> simp_all [Edits, kind]

theorem applyAll_enable (names : List String) (schema : SchemaModel) :
    applyAll schema (names.map MigrationStep.enableExtension) =
      { schema with extensions := schema.extensions ++ names } := by
  unfold applyAll
  induction names generalizing schema with
  | nil => simp
  | cons name rest ih =>
    rw [List.map_cons, List.foldl_cons, ih]
    simp [MigrationStep.apply]

theorem applyAll_create (tables : List TableModel) (schema : SchemaModel) :
    applyAll schema (tables.map MigrationStep.createTable) =
      { schema with tables := schema.tables ++ tables } := by
  unfold applyAll
  induction tables generalizing schema with
  | nil => simp
  | cons table rest ih =>
    rw [List.map_cons, List.foldl_cons, ih]
    simp [MigrationStep.apply]

def newTables (current target : SchemaModel) : List TableModel :=
  (orderTablesByForeignKeys (tableMap target)).filter
    fun table => !(tableMap current).contains table.tableName

theorem createTableSteps_eq (current target : SchemaModel) :
    createTableSteps current target = (newTables current target).map .createTable := by
  unfold createTableSteps newTables
  induction orderTablesByForeignKeys (tableMap target) with
  | nil => rfl
  | cons table rest ih =>
    rw [List.flatMap_cons, List.filter_cons, ih]
    cases (tableMap current).contains table.tableName <;> simp

theorem get?_newTables (current target : SchemaModel) (name : String) :
    (collectBy TableModel.tableName (newTables current target)).get? name =
      if (tableMap current).contains name then none else (tableMap target).get? name := by
  have named := tableMap_named target
  have distinct : ((newTables current target).map TableModel.tableName).Nodup :=
    (List.filter_sublist.map _).nodup (orderTables_nodup named)
  have mem (table : TableModel) : table ∈ newTables current target ↔
      (tableMap target).get? table.tableName = some table ∧
        (tableMap current).contains table.tableName = false := by
    simp [newTables, mem_orderTables named]
  apply Option.ext
  intro table
  rw [get?_collectBy_iff distinct, mem]
  cases present : (tableMap current).contains name with
  | true =>
    simp only [if_true, reduceCtorEq, iff_false]
    rintro ⟨⟨_, absent⟩, rfl⟩
    rw [present] at absent
    cases absent
  | false =>
    simp only [Bool.false_eq_true, if_false]
    constructor
    · rintro ⟨⟨wanted, _⟩, rfl⟩
      exact wanted
    · intro wanted
      have own := named name table wanted
      rw [own]
      exact ⟨⟨wanted, present⟩, rfl⟩

/-- Searching the walk for a name is looking the name up. -/
theorem find?_orderTables (schema : SchemaModel) (name : String) :
    (orderTablesByForeignKeys (tableMap schema)).reverse.find? (fun table => table.tableName = name) =
      (tableMap schema).get? name := by
  have named := tableMap_named schema
  cases found : (tableMap schema).get? name with
  | none =>
    rw [List.find?_eq_none]
    intro table mem same
    rw [List.mem_reverse, mem_orderTables named] at mem
    simp only [decide_eq_true_eq] at same
    rw [same, found] at mem
    cases mem
  | some table =>
    have own := named name table found
    have mem : table ∈ (orderTablesByForeignKeys (tableMap schema)).reverse := by
      rw [List.mem_reverse, mem_orderTables named, own]
      exact found
    obtain ⟨other, hit⟩ := Option.isSome_iff_exists.mp
      (List.find?_isSome.mpr ⟨table, mem, by simpa using own⟩ :
        ((orderTablesByForeignKeys (tableMap schema)).reverse.find?
          fun table => table.tableName = name).isSome = true)
    have listed := List.mem_of_find?_eq_some hit
    rw [List.mem_reverse, mem_orderTables named] at listed
    have same : other.tableName = name := by simpa using List.find?_some hit
    rw [same, found] at listed
    rw [hit, listed]

theorem extensionSteps_eq (current target : List String) :
    extensionSteps current target =
      (target.filter fun extension => !(current.map Text.lower).contains (Text.lower extension)).map
        .enableExtension := by
  unfold extensionSteps
  induction target with
  | nil => rfl
  | cons extension rest ih =>
    simp only at ih ⊢
    rw [List.flatMap_cons, List.filter_cons, ih]
    cases (current.map Text.lower).contains (Text.lower extension) <;> simp

/-- The schema between the two halves of a plan: extensions enabled and new
tables created, no current table touched yet. -/
def extended (current target : SchemaModel) : SchemaModel where
  extensions := current.extensions ++ target.extensions.filter fun extension =>
    !(current.extensions.map Text.lower).contains (Text.lower extension)
  tables := current.tables ++ newTables current target

theorem applyAll_diff (current target : SchemaModel) :
    applyAll current (diffSchemaViewsWith backend current target equivalence) =
      applyAll (extended current target)
        ((orderTablesByForeignKeys (tableMap current)).reverse.flatMap
          (currentTableSteps backend equivalence target)) := by
  have halves : applyAll current (extensionSteps current.extensions target.extensions ++
      createTableSteps current target) = extended current target := by
    unfold applyAll
    rw [List.foldl_append, extensionSteps_eq, createTableSteps_eq]
    have enabled := applyAll_enable (target.extensions.filter fun extension =>
      !(current.extensions.map Text.lower).contains (Text.lower extension)) current
    have created := applyAll_create (newTables current target)
      { current with extensions := (extended current target).extensions }
    unfold applyAll at enabled created
    rw [enabled]
    exact created
  unfold diffSchemaViewsWith
  rw [← halves]
  exact List.foldl_append

theorem applied_extensions (current target : SchemaModel) :
    (applyAll current (diffSchemaViewsWith backend current target equivalence)).extensions =
      (extended current target).extensions := by
  rw [applyAll_diff]
  apply applyAll_extensions
  intro step mem
  obtain ⟨table, _, emitted⟩ := List.mem_flatMap.mp mem
  exact currentTableSteps_kind emitted

/-- The table that a plan leaves under a name. -/
theorem get?_applied (current target : SchemaModel) (name : String) :
    (tableMap (applyAll current (diffSchemaViewsWith backend current target equivalence))).get? name =
      match (tableMap current).get? name with
      | none => (tableMap target).get? name
      | some table => currentTableResult backend equivalence target table (some table) := by
  have named := tableMap_named current
  have distinct : ((orderTablesByForeignKeys (tableMap current)).reverse.map
      (·.tableName)).Nodup := by
    rw [List.map_reverse, List.nodup_reverse]
    exact orderTables_nodup named
  have touched := foldl_touch (fun schema => (tableMap schema).get?) TableModel.tableName
    (fun schema table => applyAll schema (currentTableSteps backend equivalence target table))
    (currentTableResult backend equivalence target)
    (orderTablesByForeignKeys (tableMap current)).reverse
    (fun table _ => currentTableSteps_touches target table) distinct (extended current target) name
  have between : (tableMap (extended current target)).get? name =
      (if (tableMap current).contains name then none else (tableMap target).get? name).or
        ((tableMap current).get? name) := by
    rw [← get?_newTables]
    exact get?_collectBy_or TableModel.tableName current.tables (newTables current target) name
  have flattened : applyAll (extended current target)
      ((orderTablesByForeignKeys (tableMap current)).reverse.flatMap
        (currentTableSteps backend equivalence target)) =
      (orderTablesByForeignKeys (tableMap current)).reverse.foldl
        (fun schema table => applyAll schema (currentTableSteps backend equivalence target table))
        (extended current target) := List.foldl_flatMap
  rw [applyAll_diff, flattened, touched, find?_orderTables, between]
  cases stored : (tableMap current).get? name with
  | none | some table => simp [contains, stored]

/-- Applying a plan leaves nothing for a second plan to do. -/
theorem diff_converges (backend : DatabaseBackend) (current target : SchemaModel)
    (accepted : target.validatePhysicalContract = .ok ()) :
    diffSchemaViews backend (applyAll current (diffSchemaViews backend current target)) target = [] := by
  have fits : ∀ name table, (tableMap target).get? name = some table →
      ∀ index ∈ table.indexes, index.directionsFit = true := fun name table wanted index declared =>
    directionsFit_of_accepted accepted (get?_collectBy_some wanted).1 declared
  unfold diffSchemaViews
  rw [diff_eq_nil]
  constructor
  · intro extension mem
    rw [applied_extensions]
    simp only [extended, List.map_append, List.mem_append]
    by_cases present : Text.lower extension ∈ current.extensions.map Text.lower
    · exact .inl present
    · right
      apply List.mem_map_of_mem
      simpa [mem] using present
  · intro name
    rw [get?_applied]
    cases stored : (tableMap current).get? name with
    | none =>
      cases wanted : (tableMap target).get? name with
      | none => exact .none
      | some table => exact .some (tableAgrees_self table (fits name table wanted))
    | some table =>
      have own := tableMap_named current name table stored
      simp only [currentTableResult, own]
      cases wanted : (tableMap target).get? name with
      | none => exact .none
      | some after => exact .some (alterTable_settles table after (fits name after wanted))

/-- Customers before and after an upgrade that widens the key, renames the
email column and adds orders with a reference to the new key. -/
def customersBefore : SchemaModel where
  tables := [{
    tableName := "customers", primaryKey := "id"
    columns := [{ name := "id", sqlType := "INTEGER", isPrimaryKey := true },
      { name := "mail", sqlType := "TEXT", default := some "('')" }]
    indexes := [{ name := "by_mail", columns := ["mail"] }] }]

def customersAfter : SchemaModel where
  extensions := ["citext"]
  tables := [{
    tableName := "customers", primaryKey := "id"
    columns := [{ name := "id", sqlType := "BIGINT", isPrimaryKey := true },
      { name := "email", sqlType := "TEXT" }]
    indexes := [{ name := "by_mail", columns := ["email"], isUnique := true }]
    checkConstraints := [⟨"email_present", "email <> ''"⟩] },
   { tableName := "orders", primaryKey := "id"
     columns := [{ name := "id", sqlType := "BIGINT", isPrimaryKey := true },
      { name := "customer", sqlType := "BIGINT" }]
     foreignKeys := [{ columnPairs := [⟨"customer", "id"⟩], targetTable := "customers" }] }]

theorem diff_converges_customers :
    customersAfter.validatePhysicalContract = .ok () ∧
    diffSchemaViews .postgres customersBefore customersAfter ≠ [] ∧
    diffSchemaViews .postgres
      (applyAll customersBefore (diffSchemaViews .postgres customersBefore customersAfter))
      customersAfter = [] :=
  ⟨rfl, by decide, diff_converges .postgres customersBefore customersAfter rfl⟩

end GraphqlOrm.Migration
