import GraphqlOrm.Migration.PlanOrder

/-!
# Indexes and the columns they cover

PostgreSQL drops an index together with a column it covers, and refuses to drop
an index that is not there. A plan drops the columns of a table before it touches
the indexes, so what it can still drop depends on which columns went away.
-/
namespace GraphqlOrm.Migration

open Schema MigrationStep OrderedMap Outcome

/-! ### Executing steps -/

/-- The columns an index depends on: its keys and the column of its predicate. -/
def namedColumns (index : IndexModel) : List String :=
  index.columns ++ (index.predicate.map (·.column)).toList

/-- Why PostgreSQL refuses an index step. -/
inductive IndexFault where
  | missingIndex (tableName indexName : String)
  | missingColumn (tableName indexName : String)

/-- The edit of a table that a step makes when it is not refused. -/
def editTable (table : TableModel) (step : MigrationStep) : TableModel :=
  match step with
  | .dropColumn _ name =>
    -- The indexes over the column go with it.
    { applyTable table step with
      indexes := table.indexes.filter fun index => name ∉ namedColumns index }
  | step => applyTable table step

def executeTable (table : TableModel) (step : MigrationStep) : Except IndexFault TableModel :=
  match step with
  | .createIndex tableName index =>
    if ∀ name ∈ namedColumns index, name ∈ table.columns.map ColumnModel.name then
      .ok (editTable table step)
    else .error (.missingColumn tableName index.name)
  | .dropIndex tableName name =>
    if name ∈ table.indexes.map IndexModel.name then .ok (editTable table step)
    else .error (.missingIndex tableName name)
  | step => .ok (editTable table step)

def executeOn (found : Option TableModel) (step : MigrationStep) :
    Except IndexFault (Option TableModel) :=
  match step, found with
  | .createTable table, _ => .ok (some table)
  | .dropTable _, _ => .ok none
  | step, some table => return some (← executeTable table step)
  | .createIndex tableName index, none => .error (.missingColumn tableName index.name)
  | .dropIndex tableName name, none => .error (.missingIndex tableName name)
  | _, none => .ok none

abbrev Live := String → Option TableModel

def execute (live : Live) (step : MigrationStep) : Except IndexFault Live :=
  match step.tableName? with
  | none => .ok live
  | some name => return Function.update live name (← executeOn (live name) step)

/-- Executing the steps in order on the current database meets no index step that
PostgreSQL refuses. -/
def IndexesInOrder (current : SchemaModel) (steps : List MigrationStep) : Prop :=
  Succeeds (steps.foldlM execute (tableMap current).get?)

/-! ### The inputs for which the index steps go through -/

def DropsColumn (before after : TableModel) (name : String) : Prop :=
  name ∈ before.columns.map ColumnModel.name ∧ name ∉ after.columns.map ColumnModel.name

/-- The plan drops the current index of that name: the target lacks it or has
another one. -/
def DropsIndex (before after : TableModel) (name : String) : Prop :=
  ∃ old, (collectBy IndexModel.name before.indexes).get? name = some old ∧
    ∀ new, (collectBy IndexModel.name after.indexes).get? name = some new → old.eq new = false

/-- The plan creates the index: the current table lacks it or has another one. -/
def CreatesIndex (before after : TableModel) (index : IndexModel) : Prop :=
  ∃ name, (collectBy IndexModel.name after.indexes).get? name = some index ∧
    ∀ old, (collectBy IndexModel.name before.indexes).get? name = some old → old.eq index = false

/-- No dropped index covers a dropped column, and created indexes cover columns
of the target. -/
def IndexSafe (before after : TableModel) : Prop :=
  (∀ name, DropsIndex before after name →
    ∃ index ∈ before.indexes, index.name = name ∧
      ∀ column ∈ namedColumns index, ¬DropsColumn before after column) ∧
  ∀ index, CreatesIndex before after index →
    ∀ column ∈ namedColumns index, column ∈ after.columns.map ColumnModel.name

def IndexesSafe (current target : SchemaModel) : Prop :=
  ∀ name before after, (tableMap current).get? name = some before →
    (tableMap target).get? name = some after → IndexSafe before after

/-! ### The columns of a table -/

variable {steps : List MigrationStep} {name : String}

section Columns

variable {backend : DatabaseBackend} {equivalence : DefaultEquivalence} {tableName : String}

theorem executeTable_total {step : MigrationStep} (other : step.kind ≠ .index)
    (table : TableModel) : executeTable table step = .ok (editTable table step) := by
  cases step <;> first | rfl | exact absurd rfl other

theorem foldl_editTable_columns (steps : List MigrationStep) (table : TableModel) :
    (steps.foldl editTable table).columns = steps.foldl applyColumns table.columns := by
  induction steps generalizing table with
  | nil => rfl
  | cons step rest ih =>
    have first : (editTable table step).columns = applyColumns table.columns step := by
      cases step <;> rfl
    rw [List.foldl_cons, List.foldl_cons, ih, first]

/-- An index outlives column steps that drop none of its columns. -/
theorem mem_foldl_editTable_indexes (columns : ∀ step ∈ steps, step.kind = .column)
    (table : TableModel) {index : IndexModel} :
    index ∈ (steps.foldl editTable table).indexes ↔ index ∈ table.indexes ∧
      ∀ name ∈ namedColumns index, ∀ tableName, .dropColumn tableName name ∉ steps := by
  induction steps generalizing table with
  | nil => simp
  | cons step rest ih =>
    have first := columns step (.head _)
    rw [List.foldl_cons, ih fun later mem => columns later (.tail _ mem)]
    cases step <;> simp only [MigrationStep.kind, reduceCtorEq] at first
    case addColumn => simp [editTable, applyTable, applyIndexes]
    case alterColumn => simp [editTable, applyTable, applyIndexes]
    case dropColumn owner dropped =>
      simp only [editTable, List.mem_filter, decide_eq_true_eq, and_assoc, List.mem_cons, not_or,
        MigrationStep.dropColumn.injEq, and_congr_right_iff]
      intro _
      constructor
      · rintro ⟨outside, others⟩ name mem tableName
        refine ⟨?_, others name mem tableName⟩
        rintro ⟨_, rfl⟩
        exact outside mem
      · intro all
        refine ⟨fun mem => ?_, fun name mem tableName => (all name mem tableName).2⟩
        exact (all dropped mem owner).1 ⟨rfl, rfl⟩

theorem dropColumn_mem {current target : List ColumnModel} {owner : String} :
    .dropColumn owner name ∈ columnSteps tableName backend equivalence current target ↔
      owner = tableName ∧ name ∈ current.map ColumnModel.name ∧
        name ∉ target.map ColumnModel.name := by
  have named (columns : List ColumnModel) : name ∈ columns.map ColumnModel.name ↔
      (collectBy ColumnModel.name columns).contains name = true := by
    rw [contains_collectBy, List.mem_map]
  rw [named, named, Bool.not_eq_true, contains_eq_false, contains_iff]
  unfold columnSteps
  rw [List.mem_append, OrderedMap.mem_flatMap, OrderedMap.mem_flatMap]
  constructor
  · rintro (⟨_, _, _, emitted⟩ | ⟨key, column, stored, emitted⟩)
    · simp only [addedColumn] at emitted
      split at emitted <;> simp at emitted
    · simp only [editedColumn] at emitted
      split at emitted
      next absent =>
        cases List.mem_singleton.mp emitted
        exact ⟨rfl, ⟨column, stored⟩, absent⟩
      · split at emitted <;> simp at emitted
  · rintro ⟨rfl, ⟨column, stored⟩, absent⟩
    exact .inr ⟨name, column, stored, by simp [editedColumn, absent]⟩

/-- After its column steps a table has the columns of the target. -/
theorem columnSteps_names (current target : List ColumnModel) (name : String) :
    name ∈ ((columnSteps tableName backend equivalence current target).foldl
      applyColumns current).map ColumnModel.name ↔ name ∈ target.map ColumnModel.name := by
  obtain ⟨forward, backward⟩ := mapsAgree_iff.mp
    (columns_settle current target :
      MapsAgree (fun before after => columnChangedWith backend before after equivalence = false)
        (collectBy ColumnModel.name ((columnSteps tableName backend equivalence current
          target).foldl applyColumns current)) (collectBy ColumnModel.name target))
  rw [List.mem_map, List.mem_map, ← contains_collectBy, ← contains_collectBy]
  constructor
  · intro present
    obtain ⟨column, stored⟩ := contains_iff.mp present
    exact backward name column stored
  · intro wanted
    obtain ⟨column, found⟩ := contains_iff.mp wanted
    obtain ⟨kept, stored, _⟩ := forward name column found
    exact contains_iff.mpr ⟨kept, stored⟩

end Columns

/-! ### The indexes of a table -/

section Indexes

variable {tableName : String}

def HasIndex (table : TableModel) (name : String) : Prop := name ∈ table.indexes.map IndexModel.name

def Covered (table : TableModel) (index : IndexModel) : Prop :=
  ∀ name ∈ namedColumns index, name ∈ table.columns.map ColumnModel.name

def OnIndex (name : String) : MigrationStep → Prop
  | .createIndex _ index => index.name = name
  | .dropIndex _ dropped => dropped = name
  | _ => False

theorem executeTable_createIndex {t : String} (table : TableModel) (index : IndexModel) :
    Succeeds (executeTable table (.createIndex t index)) ↔ Covered table index := by
  simp only [executeTable, Covered, Succeeds]
  split <;> simp_all

theorem executeTable_dropIndex {t : String} (table : TableModel) (name : String) :
    Succeeds (executeTable table (.dropIndex t name)) ↔ HasIndex table name := by
  simp only [executeTable, HasIndex, Succeeds]
  split <;> simp_all

variable {table table' : TableModel}

theorem executeTable_onIndex {step : MigrationStep} (own : OnIndex name step)
    (done : executeTable table step = .ok table') :
    table'.columns = table.columns ∧
      ∀ other, other ≠ name → HasIndex table' other = HasIndex table other := by
  cases step <;> simp only [OnIndex] at own <;> subst own <;> simp only [executeTable] at done <;>
    split at done <;> cases done
  case createIndex index _ =>
    refine ⟨rfl, fun other different => propext ?_⟩
    simp only [HasIndex, editTable, applyTable, applyIndexes, List.map_append, List.map_cons,
      List.map_nil, List.mem_append, List.mem_singleton, different, or_false]
  case dropIndex =>
    refine ⟨rfl, fun other different => propext ?_⟩
    simp only [HasIndex, editTable, applyTable, applyIndexes, List.mem_map, List.mem_filter]
    constructor
    · rintro ⟨index, ⟨mem, _⟩, rfl⟩
      exact ⟨index, mem, rfl⟩
    · rintro ⟨index, mem, rfl⟩
      exact ⟨index, ⟨mem, by simpa using different⟩, rfl⟩

theorem foldlM_onIndex (own : ∀ step ∈ steps, OnIndex name step)
    (done : steps.foldlM executeTable table = .ok table') :
    table'.columns = table.columns ∧
      ∀ other, other ≠ name → HasIndex table' other = HasIndex table other := by
  have frame := foldlM_frame (fun s => s.columns = table.columns) HasIndex (fun _ => name)
    (fun step mem s s' same first => by
      obtain ⟨columns, others⟩ := executeTable_onIndex (own step mem) first
      exact ⟨columns.trans same, others⟩) rfl done
  exact ⟨frame.1, fun other different => frame.2 other fun _ _ => different.symm⟩

/-- The steps of one wanted index succeed when what they need is there. -/
theorem wantedIndex_succeeds (current : OrderedMap String IndexModel) (name : String)
    (index : IndexModel) (table : TableModel) :
    Succeeds ((wantedIndex tableName current (name, index)).foldlM executeTable table) ↔
      (∀ old, current.get? name = some old → old.eq index = false → HasIndex table name) ∧
      ((∀ old, current.get? name = some old → old.eq index = false) → Covered table index) := by
  simp only [wantedIndex]
  cases stored : current.get? name with
  | none => simp [executeTable_createIndex]
  | some old =>
    simp only [Option.some.injEq, forall_eq']
    cases equal : old.eq index with
    | true => simp [Succeeds, pure, Except.pure]
    | false =>
      simp only [Bool.false_eq_true, if_false, List.foldlM_cons, List.foldlM_nil, bind_pure,
        forall_const]
      rw [succeeds_bind, ← executeTable_dropIndex (t := tableName),
        ← executeTable_createIndex (t := tableName)]
      -- Dropping an index leaves the columns that the new one names.
      have kept (next : TableModel)
          (dropped : executeTable table (.dropIndex tableName name) = .ok next) :
          Covered next index ↔ Covered table index := by
        have own : OnIndex name (.dropIndex tableName name) := rfl
        rw [Covered, Covered, (executeTable_onIndex own dropped).1]
      constructor
      · rintro ⟨next, dropped, created⟩
        rw [executeTable_createIndex, kept next dropped] at created
        exact ⟨⟨next, dropped⟩, (executeTable_createIndex table index).mpr created⟩
      · rintro ⟨⟨next, dropped⟩, covered⟩
        rw [executeTable_createIndex, ← kept next dropped] at covered
        exact ⟨next, dropped, (executeTable_createIndex next index).mpr covered⟩

theorem wantedIndex_own {current : OrderedMap String IndexModel} {target : List IndexModel}
    {index : IndexModel} (wanted : (collectBy IndexModel.name target).get? name = some index) :
    ∀ step ∈ wantedIndex tableName current (name, index), OnIndex name step := by
  have own := (get?_collectBy_some wanted).2
  intro step mem
  simp only [wantedIndex] at mem
  split at mem
  · split at mem
    · cases mem
    · simp only [List.mem_cons, List.not_mem_nil, or_false] at mem
      rcases mem with rfl | rfl
      · rfl
      · exact own
  · cases List.mem_singleton.mp mem
    exact own

theorem removedIndex_own {target : OrderedMap String IndexModel} :
    ∀ step ∈ removedIndex tableName target name, OnIndex name step := by
  intro step mem
  simp only [removedIndex] at mem
  split at mem
  · cases mem
  · cases List.mem_singleton.mp mem
    rfl

theorem removedIndex_succeeds (target : OrderedMap String IndexModel) (name : String)
    (table : TableModel) :
    Succeeds ((removedIndex tableName target name).foldlM executeTable table) ↔
      (target.contains name = false → HasIndex table name) := by
  simp only [removedIndex]
  cases target.contains name with
  | true => simp [Succeeds, pure, Except.pure]
  | false => simp [executeTable_dropIndex]

theorem wantedIndexes_succeed (tableName : String) (current : OrderedMap String IndexModel)
    (target : List IndexModel) (table : TableModel) :
    Succeeds (((collectBy IndexModel.name target).entries.flatMap
        (wantedIndex tableName current)).foldlM executeTable table) ↔
      ∀ name new, (collectBy IndexModel.name target).get? name = some new →
        (∀ old, current.get? name = some old → old.eq new = false → HasIndex table name) ∧
        ((∀ old, current.get? name = some old → old.eq new = false) → Covered table new) := by
  rw [foldlM_flatMap]
  refine (foldlM_succeeds (fun s => s.columns = table.columns) HasIndex Prod.fst
    (fun e present => (∀ old, current.get? e.1 = some old → old.eq e.2 = false → present) ∧
      ((∀ old, current.get? e.1 = some old → old.eq e.2 = false) → Covered table e.2))
    ?succeeds ?keeps (keys_nodup _) rfl).trans ?_
  case succeeds =>
    rintro ⟨name, index⟩ _ s same
    rw [wantedIndex_succeeds]
    simp only [Covered, same]
  case keeps =>
    rintro ⟨name, index⟩ mem s s' same done
    obtain ⟨columns, others⟩ := foldlM_onIndex (wantedIndex_own (mem_entries.mp mem)) done
    exact ⟨columns.trans same, others⟩
  constructor
  · intro all name new found
    exact all (name, new) (mem_entries.mpr found)
  · rintro all ⟨name, new⟩ mem
    exact all name new (mem_entries.mp mem)

/-- The wanted indexes leave the other names alone. -/
theorem wantedIndexes_frame {current : OrderedMap String IndexModel} {target : List IndexModel}
    (done : ((collectBy IndexModel.name target).entries.flatMap
      (wantedIndex tableName current)).foldlM executeTable table = .ok table')
    (absent : (collectBy IndexModel.name target).get? name = none) :
    HasIndex table' name ↔ HasIndex table name := by
  rw [foldlM_flatMap] at done
  refine iff_of_eq ((foldlM_frame (fun _ => True) HasIndex Prod.fst ?_ trivial done).2 name ?_)
  · rintro ⟨own, index⟩ mem s s' _ first
    exact ⟨trivial, (foldlM_onIndex (wantedIndex_own (mem_entries.mp mem)) first).2⟩
  · rintro ⟨own, index⟩ mem rfl
    rw [mem_entries, absent] at mem
    cases mem

theorem removedIndexes_succeed (current : List IndexModel) (target : OrderedMap String IndexModel)
    (table : TableModel) :
    Succeeds (((collectBy IndexModel.name current).keys.flatMap
        (removedIndex tableName target)).foldlM executeTable table) ↔
      ∀ name old, (collectBy IndexModel.name current).get? name = some old →
        target.get? name = none → HasIndex table name := by
  rw [foldlM_flatMap]
  refine (foldlM_succeeds (fun _ => True) HasIndex id
    (fun name present => target.contains name = false → present)
    (fun name _ s _ => removedIndex_succeeds target name s)
    (fun name _ s s' _ done => ⟨trivial, (foldlM_onIndex removedIndex_own done).2⟩)
    (by simpa using keys_nodup _) trivial).trans ?_
  simp only [mem_keys, contains_eq_false, contains_iff, id, forall_exists_index]

/-- The index steps of a table go through exactly when every dropped index is there
and every created one finds its columns. -/
theorem indexSteps_succeeds (before after table : TableModel) :
    Succeeds ((indexSteps tableName before.indexes after.indexes).foldlM executeTable table) ↔
      (∀ name, DropsIndex before after name → HasIndex table name) ∧
      ∀ index, CreatesIndex before after index → Covered table index := by
  unfold indexSteps
  simp only
  rw [List.foldlM_append, succeeds_bind]
  constructor
  · rintro ⟨next, first, second⟩
    have wanted := (wantedIndexes_succeed tableName _ _ _).mp ⟨next, first⟩
    have removed := (removedIndexes_succeed _ _ _).mp second
    refine ⟨?_, fun index ⟨name, found, changed⟩ => (wanted name index found).2 changed⟩
    rintro name ⟨old, stored, changed⟩
    cases found : (collectBy IndexModel.name after.indexes).get? name with
    | none => exact (wantedIndexes_frame first found).mp (removed name old stored found)
    | some new => exact (wanted name new found).1 old stored (changed new found)
  · rintro ⟨present, covered⟩
    obtain ⟨next, first⟩ := (wantedIndexes_succeed tableName
        (collectBy IndexModel.name before.indexes) after.indexes table).mpr (by
      intro name new found
      refine ⟨fun old stored changed => present name ⟨old, stored, ?_⟩,
        fun changed => covered new ⟨name, found, changed⟩⟩
      intro other same
      rw [found] at same
      cases same
      exact changed)
    refine ⟨next, first, (removedIndexes_succeed _ _ _).mpr ?_⟩
    intro name old stored absent
    refine (wantedIndexes_frame first absent).mpr (present name ⟨old, stored, ?_⟩)
    intro new found
    rw [absent] at found
    cases found

end Indexes

/-! ### A whole table -/

section Table

variable {backend : DatabaseBackend} {equivalence : DefaultEquivalence}

/-- After the column steps an index is there exactly when one of its name covered
no dropped column. -/
theorem hasIndex_columnSteps (before after : TableModel) (name : String) :
    HasIndex ((columnSteps before.tableName backend equivalence before.columns
        after.columns).foldl editTable before) name ↔
      ∃ index ∈ before.indexes, index.name = name ∧
        ∀ column ∈ namedColumns index, ¬DropsColumn before after column := by
  simp only [HasIndex, List.mem_map, mem_foldl_editTable_indexes columnSteps_kind, dropColumn_mem,
    not_and, forall_eq, DropsColumn]
  constructor
  · rintro ⟨index, ⟨mem, kept⟩, own⟩
    exact ⟨index, mem, own, kept⟩
  · rintro ⟨index, mem, own, kept⟩
    exact ⟨index, ⟨mem, kept⟩, own⟩

theorem alterTableSteps_succeeds (before after : TableModel) :
    Succeeds ((alterTableSteps backend equivalence before after).foldlM executeTable before) ↔
      IndexSafe before after := by
  have columns : ∀ step ∈ columnSteps before.tableName backend equivalence before.columns
      after.columns, ∀ table, executeTable table step = .ok (editTable table step) := by
    intro step mem table
    apply executeTable_total
    rw [columnSteps_kind step mem]
    decide
  -- What follows the indexes is never refused.
  have later : ∀ step ∈ searchIndexSteps before.tableName before.searchIndexes after.searchIndexes ++
      (foreignKeySteps before.tableName before.foreignKeys after.foreignKeys ++
      (appendOnlySteps before.tableName before after ++ checkConstraintSteps before.tableName
        before.checkConstraints after.checkConstraints)),
      ∀ table, executeTable table step = .ok (editTable table step) := by
    intro step mem table
    apply executeTable_total
    simp only [List.mem_append] at mem
    rcases mem with searches | keys | flags | checks
    · rw [searchIndexSteps_kind step searches]
      decide
    · rw [foreignKeySteps_kind step keys]
      decide
    · rw [appendOnlySteps_kind step flags]
      decide
    · rw [checkConstraintSteps_kind step checks]
      decide
  unfold alterTableSteps
  simp only [List.append_assoc]
  rw [succeeds_total_append editTable columns, succeeds_append_total editTable later, indexSteps_succeeds]
  simp only [hasIndex_columnSteps, Covered, foldl_editTable_columns, columnSteps_names]
  rfl

end Table

/-! ### The database -/

section Database

variable {backend : DatabaseBackend} {equivalence : DefaultEquivalence}

/-- Steps on one table run on what is found under its name. -/
theorem foldlM_execute (own : ∀ step ∈ steps, step.tableName? = some name) (live : Live) :
    steps.foldlM execute live =
      steps.foldlM executeOn (live name) >>= fun found => .ok (Function.update live name found) := by
  induction steps generalizing live with
  | nil => simp [pure, Except.pure, bind, Except.bind]
  | cons step rest ih =>
    rw [List.foldlM_cons, List.foldlM_cons, execute, own step (.head _), bind_assoc,
      bind_assoc]
    congr 1
    funext found
    have later := ih (fun step mem => own step (.tail _ mem))
      (Function.update live name found)
    simp only [Function.update_self, Function.update_idem] at later
    exact later

/-- Edits run on the table itself. -/
theorem foldlM_executeOn (edits : ∀ step ∈ steps, Edits name step) (table : TableModel) :
    steps.foldlM executeOn (some table) =
      steps.foldlM executeTable table >>= fun table => .ok (some table) := by
  induction steps generalizing table with
  | nil => rfl
  | cons step rest ih =>
    have first : executeOn (some table) step =
        executeTable table step >>= fun table => .ok (some table) := by
      have edit := edits step (.head _)
      cases step <;> first | rfl | exact absurd edit not_false
    rw [List.foldlM_cons, List.foldlM_cons, first, bind_assoc, bind_assoc]
    congr 1
    funext next
    exact ih (fun step mem => edits step (.tail _ mem)) next

theorem dropTableSteps_executeOn (table : TableModel) (found : Option TableModel) :
    Succeeds ((dropTableSteps table).foldlM executeOn found) := by
  unfold dropTableSteps
  refine (succeeds_append_total (fun _ _ => none) ?_ found).mpr ?_
  · intro step mem _
    cases List.mem_singleton.mp mem
    rfl
  · refine ⟨_, foldlM_total (fun found step => found.map fun table => editTable table step) ?_ found⟩
    intro step mem found
    obtain ⟨index, _, rfl⟩ := List.mem_map.mp mem
    cases found <;> rfl

theorem currentTableSteps_named (target : SchemaModel) (table : TableModel) :
    ∀ step ∈ currentTableSteps backend equivalence target table,
      step.tableName? = some table.tableName := by
  intro step mem
  simp only [currentTableSteps] at mem
  split at mem
  · simp only [dropTableSteps, List.mem_append, List.mem_map, List.mem_singleton] at mem
    rcases mem with ⟨_, _, rfl⟩ | rfl <;> rfl
  · have edits := mem_alterTableSteps mem
    cases step <;> first | exact edits | exact absurd edits not_false

/-- What one current table needs. -/
theorem currentTableSteps_succeeds (target : SchemaModel) (table : TableModel) :
    Succeeds ((currentTableSteps backend equivalence target table).foldlM executeOn (some table)) ↔
      ∀ after, (tableMap target).get? table.tableName = some after → IndexSafe table after := by
  simp only [currentTableSteps]
  cases (tableMap target).get? table.tableName with
  | none => simp [dropTableSteps_executeOn]
  | some after =>
    simp only [Option.some.injEq, forall_eq']
    rw [foldlM_executeOn fun _ mem => mem_alterTableSteps mem, succeeds_map,
      alterTableSteps_succeeds]

/-- Extensions and new tables are never refused, and leave the current tables alone. -/
theorem early_execute (current : SchemaModel)
    (early : ∀ step ∈ steps, (∃ name, step = .enableExtension name) ∨
      ∃ table, step = .createTable table ∧ (tableMap current).contains table.tableName = false)
    (live : Live) :
    ∃ live', steps.foldlM execute live = .ok live' ∧
      ∀ name, (tableMap current).contains name = true → live' name = live name := by
  induction steps generalizing live with
  | nil => exact ⟨live, rfl, fun _ _ => rfl⟩
  | cons step rest ih =>
    have later := ih fun step mem => early step (.tail _ mem)
    rcases early step (.head _) with ⟨_, rfl⟩ | ⟨table, rfl, absent⟩
    · obtain ⟨live', done, kept⟩ := later live
      exact ⟨live', done, kept⟩
    · obtain ⟨live', done, kept⟩ := later (Function.update live table.tableName (some table))
      refine ⟨live', done, fun name present => ?_⟩
      rw [kept name present, Function.update_of_ne]
      rintro rfl
      rw [absent] at present
      cases present

/-- A plan meets no refused index step exactly when no surviving table drops an
index over a column it drops, or creates one over a column it lacks. -/
theorem indexesInOrder_iff (backend : DatabaseBackend) (current target : SchemaModel) :
    IndexesInOrder current (diffSchemaViews backend current target) ↔
      IndexesSafe current target := by
  have named := tableMap_named current
  have early : ∀ step ∈ extensionSteps current.extensions target.extensions ++
      createTableSteps current target, (∃ name, step = .enableExtension name) ∨
      ∃ table, step = .createTable table ∧ (tableMap current).contains table.tableName = false := by
    intro step mem
    rcases mem_early mem with ⟨name, rfl⟩ | ⟨table, rfl, created⟩
    · exact .inl ⟨name, rfl⟩
    · exact .inr ⟨table, rfl, (createTable_mem.mp created).2⟩
  obtain ⟨live, started, kept⟩ := early_execute current early (tableMap current).get?
  have visited (table : TableModel) : table ∈ (orderTablesByForeignKeys (tableMap current)).reverse ↔
      (tableMap current).get? table.tableName = some table := by
    rw [List.mem_reverse, mem_orderTables named]
  have found (table : TableModel) (stored : (tableMap current).get? table.tableName = some table) :
      live table.tableName = some table := by
    rw [kept _ (contains_iff.mpr ⟨table, stored⟩), stored]
  unfold IndexesInOrder diffSchemaViews diffSchemaViewsWith
  rw [List.foldlM_append, started]
  change Succeeds (List.foldlM execute live _) ↔ _
  -- Each current table is visited once, and its steps read and write that table only.
  rw [foldlM_flatMap]
  refine (foldlM_succeeds (fun _ => True) (fun live name => live name) TableModel.tableName
    (fun table found => Succeeds ((currentTableSteps backend .pinned8e1 target table).foldlM
      executeOn found)) ?succeeds ?keeps ?distinct trivial).trans ?_
  case succeeds =>
    intro table _ live _
    rw [foldlM_execute (currentTableSteps_named target table), succeeds_map]
  case keeps =>
    intro table _ live live' _ done
    rw [foldlM_execute (currentTableSteps_named target table), bind_eq_ok] at done
    obtain ⟨found, _, result⟩ := done
    cases result
    exact ⟨trivial, fun other different => Function.update_of_ne different _ _⟩
  case distinct =>
    rw [List.map_reverse, List.nodup_reverse]
    exact orderTables_nodup named
  constructor
  · intro all name before after stored wanted
    have own := named name before stored
    subst own
    have here := all before ((visited before).mpr stored)
    rw [found before stored, currentTableSteps_succeeds] at here
    exact here after wanted
  · intro safe table mem
    have stored := (visited table).mp mem
    rw [found table stored, currentTableSteps_succeeds]
    exact fun after wanted => safe table.tableName table after stored wanted

end Database

/-- Contacts with an indexed telephone number, and the schema without either. -/
def contactsBefore : SchemaModel where
  tables := [{
    tableName := "contacts", primaryKey := "id"
    columns := [{ name := "id", sqlType := "TEXT", isPrimaryKey := true },
      { name := "phone", sqlType := "TEXT" }]
    indexes := [{ name := "idx_contacts_phone", columns := ["phone"] }] }]

def contactsAfter : SchemaModel where
  tables := [{
    tableName := "contacts", primaryKey := "id"
    columns := [{ name := "id", sqlType := "TEXT", isPrimaryKey := true }] }]

/-- The column takes its index with it, and the plan then drops the index. -/
theorem indexesInOrder_fails_contacts :
    contactsBefore.validatePhysicalContract = .ok () ∧
    contactsAfter.validatePhysicalContract = .ok () ∧
    ¬IndexesInOrder contactsBefore (diffSchemaViews .postgres contactsBefore contactsAfter) := by
  refine ⟨rfl, rfl, ?_⟩
  have plan : diffSchemaViews .postgres contactsBefore contactsAfter =
      [.dropColumn "contacts" "phone", .dropIndex "contacts" "idx_contacts_phone"] := by
    decide
  have refused : [MigrationStep.dropColumn "contacts" "phone",
      .dropIndex "contacts" "idx_contacts_phone"].foldlM execute (tableMap contactsBefore).get? =
      .error (.missingIndex "contacts" "idx_contacts_phone") := rfl
  rw [IndexesInOrder, plan, refused]
  rintro ⟨_, done⟩
  cases done

end GraphqlOrm.Migration
