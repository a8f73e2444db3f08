import GraphqlOrm.Foundation.TableRows
import GraphqlOrm.RowBackup.ImportOrder

/-!
# Importing the rows of a table

The ordered rows are inserted with their stored values. The deferred rows are inserted with
placeholders in the columns that refer to the table itself, and then updated.

## Main results

- `foreignKeyHolds`: the references hold while some rows are stored and others have placeholders.
- `importSteps_restore`: they hold after every statement, and in the end all values are stored.
-/
namespace GraphqlOrm.RowBackup

open Backup (ColumnBackupDescriptor EntityBackupDescriptor EntityDependencyDescriptor)
open Decimals Outcome TableRows
open Keys (SqlValue)

variable {δ : Type} {rust : DecimalLibrary δ}

/-! ### Statements -/

section Steps

variable (floats : FloatText) (entity : EntityBackupDescriptor) (rows : List (BackupRow rust))

def importColumns : List ColumnBackupDescriptor :=
  (entity.columns.filter fun column =>
      column.backupPolicy != .exclude || column.isPrimaryKey).filter fun column =>
    (rows.head?.map fun row => row.values.contains column.columnName).getD true

def stored (row : BackupRow rust) (column : ColumnBackupDescriptor) :
    Except ImportError (SqlValue rust) := do
  let value ← okOr (.missingColumn row.primaryKey entity.tableName column.columnName)
    (row.values.get? column.columnName)
  backupValueToSqlValue value column

/-- A reference that waits is null, or the own key of the row where it cannot be null. -/
def placeholder (order : ImportRowOrder rust) (keyColumn : ColumnBackupDescriptor)
    (row : BackupRow rust) (column : ColumnBackupDescriptor) : Except ImportError (SqlValue rust) :=
  if column.columnName ∉ order.selfColumns then stored entity row column
  else if column.nullable then backupValueToSqlValue .null column
  else stored entity row keyColumn

def insertStep (columns : List ColumnBackupDescriptor)
    (value : ColumnBackupDescriptor → Except ImportError (SqlValue rust)) :
    Except ImportError (Statement String (SqlValue rust)) := do
  let values ← columns.mapM value
  return .insert (columns.map (·.columnName)) values

def updateStep (selfColumns : List ColumnBackupDescriptor) (keyColumn : ColumnBackupDescriptor)
    (row : BackupRow rust) : Except ImportError (Statement String (SqlValue rust)) := do
  let values ← selfColumns.mapM (stored entity row)
  let key ← stored entity row keyColumn
  require (!selfColumns.isEmpty) .emptyUpdate
  return .update (selfColumns.map (·.columnName)) values keyColumn.columnName key

def deferredSteps (order : ImportRowOrder rust) (columns : List ColumnBackupDescriptor) :
    List (Except ImportError (Statement String (SqlValue rust))) :=
  if order.deferred.isEmpty then []
  else
    match entity.columns.find? (·.columnName = entity.primaryKeyColumn) with
    | none => [.error (.undescribedKey entity.tableName)]
    | some keyColumn =>
      order.deferred.map (fun row => insertStep columns (placeholder entity order keyColumn row)) ++
        order.deferred.map
          (updateStep entity (columns.filter (·.columnName ∈ order.selfColumns)) keyColumn)

/-- The statements in order. The first one that cannot be made ends the import. -/
def importSteps :
    Except ImportError (List (Except ImportError (Statement String (SqlValue rust)))) := do
  let order ← importRowOrder floats entity rows
  return order.ordered.map (fun row =>
      insertStep (importColumns entity rows) (stored entity row)) ++
    deferredSteps entity order (importColumns entity rows)

def storedRecord (columns : List ColumnBackupDescriptor) (row : BackupRow rust) :
    Except ImportError (Record String (SqlValue rust)) := do
  let values ← columns.mapM (stored entity row)
  return (columns.map (·.columnName)).zip values

def SelfReferencesHold (table : List (Record String (SqlValue rust))) : Prop :=
  ∀ dependency ∈ entity.dependencies, dependency.tableName = entity.tableName →
    dependency.targetColumn = entity.primaryKeyColumn →
      ForeignKeyHolds SqlValue.isNull dependency.sourceColumn entity.primaryKeyColumn table

/-- The values fit their columns, and the references are in the backup. -/
structure Fits : Prop where
  stored : ∀ row ∈ rows, ∀ column ∈ importColumns entity rows, Succeeds (stored entity row column)
  nulls : ∀ column ∈ importColumns entity rows, column.nullable = true →
    Succeeds (backupValueToSqlValue (.null : BackupValue rust) column)
  references : ∀ dependency ∈ selfDependencies entity,
    ∃ column ∈ importColumns entity rows, column.columnName = dependency.sourceColumn

end Steps

/-! ### Steps that succeed -/

def valueOf (converted : Except ImportError (SqlValue rust)) : SqlValue rust :=
  converted.toOption.getD .null

theorem eq_valueOf {converted : Except ImportError (SqlValue rust)} (made : Succeeds converted) :
    converted = .ok (valueOf converted) := by
  obtain ⟨value, rfl⟩ := made
  rfl

variable {columns : List ColumnBackupDescriptor}

theorem mapM_values {value : ColumnBackupDescriptor → Except ImportError (SqlValue rust)}
    {values : List (SqlValue rust)} (mapped : columns.mapM value = .ok values) :
    (∀ column ∈ columns, Succeeds (value column)) ∧
      values = columns.map fun column => valueOf (value column) := by
  have all : ∀ column ∈ columns, Succeeds (value column) := by
    intro column mem
    obtain ⟨result, _, made⟩ := exists_of_mem_left (forall₂_of_mapM mapped) mem
    exact ⟨result, made⟩
  refine ⟨all, ?_⟩
  have made : columns.mapM value = .ok (columns.map fun column => valueOf (value column)) :=
    mapM_ok fun column mem => eq_valueOf (all column mem)
  exact Except.ok.inj (mapped.symm.trans made)

theorem insertStep_ok {value : ColumnBackupDescriptor → Except ImportError (SqlValue rust)}
    {statement : Statement String (SqlValue rust)} (made : insertStep columns value = .ok statement) :
    (∀ column ∈ columns, Succeeds (value column)) ∧
      statement = .insert (columns.map (·.columnName))
        (columns.map fun column => valueOf (value column)) := by
  obtain ⟨values, mapped, rest⟩ := bind_eq_ok.mp made
  obtain ⟨all, rfl⟩ := mapM_values mapped
  cases rest
  exact ⟨all, rfl⟩

variable {row : BackupRow rust}

theorem updateStep_ok {entity : EntityBackupDescriptor} {selfColumns : List ColumnBackupDescriptor}
    {keyColumn : ColumnBackupDescriptor} {statement : Statement String (SqlValue rust)}
    (made : updateStep entity selfColumns keyColumn row = .ok statement) :
    (∀ column ∈ selfColumns, Succeeds (stored entity row column)) ∧
      statement = .update (selfColumns.map (·.columnName))
        (selfColumns.map fun column => valueOf (stored entity row column)) keyColumn.columnName
        (valueOf (stored entity row keyColumn)) := by
  obtain ⟨values, mapped, rest⟩ := bind_eq_ok.mp made
  obtain ⟨key, own, rest⟩ := bind_eq_ok.mp rest
  obtain ⟨_, _, rest⟩ := bind_eq_ok.mp rest
  obtain ⟨all, rfl⟩ := mapM_values mapped
  cases rest
  rw [own]
  exact ⟨all, rfl⟩

/-! ### Records while the rows come in -/

section Records

variable (entity : EntityBackupDescriptor) (rows : List (BackupRow rust))
  (order : ImportRowOrder rust) (keyColumn : ColumnBackupDescriptor)

def finalRecord (row : BackupRow rust) : Record String (SqlValue rust) :=
  recordOf (·.columnName) (importColumns entity rows) fun column =>
    valueOf (stored entity row column)

def stagedRecord (row : BackupRow rust) : Record String (SqlValue rust) :=
  recordOf (·.columnName) (importColumns entity rows) fun column =>
    valueOf (placeholder entity order keyColumn row column)

def Storable (row : BackupRow rust) : Prop :=
  ∀ column ∈ importColumns entity rows, Succeeds (stored entity row column)

def Stageable (row : BackupRow rust) : Prop :=
  ∀ column ∈ importColumns entity rows, Succeeds (placeholder entity order keyColumn row column)

end Records

variable {floats : FloatText} {entity : EntityBackupDescriptor} {rows : List (BackupRow rust)}
  {order : ImportRowOrder rust} {keyColumn : ColumnBackupDescriptor}

theorem importColumns_sublist : (importColumns entity rows).Sublist entity.columns :=
  List.filter_sublist.trans List.filter_sublist

theorem stored_eq {column : ColumnBackupDescriptor} {x : BackupValue rust}
    (found : row.values.get? column.columnName = some x) :
    stored entity row column = backupValueToSqlValue x column := by
  unfold stored
  rw [found]
  rfl

section Table

variable (good : SelfReferencing floats entity rows) (sound : order.Sound entity rows)
  (key : entity.columns.find? (·.columnName = entity.primaryKeyColumn) = some keyColumn)

include good

theorem importColumns_nodup : ((importColumns entity rows).map (·.columnName)).Nodup :=
  good.columns.sublist (importColumns_sublist.map _)

theorem exists_keyColumn : ∃ keyColumn,
    entity.columns.find? (·.columnName = entity.primaryKeyColumn) = some keyColumn := by
  obtain ⟨column, mem, own, _⟩ := good.described
  apply Option.isSome_iff_exists.mp
  rw [List.find?_isSome]
  exact ⟨column, mem, by simpa using own⟩

include key

theorem keyColumn_spec : keyColumn.columnName = entity.primaryKeyColumn ∧
    keyColumn ∈ entity.columns ∧ keyColumn.isPrimaryKey = true := by
  have own : keyColumn.columnName = entity.primaryKeyColumn := by
    simpa using List.find?_some key
  have inside := List.mem_of_find?_eq_some key
  obtain ⟨column, mem, same, primary⟩ := good.described
  obtain rfl : column = keyColumn :=
    List.inj_on_of_nodup_map good.columns mem inside (same.trans own.symm)
  exact ⟨own, inside, primary⟩

theorem keyColumn_mem (mem : row ∈ rows) :
    keyColumn ∈ importColumns entity rows := by
  obtain ⟨own, inside, primary⟩ := keyColumn_spec good key
  unfold importColumns
  rw [List.mem_filter, List.mem_filter]
  refine ⟨⟨inside, by rw [primary, Bool.or_true]⟩, ?_⟩
  cases rows with
  | nil => rfl
  | cons first rest =>
    obtain ⟨value, _, found, _⟩ := good.keyed first (.head _)
    show first.values.contains keyColumn.columnName = true
    rw [own]
    exact OrderedMap.contains_iff.mpr ⟨value, found⟩

/-- The parameter of a key is that of its value. -/
theorem ownKey_eq (made : Succeeds (stored entity row keyColumn)) {x : BackupValue rust}
    (found : row.values.get? entity.primaryKeyColumn = some x) (nonnull : x ≠ .null) :
    valueOf (stored entity row keyColumn) = x.toSqlValue := by
  obtain ⟨own, _, _⟩ := keyColumn_spec good key
  rw [← own] at found
  have converted := eq_valueOf made
  rw [stored_eq found] at converted ⊢
  exact backupValueToSqlValue_eq converted nonnull

theorem ownKey_injective {x y : BackupRow rust} (left : x ∈ rows) (right : y ∈ rows)
    (leftKey : Succeeds (stored entity x keyColumn))
    (rightKey : Succeeds (stored entity y keyColumn))
    (same : valueOf (stored entity x keyColumn) = valueOf (stored entity y keyColumn)) : x = y := by
  obtain ⟨a, aSome, aFound, aText⟩ := good.keyed x left
  obtain ⟨b, bSome, bFound, bText⟩ := good.keyed y right
  rw [ownKey_eq good key leftKey aFound aSome, ownKey_eq good key rightKey bFound bSome] at same
  obtain rfl := BackupValue.toSqlValue_injective same
  exact good.eq_of_key left right (aText.symm.trans bText)

theorem lookup_finalRecord (mem : row ∈ rows) :
    (finalRecord entity rows row).lookup entity.primaryKeyColumn =
      some (valueOf (stored entity row keyColumn)) := by
  obtain ⟨own, _, _⟩ := keyColumn_spec good key
  rw [← own]
  exact lookup_recordOf (importColumns_nodup good) (keyColumn_mem good key mem)
    fun column => valueOf (stored entity row column)

include sound

/-- The key is not among the columns that wait. -/
theorem placeholder_key (mem : row ∈ order.deferred) :
    placeholder entity order keyColumn row keyColumn = stored entity row keyColumn := by
  have own : keyColumn.columnName ∉ order.selfColumns := by
    rw [sound.selfColumns (List.ne_nil_of_mem mem), (keyColumn_spec good key).1]
    rintro ⟨dependency, inside, same⟩
    exact (mem_selfDependencies.mp inside).2.2.2.2 same
  unfold placeholder
  rw [if_pos own]

theorem lookup_stagedRecord (mem : row ∈ order.deferred) :
    (stagedRecord entity rows order keyColumn row).lookup entity.primaryKeyColumn =
      some (valueOf (stored entity row keyColumn)) := by
  obtain ⟨own, _, _⟩ := keyColumn_spec good key
  have inside := ((sound.deferred row).mp mem).1
  rw [← own, ← placeholder_key good sound key mem]
  exact lookup_recordOf (importColumns_nodup good) (keyColumn_mem good key inside)
    fun column => valueOf (placeholder entity order keyColumn row column)

/-- The references hold while some rows are stored, together with the rows that they refer to, and
others have placeholders. -/
theorem foreignKeyHolds {settled pending : List (BackupRow rust)}
    (known : ∀ row ∈ settled, row ∈ rows) (waiting : ∀ row ∈ pending, row ∈ order.deferred)
    (closed : ∀ child ∈ settled, ∀ parent, Refers entity rows child parent →
      parent ∈ settled ++ pending)
    (storable : ∀ row ∈ settled, Storable entity rows row)
    (stageable : ∀ row ∈ pending, Stageable entity rows order keyColumn row) :
    SelfReferencesHold entity (settled.map (finalRecord entity rows) ++
      pending.map (stagedRecord entity rows order keyColumn)) := by
  obtain ⟨own, _, _⟩ := keyColumn_spec good key
  have inside {row : BackupRow rust} (mem : row ∈ pending) : row ∈ rows :=
    ((sound.deferred row).mp (waiting row mem)).1
  -- Every row in the table is found under its own key.
  have present {row : BackupRow rust} (mem : row ∈ settled ++ pending) :
      Succeeds (stored entity row keyColumn) ∧
        ∃ parent ∈ settled.map (finalRecord entity rows) ++
            pending.map (stagedRecord entity rows order keyColumn),
          parent.lookup entity.primaryKeyColumn = some (valueOf (stored entity row keyColumn)) := by
    rcases List.mem_append.mp mem with placed | staged
    · refine ⟨storable row placed keyColumn (keyColumn_mem good key (known row placed)),
        finalRecord entity rows row, ?_, lookup_finalRecord good key (known row placed)⟩
      exact List.mem_append_left _ (List.mem_map_of_mem placed)
    · have made := stageable row staged keyColumn (keyColumn_mem good key (inside staged))
      rw [placeholder_key good sound key (waiting row staged)] at made
      refine ⟨made, stagedRecord entity rows order keyColumn row, ?_,
        lookup_stagedRecord good sound key (waiting row staged)⟩
      exact List.mem_append_right _ (List.mem_map_of_mem staged)
  intro dependency mem table target record recorded value held nonnull
  by_cases trivial : dependency.sourceColumn = entity.primaryKeyColumn
  · exact ⟨record, recorded, trivial ▸ held⟩
  have reference : dependency ∈ selfDependencies entity :=
    mem_selfDependencies.mpr ⟨mem, good.single, table, target, trivial⟩
  rcases List.mem_append.mp recorded with placed | staged
  · obtain ⟨child, here, rfl⟩ := List.mem_map.mp placed
    obtain ⟨column, imported, named⟩ := exists_of_lookup_recordOf held
    have found := lookup_recordOf (importColumns_nodup good) imported
      fun column => valueOf (stored entity child column)
    rw [named] at found
    have same := Option.some.inj (held.symm.trans found)
    have made := eq_valueOf (storable child here column imported)
    obtain ⟨x, stored, names⟩ := good.named child (known child here) dependency reference
    rw [stored_eq (named ▸ stored)] at made same
    by_cases none : x = .null
    · subst none
      rw [same, backupValueToSqlValue_null made] at nonnull
      cases nonnull
    have converted := backupValueToSqlValue_eq made none
    obtain ⟨parent, listed, keyed⟩ := names.resolve_left none
    have there : parent ∈ settled ++ pending := by
      by_cases self : child.primaryKey = parent.primaryKey
      · rw [← good.eq_of_key (known child here) listed self]
        exact List.mem_append_left _ here
      · exact closed child here parent
          ⟨known child here, listed, self, dependency, reference, x, none, stored, keyed⟩
    obtain ⟨ownKey, target, mem, entry⟩ := present there
    rw [ownKey_eq good key ownKey keyed none, ← converted, ← same] at entry
    exact ⟨target, mem, entry⟩
  · obtain ⟨child, here, rfl⟩ := List.mem_map.mp staged
    obtain ⟨column, imported, named⟩ := exists_of_lookup_recordOf held
    have found := lookup_recordOf (importColumns_nodup good) imported
      fun column => valueOf (placeholder entity order keyColumn child column)
    rw [named] at found
    have same := Option.some.inj (held.symm.trans found)
    have waits : column.columnName ∈ order.selfColumns := by
      rw [sound.selfColumns (List.ne_nil_of_mem (waiting child here)), named]
      exact ⟨dependency, reference, rfl⟩
    have made := stageable child here column imported
    unfold placeholder at same made
    rw [if_neg (not_not.mpr waits)] at same made
    by_cases nullable : column.nullable = true
    · rw [if_pos nullable] at same made
      rw [same, backupValueToSqlValue_null (eq_valueOf made)] at nonnull
      cases nonnull
    · rw [if_neg nullable] at same
      obtain ⟨_, target, mem, entry⟩ := present (List.mem_append_right settled here)
      exact ⟨target, mem, same ▸ entry⟩

/-! ### The phases of the import -/

variable [DecidableEq δ]

variable {statements : List (Statement String (SqlValue rust))}

omit good sound key in
theorem execute_insertSteps
    {value : BackupRow rust → ColumnBackupDescriptor → Except ImportError (SqlValue rust)}
    {first : List (BackupRow rust)}
    (same : statements.map .ok = first.map fun row => insertStep columns (value row))
    (table : List (Record String (SqlValue rust))) :
    (∀ row ∈ first, ∀ column ∈ columns, Succeeds (value row column)) ∧
      execute table statements = table ++ first.map fun row =>
        recordOf (·.columnName) columns fun column => valueOf (value row column) := by
  constructor
  · intro row mem
    obtain ⟨statement, made⟩ := exists_of_map_ok same mem
    exact (insertStep_ok made).1
  · have all := eq_map_of_ok same fun row _ statement made => (insertStep_ok made).2
    rw [all, execute_inserts]
    congr 1
    apply List.map_congr_left
    intro row _
    exact zip_eq_recordOf fun column => valueOf (value row column)

theorem execute_updateSteps {changed rest : List (BackupRow rust)}
    (split : order.deferred = changed ++ rest)
    (storable : ∀ row ∈ order.ordered, Storable entity rows row)
    (stageable : ∀ row ∈ order.deferred, Stageable entity rows order keyColumn row)
    (same : statements.map .ok = changed.map (updateStep entity
      ((importColumns entity rows).filter (·.columnName ∈ order.selfColumns)) keyColumn)) :
    (∀ row ∈ order.ordered ++ changed, Storable entity rows row) ∧
      execute (order.ordered.map (finalRecord entity rows) ++
          order.deferred.map (stagedRecord entity rows order keyColumn)) statements =
        (order.ordered ++ changed).map (finalRecord entity rows) ++
          rest.map (stagedRecord entity rows order keyColumn) := by
  have waiting {row : BackupRow rust} (mem : row ∈ changed) : row ∈ order.deferred :=
    split ▸ List.mem_append_left rest mem
  have known {row : BackupRow rust} (mem : row ∈ order.ordered ++ order.deferred) : row ∈ rows :=
    sound.complete.mem_iff.mp mem
  -- A column waits and is set by the update, or has its value already.
  have done : ∀ row ∈ changed, Storable entity rows row := by
    intro row mem column imported
    obtain ⟨statement, made⟩ := exists_of_map_ok same mem
    by_cases waits : column.columnName ∈ order.selfColumns
    · exact (updateStep_ok made).1 column (List.mem_filter.mpr ⟨imported, by simpa using waits⟩)
    · have staged := stageable row (waiting mem) column imported
      unfold placeholder at staged
      rwa [if_pos waits] at staged
  have all := eq_map_of_ok same fun row _ statement made => (updateStep_ok made).2
  refine ⟨fun row mem => (List.mem_append.mp mem).elim (storable row) (done row), ?_⟩
  rw [all, split, (keyColumn_spec good key).1]
  apply execute_updates
  · rw [← split]
    have ownKey : ∀ row ∈ order.ordered ++ order.deferred,
        Succeeds (stored entity row keyColumn) := by
      intro row mem
      have imported := keyColumn_mem good key (known mem)
      rcases List.mem_append.mp mem with placed | deferred
      · exact storable row placed keyColumn imported
      · exact placeholder_key good sound key deferred ▸ stageable row deferred keyColumn imported
    apply List.Nodup.map_on _ (sound.complete.nodup_iff.mpr good.distinct.of_map)
    intro x left y right equal
    exact ownKey_injective good key (known left) (known right) (ownKey x left) (ownKey y right) equal
  · intro row mem
    exact lookup_stagedRecord good sound key (split ▸ mem)
  · intro row mem
    apply lookup_finalRecord good key
    rcases List.mem_append.mp mem with placed | updated
    · exact known (List.mem_append_left _ placed)
    · exact known (List.mem_append_right _ (waiting updated))
  · intro row _
    apply set_recordOf (importColumns_nodup good) List.filter_sublist
    intro column imported unset
    have waits : column.columnName ∉ order.selfColumns := fun mem =>
      unset (List.mem_filter.mpr ⟨imported, by simpa using mem⟩)
    unfold placeholder
    rw [if_pos waits]

omit good sound [DecidableEq δ] in
theorem deferredSteps_eq (columns : List ColumnBackupDescriptor) :
    deferredSteps entity order columns =
      order.deferred.map (fun row => insertStep columns (placeholder entity order keyColumn row)) ++
        order.deferred.map
          (updateStep entity (columns.filter (·.columnName ∈ order.selfColumns)) keyColumn) := by
  unfold deferredSteps
  rw [key]
  cases order.deferred <;> rfl

/-- The references hold after each statement. -/
theorem selfReferencesHold (inside : statements.map .ok <+: order.ordered.map (fun row =>
        insertStep (importColumns entity rows) (stored entity row)) ++
      deferredSteps entity order (importColumns entity rows)) :
    SelfReferencesHold entity (execute [] statements) := by
  have known {row : BackupRow rust} (mem : row ∈ order.ordered) : row ∈ rows :=
    sound.complete.mem_iff.mp (List.mem_append_left _ mem)
  rw [deferredSteps_eq key] at inside
  rcases prefix_append_cases inside with ⟨rest, split⟩ | ⟨inserts, others, rfl, all, inside⟩
  -- The ordered rows come in, each after the other rows that it refers to.
  · obtain ⟨first, later, parts, here, _⟩ := List.map_eq_append_iff.mp split
    obtain ⟨storable, table⟩ := execute_insertSteps here.symm []
    have placed {row : BackupRow rust} (mem : row ∈ first) : row ∈ order.ordered :=
      parts ▸ List.mem_append_left later mem
    have closed : ∀ child ∈ first, ∀ parent, Refers entity rows child parent → parent ∈ first ++ [] := by
      intro child mem parent refers
      have before := sound.after child (placed mem) parent refers
      rw [parts] at before
      rw [List.append_nil]
      rcases Before.append_iff.mp before with both | ⟨earlier, _⟩ | both
      · exact both.left_mem
      · exact earlier
      · have single : (first ++ later).Nodup :=
          parts ▸ (List.nodup_append.mp (sound.complete.nodup_iff.mpr good.distinct.of_map)).1
        exact absurd both.right_mem fun twice =>
          (List.nodup_append.mp single).2.2 child mem child twice rfl
    have none : ∀ row ∈ ([] : List (BackupRow rust)), row ∈ order.deferred ∧
        Stageable entity rows order keyColumn row := fun row mem => absurd mem List.not_mem_nil
    have held := foreignKeyHolds good sound key (fun row mem => known (placed mem))
      (fun row mem => (none row mem).1) closed storable fun row mem => (none row mem).2
    rw [List.map_nil, List.append_nil] at held
    exact table ▸ held
  obtain ⟨storable, table⟩ := execute_insertSteps all.symm []
  rw [List.nil_append] at table
  rcases prefix_append_cases inside with ⟨rest, split⟩ | ⟨staged, updates, rfl, all, inside⟩
  -- The deferred rows come in with placeholders.
  · obtain ⟨first, later, parts, here, _⟩ := List.map_eq_append_iff.mp split
    obtain ⟨stageable, staged⟩ := execute_insertSteps here.symm (execute [] inserts)
    rw [execute_append, staged, table]
    apply foreignKeyHolds good sound key (fun row mem => known mem)
      (fun row mem => parts ▸ List.mem_append_left later mem) _ storable stageable
    intro child mem parent refers
    exact List.mem_append_left _ (sound.after child mem parent refers).left_mem
  -- The deferred rows receive their values.
  · obtain ⟨stageable, held⟩ := execute_insertSteps all.symm (execute [] inserts)
    obtain ⟨rest, split⟩ := inside
    obtain ⟨first, later, parts, here, _⟩ := List.map_eq_append_iff.mp split.symm
    obtain ⟨storable, updated⟩ := execute_updateSteps good sound key parts storable stageable here.symm
    rw [execute_append, execute_append, held, table]
    refine (updated : _ = _) ▸ ?_
    have together : order.ordered ++ first ++ later = order.ordered ++ order.deferred := by
      rw [parts, List.append_assoc]
    apply foreignKeyHolds good sound key _ _ _ storable
    · intro row mem
      exact stageable row (parts ▸ List.mem_append_right first mem)
    · intro row mem
      exact sound.complete.mem_iff.mp (together ▸ List.mem_append_left later mem)
    · intro row mem
      exact parts ▸ List.mem_append_right first mem
    · intro child _ parent refers
      rw [together]
      exact sound.complete.mem_iff.mpr refers.2.1

/-- After all statements every row is stored. -/
theorem execute_all (all : order.ordered.map (fun row =>
        insertStep (importColumns entity rows) (stored entity row)) ++
      deferredSteps entity order (importColumns entity rows) = statements.map .ok) :
    (∀ row ∈ rows, Storable entity rows row) ∧
      (execute [] statements).Perm (rows.map (finalRecord entity rows)) := by
  rw [deferredSteps_eq key] at all
  obtain ⟨inserts, others, rfl, first, second⟩ := List.map_eq_append_iff.mp all.symm
  obtain ⟨staged, updates, rfl, third, fourth⟩ := List.map_eq_append_iff.mp second
  obtain ⟨storable, table⟩ := execute_insertSteps first []
  obtain ⟨stageable, held⟩ := execute_insertSteps third (execute [] inserts)
  obtain ⟨complete, updated⟩ :=
    execute_updateSteps good sound key (List.append_nil _).symm storable stageable fourth
  refine ⟨fun row mem => complete row (sound.complete.mem_iff.mpr mem), ?_⟩
  rw [List.nil_append] at table
  rw [execute_append, execute_append, held, table]
  refine (List.Perm.of_eq updated).trans ?_
  rw [List.map_nil, List.append_nil]
  exact sound.complete.map (finalRecord entity rows)

omit [DecidableEq δ] in
/-- Values that fit their columns fail no statement. -/
theorem exists_statements (fits : Fits entity rows) :
    ∃ statements : List (Statement String (SqlValue rust)), order.ordered.map (fun row =>
        insertStep (importColumns entity rows) (stored entity row)) ++
      deferredSteps entity order (importColumns entity rows) = statements.map .ok := by
  have known {row : BackupRow rust} (mem : row ∈ order.ordered ++ order.deferred) : row ∈ rows :=
    sound.complete.mem_iff.mp mem
  have inserts {value : ColumnBackupDescriptor → Except ImportError (SqlValue rust)}
      (all : ∀ column ∈ importColumns entity rows, Succeeds (value column)) :
      Succeeds (insertStep (importColumns entity rows) value) :=
    succeeds_bind.mpr ((succeeds_mapM all).imp fun _ made => ⟨made, _, rfl⟩)
  rw [deferredSteps_eq key]
  apply exists_eq_map_ok
  intro step mem
  rcases List.mem_append.mp mem with placed | deferred
  · obtain ⟨row, here, rfl⟩ := List.mem_map.mp placed
    exact inserts fun column imported =>
      fits.stored row (known (List.mem_append_left _ here)) column imported
  rcases List.mem_append.mp deferred with staged | updated
  · obtain ⟨row, here, rfl⟩ := List.mem_map.mp staged
    have own := known (List.mem_append_right _ here)
    apply inserts
    intro column imported
    unfold placeholder
    split
    · exact fits.stored row own column imported
    split
    next nullable => exact fits.nulls column imported nullable
    next => exact fits.stored row own keyColumn (keyColumn_mem good key own)
  · obtain ⟨row, here, rfl⟩ := List.mem_map.mp updated
    have own := known (List.mem_append_right _ here)
    have values : Succeeds (((importColumns entity rows).filter
        (·.columnName ∈ order.selfColumns)).mapM (stored entity row)) :=
      succeeds_mapM fun column inside =>
        fits.stored row own column (List.mem_filter.mp inside).1
    obtain ⟨values, mapped⟩ := values
    obtain ⟨value, keyed⟩ := fits.stored row own keyColumn (keyColumn_mem good key own)
    -- A row that waits has a reference, which is in the backup.
    obtain ⟨_, other, _, cycle⟩ := (sound.deferred row).mp here
    obtain ⟨_, refers, _⟩ := Relation.TransGen.head'_iff.mp cycle
    obtain ⟨_, _, _, dependency, reference, _⟩ := refers
    obtain ⟨column, imported, named⟩ := fits.references dependency reference
    have waits : column.columnName ∈ order.selfColumns := by
      rw [sound.selfColumns (List.ne_nil_of_mem here), named]
      exact ⟨dependency, reference, rfl⟩
    have nonempty : (!((importColumns entity rows).filter
        (·.columnName ∈ order.selfColumns)).isEmpty) = true := by
      rw [Bool.not_eq_true', List.isEmpty_eq_false_iff]
      exact List.ne_nil_of_mem (List.mem_filter.mpr ⟨imported, by simpa using waits⟩)
    refine succeeds_bind.mpr ⟨values, mapped, succeeds_bind.mpr ⟨value, keyed, ?_⟩⟩
    exact succeeds_bind.mpr ⟨(), require_eq_ok.mpr nonempty, _, rfl⟩

end Table

section Items

def idColumn : ColumnBackupDescriptor where
  columnName := "id"
  rustFieldName := "id"
  logicalType := .integer
  decimal := none
  nullable := false
  isPrimaryKey := true
  isGenerated := false
  backupPolicy := .include

def parentColumn : ColumnBackupDescriptor where
  columnName := "parent_id"
  rustFieldName := "parent_id"
  logicalType := .integer
  decimal := none
  nullable := true
  isPrimaryKey := false
  isGenerated := false
  backupPolicy := .include

def itemEntity : EntityBackupDescriptor where
  entityName := "Item"
  tableName := "items"
  primaryKeyColumn := "id"
  primaryKeyColumns := []
  retentionPurge := false
  exportOrder := 0
  restoreOrder := 0
  columns := [idColumn, parentColumn]
  dependencies := [{
    entityName := "Item"
    tableName := "items"
    sourceColumn := "parent_id"
    targetColumn := "id"
    nullable := true
    onDelete := .restrict }]

def itemRow (id : Int) (parent : BackupValue plain) : BackupRow plain where
  tableName := "items"
  primaryKey := id.repr
  rowHash := ""
  values := ⟨[("id", .integer id), ("parent_id", parent)], by
    rw [List.pairwise_pair]
    exact (by decide : "id" < "parent_id")⟩

/-- A cycle of two rows, a row below it, a root and a row that refers to itself. -/
def itemRows : List (BackupRow plain) :=
  [itemRow 1 (.integer 2), itemRow 2 (.integer 1), itemRow 3 (.integer 1), itemRow 4 .null,
    itemRow 5 (.integer 5)]

def noFloats : FloatText := ⟨fun _ => "", fun _ => ""⟩

theorem itemRows_spec {row : BackupRow plain} (mem : row ∈ itemRows) :
    ∃ id parent, row = itemRow id parent ∧
      (parent = .null ∨ ∃ other, parent = .integer other ∧ ∃ above, itemRow other above ∈ itemRows) := by
  simp only [itemRows, List.mem_cons, List.not_mem_nil, or_false] at mem
  rcases mem with rfl | rfl | rfl | rfl | rfl
  · exact ⟨1, _, rfl, .inr ⟨2, rfl, .integer 1, by simp [itemRows]⟩⟩
  · exact ⟨2, _, rfl, .inr ⟨1, rfl, .integer 2, by simp [itemRows]⟩⟩
  · exact ⟨3, _, rfl, .inr ⟨1, rfl, .integer 2, by simp [itemRows]⟩⟩
  · exact ⟨4, _, rfl, .inl rfl⟩
  · exact ⟨5, _, rfl, .inr ⟨5, rfl, .integer 5, by simp [itemRows]⟩⟩

theorem items_selfReferencing : SelfReferencing noFloats itemEntity itemRows where
  single := rfl
  columns := by decide
  described := ⟨idColumn, .head _, rfl, rfl⟩
  keyed := by
    intro row mem
    obtain ⟨id, parent, rfl, _⟩ := itemRows_spec mem
    exact ⟨.integer id, nofun, rfl, rfl⟩
  distinct := by decide
  named := by
    intro row mem dependency reference
    obtain rfl := List.mem_singleton.mp (List.mem_filter.mp reference).1
    obtain ⟨id, parent, rfl, named⟩ := itemRows_spec mem
    refine ⟨parent, rfl, named.imp_right ?_⟩
    rintro ⟨other, rfl, above, there⟩
    exact ⟨itemRow other above, there, rfl⟩

theorem items_fit : Fits itemEntity itemRows where
  stored := by
    intro row mem column imported
    obtain ⟨id, parent, rfl, named⟩ := itemRows_spec mem
    have known : column = idColumn ∨ column = parentColumn := by
      simpa [itemEntity] using importColumns_sublist.subset imported
    rcases known with rfl | rfl
    · exact ⟨.int id, rfl⟩
    · rcases named with rfl | ⟨other, rfl, _⟩
      · exact ⟨.intNull, rfl⟩
      · exact ⟨.int other, rfl⟩
  nulls := by
    intro column imported _
    have known : column = idColumn ∨ column = parentColumn := by
      simpa [itemEntity] using importColumns_sublist.subset imported
    rcases known with rfl | rfl <;> exact ⟨.intNull, rfl⟩
  references := by
    intro dependency reference
    obtain rfl := List.mem_singleton.mp (List.mem_filter.mp reference).1
    exact ⟨parentColumn, by decide, rfl⟩

end Items

end GraphqlOrm.RowBackup
