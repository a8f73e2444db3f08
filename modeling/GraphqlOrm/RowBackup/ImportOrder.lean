import GraphqlOrm.Foundation.ReadyOrder
import GraphqlOrm.RowBackup.Values
import Mathlib.Data.List.Sort
import Mathlib.Data.List.FinRange

/-!
# The order in which the rows of a table are imported

A row that refers to another row of its table is inserted after it. Rows on a cycle of references,
and the rows that refer to those, cannot be ordered this way and come last.

## Main results

- `importRowOrder_sound`: with references that name rows of the list, each row comes after the other
  rows that it refers to, and the deferred rows are those that lead to a cycle.
-/
namespace GraphqlOrm.RowBackup

open Backup (EntityBackupDescriptor EntityDependencyDescriptor)
open Decimals Outcome

variable {δ : Type} {rust : DecimalLibrary δ}

structure ImportRowOrder {δ : Type} (rust : DecimalLibrary δ) where
  ordered : List (BackupRow rust)
  deferred : List (BackupRow rust)
  selfColumns : List String

def selfDependencies (entity : EntityBackupDescriptor) : List EntityDependencyDescriptor :=
  entity.dependencies.filter fun dependency =>
    entity.primaryKeyColumns.isEmpty && dependency.tableName == entity.tableName &&
      dependency.targetColumn == entity.primaryKeyColumn &&
      dependency.sourceColumn != entity.primaryKeyColumn

def rowIndexes (rows : List (BackupRow rust)) : OrderedMap String (Fin rows.length) :=
  OrderedMap.collectBy (fun index => (rows.get index).primaryKey) (List.finRange rows.length)

section Order

variable (floats : FloatText) (entity : EntityBackupDescriptor) (rows : List (BackupRow rust))

def parentIndex (row : BackupRow rust) (dependency : EntityDependencyDescriptor) :
    Except ImportError (Option (Fin rows.length)) :=
  match row.values.get? dependency.sourceColumn with
  | none =>
    .error (.missingSelfReference row.primaryKey entity.tableName dependency.sourceColumn)
  | some .null => .ok none
  | some value =>
    match (rowIndexes rows).get? (value.primaryKeyString floats) with
    | none =>
      .error (.missingRow row.primaryKey entity.tableName (value.primaryKeyString floats)
        dependency.sourceColumn)
    | some index => .ok (some index)

def parentIndexes (child : Fin rows.length) : Except ImportError (List (Fin rows.length)) := do
  let named ← (selfDependencies entity).mapM (parentIndex floats entity rows (rows.get child))
  return ((named.filterMap id).filter (· ≠ child)).dedup.insertionSort (· ≤ ·)

def importEdges : Except ImportError (List (Fin rows.length × Fin rows.length)) := do
  let parents ← (List.finRange rows.length).mapM fun child =>
    (parentIndexes floats entity rows child).map (·.map (·, child))
  return parents.flatten

def importRowOrder : Except ImportError (ImportRowOrder rust) :=
  if selfDependencies entity = [] ∨ rows.length < 2 then
    .ok { ordered := rows, deferred := [], selfColumns := [] }
  else do
    let edges ← importEdges floats entity rows
    -- The smallest of the ready indices comes first.
    let order ← okOr .arithmetic
      (ReadyOrder.order? (List.orderedInsert (· ≤ ·)) (List.finRange rows.length) edges)
    return {
      ordered := order.map rows.get
      deferred := ((List.finRange rows.length).filter (· ∉ order)).map rows.get
      selfColumns := (((selfDependencies entity).map (·.sourceColumn)).insertionSort (· ≤ ·)).dedup }

end Order

/-! ### References between rows -/

section References

variable (floats : FloatText) (entity : EntityBackupDescriptor) (rows : List (BackupRow rust))

def Refers (child parent : BackupRow rust) : Prop :=
  child ∈ rows ∧ parent ∈ rows ∧ child.primaryKey ≠ parent.primaryKey ∧
    ∃ dependency ∈ selfDependencies entity, ∃ value ≠ BackupValue.null,
      child.values.get? dependency.sourceColumn = some value ∧
        parent.values.get? entity.primaryKeyColumn = some value

def LeadsToCycle (row : BackupRow rust) : Prop :=
  ∃ other, Relation.ReflTransGen (Refers entity rows) row other ∧
    Relation.TransGen (Refers entity rows) other other

/-- Rows of a table with a key of one column, which differs from row to row. Each reference is null
or names a row of the list. -/
structure SelfReferencing : Prop where
  single : entity.primaryKeyColumns = []
  columns : (entity.columns.map (·.columnName)).Nodup
  described : ∃ column ∈ entity.columns, column.columnName = entity.primaryKeyColumn ∧
    column.isPrimaryKey = true
  keyed : ∀ row ∈ rows, ∃ value ≠ BackupValue.null,
    row.values.get? entity.primaryKeyColumn = some value ∧
      value.primaryKeyString floats = row.primaryKey
  distinct : (rows.map (·.primaryKey)).Nodup
  named : ∀ row ∈ rows, ∀ dependency ∈ selfDependencies entity,
    ∃ value, row.values.get? dependency.sourceColumn = some value ∧
      (value = .null ∨ ∃ parent ∈ rows, parent.values.get? entity.primaryKeyColumn = some value)

/-- What the order is for. The columns matter only where rows are deferred. -/
structure ImportRowOrder.Sound (order : ImportRowOrder rust) : Prop where
  complete : (order.ordered ++ order.deferred).Perm rows
  after : ∀ child ∈ order.ordered, ∀ parent, Refers entity rows child parent →
    Before order.ordered parent child
  deferred : ∀ row, row ∈ order.deferred ↔ row ∈ rows ∧ LeadsToCycle entity rows row
  selfColumns : order.deferred ≠ [] → ∀ name, name ∈ order.selfColumns ↔
    ∃ dependency ∈ selfDependencies entity, dependency.sourceColumn = name

end References

variable {floats : FloatText} {entity : EntityBackupDescriptor} {rows : List (BackupRow rust)}

theorem rowIndexes_get? (distinct : (rows.map (·.primaryKey)).Nodup) {key : String}
    {index : Fin rows.length} :
    (rowIndexes rows).get? key = some index ↔ (rows.get index).primaryKey = key := by
  have all : (List.finRange rows.length).map (fun i => (rows.get i).primaryKey) =
      rows.map (·.primaryKey) := by
    conv_rhs => rw [← List.map_get_finRange rows, List.map_map]
    rfl
  have unique := all ▸ distinct
  unfold rowIndexes
  rw [OrderedMap.get?_collectBy_iff unique]
  exact and_iff_right (List.mem_finRange index)

theorem mem_selfDependencies {dependency : EntityDependencyDescriptor} :
    dependency ∈ selfDependencies entity ↔ dependency ∈ entity.dependencies ∧
      entity.primaryKeyColumns = [] ∧ dependency.tableName = entity.tableName ∧
      dependency.targetColumn = entity.primaryKeyColumn ∧
      dependency.sourceColumn ≠ entity.primaryKeyColumn := by
  unfold selfDependencies
  rw [List.mem_filter]
  simp [and_assoc]

section Lawful

variable (good : SelfReferencing floats entity rows)

include good

/-- A key identifies the row. -/
theorem SelfReferencing.eq_of_key {x y : BackupRow rust} (left : x ∈ rows) (right : y ∈ rows)
    (same : x.primaryKey = y.primaryKey) : x = y :=
  List.inj_on_of_nodup_map good.distinct left right same

theorem SelfReferencing.get_injective : Function.Injective rows.get := by
  have single : rows.Nodup := good.distinct.of_map
  exact List.nodup_iff_injective_get.mp single

/-- What a reference of a row names: nothing when it is null, else the row with that key. -/
theorem parentIndex_spec {child : Fin rows.length} {dependency : EntityDependencyDescriptor}
    (mem : dependency ∈ selfDependencies entity) :
    ∃ parent, parentIndex floats entity rows (rows.get child) dependency = .ok parent ∧
      ∀ index, parent = some index ↔ ∃ value ≠ BackupValue.null,
        (rows.get child).values.get? dependency.sourceColumn = some value ∧
          (rows.get index).values.get? entity.primaryKeyColumn = some value := by
  obtain ⟨value, stored, reference⟩ := good.named _ (List.get_mem rows child) dependency mem
  by_cases none : value = .null
  · subst none
    refine ⟨none, ?_, fun index => iff_of_false nofun ?_⟩
    · unfold parentIndex
      rw [stored]
    · rintro ⟨other, nonnull, same, _⟩
      exact nonnull (Option.some.inj (same.symm.trans stored))
  obtain ⟨parent, inside, own⟩ := reference.resolve_left none
  obtain ⟨index, rfl⟩ := List.get_of_mem inside
  obtain ⟨key, _, found, written⟩ := good.keyed _ inside
  obtain rfl : key = value := Option.some.inj (found.symm.trans own)
  have indexed : (rowIndexes rows).get? (key.primaryKeyString floats) = some index :=
    (rowIndexes_get? good.distinct).mpr written.symm
  refine ⟨some index, ?_, fun other => ?_⟩
  · unfold parentIndex
    rw [stored]
    cases key with
    | null => exact absurd rfl none
    | _ => simp only [indexed]
  · constructor
    · rintro ⟨⟩
      exact ⟨key, none, stored, own⟩
    · rintro ⟨value, _, same, there⟩
      obtain rfl : key = value := Option.some.inj (stored.symm.trans same)
      obtain ⟨key', _, found', written'⟩ := good.keyed _ (List.get_mem rows other)
      obtain rfl : key' = key := Option.some.inj (found'.symm.trans there)
      have here := (rowIndexes_get? good.distinct).mpr written'.symm
      exact indexed.symm.trans here

theorem refers_get {child parent : Fin rows.length} :
    Refers entity rows (rows.get child) (rows.get parent) ↔ parent ≠ child ∧
      ∃ dependency ∈ selfDependencies entity, ∃ value ≠ BackupValue.null,
        (rows.get child).values.get? dependency.sourceColumn = some value ∧
          (rows.get parent).values.get? entity.primaryKeyColumn = some value := by
  unfold Refers
  have inside (i : Fin rows.length) : rows.get i ∈ rows := List.get_mem rows i
  have apart : (rows.get child).primaryKey ≠ (rows.get parent).primaryKey ↔ parent ≠ child := by
    constructor
    · rintro differ rfl
      exact differ rfl
    · intro differ same
      have here := good.eq_of_key (inside child) (inside parent) same
      exact differ (good.get_injective here).symm
  rw [and_iff_right (inside child), and_iff_right (inside parent), apart]

theorem parentIndexes_spec (child : Fin rows.length) :
    ∃ parents, parentIndexes floats entity rows child = .ok parents ∧ parents.Nodup ∧
      ∀ parent, parent ∈ parents ↔ Refers entity rows (rows.get child) (rows.get parent) := by
  have all : ∀ dependency ∈ selfDependencies entity,
      Succeeds (parentIndex floats entity rows (rows.get child) dependency) := by
    intro dependency mem
    obtain ⟨parent, found, _⟩ := parentIndex_spec good mem
    exact ⟨parent, found⟩
  obtain ⟨named, mapped⟩ := succeeds_mapM all
  refine ⟨((named.filterMap id).filter (· ≠ child)).dedup.insertionSort (· ≤ ·), ?_, ?_, ?_⟩
  · unfold parentIndexes
    rw [mapped]
    rfl
  · exact (List.perm_insertionSort _ _).nodup_iff.mpr (List.nodup_dedup _)
  · intro parent
    rw [refers_get good, (List.perm_insertionSort _ _).mem_iff, List.mem_dedup, List.mem_filter,
      List.mem_filterMap, decide_eq_true_eq, and_comm]
    apply and_congr_right'
    have paired := forall₂_of_mapM mapped
    constructor
    · rintro ⟨found, mem, rfl⟩
      obtain ⟨dependency, inside, made⟩ := exists_of_mem_right paired mem
      obtain ⟨_, made', own⟩ := parentIndex_spec good inside
      cases made.symm.trans made'
      exact ⟨dependency, inside, (own parent).mp rfl⟩
    · rintro ⟨dependency, inside, reference⟩
      obtain ⟨found, made, own⟩ := parentIndex_spec good inside
      obtain ⟨found', mem, made'⟩ := exists_of_mem_left paired inside
      cases made.symm.trans made'
      exact ⟨found, mem, (own parent).mpr reference⟩

theorem importEdges_spec : ∃ edges, importEdges floats entity rows = .ok edges ∧ edges.Nodup ∧
    ∀ parent child, (parent, child) ∈ edges ↔
      Refers entity rows (rows.get child) (rows.get parent) := by
  choose parents made single named using parentIndexes_spec good
  refine ⟨(List.finRange rows.length).flatMap fun child => (parents child).map (·, child), ?_, ?_,
    ?_⟩
  · have mapped : (List.finRange rows.length).mapM (fun child =>
          (parentIndexes floats entity rows child).map (·.map (·, child))) =
        .ok ((List.finRange rows.length).map fun child => (parents child).map (·, child)) := by
      apply mapM_ok
      intro child _
      rw [made child]
      rfl
    unfold importEdges
    rw [mapped]
    rfl
  · rw [List.nodup_flatMap]
    refine ⟨fun child _ => (single child).map fun x y same => (Prod.ext_iff.mp same).1, ?_⟩
    apply (List.nodup_finRange rows.length).imp
    intro x y differ pair left right
    obtain ⟨_, _, rfl⟩ := List.mem_map.mp left
    obtain ⟨_, _, same⟩ := List.mem_map.mp right
    exact differ (Prod.ext_iff.mp same).2.symm
  · intro parent child
    rw [List.mem_flatMap, ← named child parent]
    constructor
    · rintro ⟨other, _, inside⟩
      obtain ⟨_, mem, same⟩ := List.mem_map.mp inside
      obtain ⟨rfl, rfl⟩ := Prod.ext_iff.mp same
      exact mem
    · intro mem
      exact ⟨child, List.mem_finRange child, List.mem_map.mpr ⟨parent, mem, rfl⟩⟩

/-! ### The ready queue -/

omit good in
/-- A chain of references is a chain of indices. -/
theorem exists_indices {child parent : BackupRow rust}
    (chain : Relation.TransGen (Refers entity rows) child parent) :
    ∃ i j, rows.get i = child ∧ rows.get j = parent ∧
      Relation.TransGen (fun x y => Refers entity rows (rows.get x) (rows.get y)) i j := by
  induction chain with
  | single refers =>
    obtain ⟨i, rfl⟩ := List.get_of_mem refers.1
    obtain ⟨j, rfl⟩ := List.get_of_mem refers.2.1
    exact ⟨i, j, rfl, rfl, .single refers⟩
  | tail _ refers ih =>
    obtain ⟨i, j, first, rfl, chain⟩ := ih
    obtain ⟨k, rfl⟩ := List.get_of_mem refers.2.1
    exact ⟨i, k, first, rfl, chain.tail refers⟩

theorem leadsToCycle_get {i : Fin rows.length} : LeadsToCycle entity rows (rows.get i) ↔
    ∃ j, Relation.TransGen (fun x y => Refers entity rows (rows.get y) (rows.get x)) j j ∧
      Relation.ReflTransGen (fun x y => Refers entity rows (rows.get y) (rows.get x)) j i := by
  -- The queue follows the references backwards.
  have turned {x y : Fin rows.length} :
      Relation.TransGen (fun x y => Refers entity rows (rows.get y) (rows.get x)) y x ↔
        Relation.TransGen (fun x y => Refers entity rows (rows.get x) (rows.get y)) x y :=
    Relation.transGen_swap
  have exact {x y : Fin rows.length} :
      Relation.TransGen (Refers entity rows) (rows.get x) (rows.get y) ↔
        Relation.TransGen (fun x y => Refers entity rows (rows.get x) (rows.get y)) x y := by
    constructor
    · intro chain
      obtain ⟨i, j, first, last, indexed⟩ := exists_indices chain
      rwa [good.get_injective first, good.get_injective last] at indexed
    · intro chain
      exact chain.lift rows.get fun _ _ refers => refers
  unfold LeadsToCycle
  constructor
  · rintro ⟨other, leads, cycle⟩
    obtain ⟨j, _, rfl, _, _⟩ := exists_indices cycle
    refine ⟨j, turned.mpr (exact.mp cycle), ?_⟩
    rw [Relation.reflTransGen_iff_eq_or_transGen] at leads ⊢
    rcases leads with same | chain
    · exact .inl (good.get_injective same).symm
    · exact .inr (turned.mpr (exact.mp chain))
  · rintro ⟨j, cycle, leads⟩
    refine ⟨rows.get j, ?_, exact.mpr (turned.mp cycle)⟩
    rw [Relation.reflTransGen_iff_eq_or_transGen] at leads ⊢
    rcases leads with rfl | chain
    · exact .inl rfl
    · exact .inr (exact.mpr (turned.mp chain))

/-- The order of the queue, split into the rows that it gives out and the others. -/
theorem sound_of_queue {edges : List (Fin rows.length × Fin rows.length)} (simple : edges.Nodup)
    (named : ∀ parent child, (parent, child) ∈ edges ↔
      Refers entity rows (rows.get child) (rows.get parent)) {selfColumns : List String}
    (columns : ∀ name, name ∈ selfColumns ↔
      ∃ dependency ∈ selfDependencies entity, dependency.sourceColumn = name) :
    ∃ order, ReadyOrder.order? (List.orderedInsert (· ≤ ·)) (List.finRange rows.length) edges =
        some order ∧ ImportRowOrder.Sound entity rows {
          ordered := order.map rows.get
          deferred := ((List.finRange rows.length).filter (· ∉ order)).map rows.get
          selfColumns } := by
  have lawful : ReadyOrder.Lawful (List.orderedInsert (· ≤ ·)) (List.finRange rows.length) edges :=
    { nodup := List.nodup_finRange rows.length
      simple
      inside := fun e _ => ⟨List.mem_finRange e.1, List.mem_finRange e.2⟩
      keeps := fun node ready => List.perm_orderedInsert (· ≤ ·) node ready }
  refine ⟨_, ReadyOrder.order?_eq lawful, ?_, ?_, ?_, fun _ => columns⟩
  · have all : (ReadyOrder.order (List.orderedInsert (· ≤ ·)) (List.finRange rows.length) edges ++
        (List.finRange rows.length).filter (· ∉ ReadyOrder.order (List.orderedInsert (· ≤ ·))
          (List.finRange rows.length) edges)).Perm (List.finRange rows.length) := by
      rw [List.perm_ext_iff_of_nodup _ (List.nodup_finRange _)]
      · intro i
        have inside := List.mem_finRange i
        rw [List.mem_append, List.mem_filter, decide_eq_true_eq]
        tauto
      · refine List.nodup_append.mpr
          ⟨ReadyOrder.order_nodup lawful, (List.nodup_finRange _).filter _, ?_⟩
        rintro x left y right rfl
        exact absurd left (by simpa using (List.mem_filter.mp right).2)
    have mapped := all.map rows.get
    rwa [List.map_append, List.map_get_finRange] at mapped
  · intro child mem parent refers
    obtain ⟨c, placed, rfl⟩ := List.mem_map.mp mem
    obtain ⟨p, rfl⟩ := List.get_of_mem refers.2.1
    have before := ReadyOrder.order_before lawful ((named p c).mpr refers) placed
    exact Before.map_iff.mpr ⟨p, c, before, rfl, rfl⟩
  · have same : (fun x y => (x, y) ∈ edges) =
        fun x y => Refers entity rows (rows.get y) (rows.get x) := by
      funext x y
      exact propext (named x y)
    have left (i : Fin rows.length) : i ∈ (List.finRange rows.length).filter (· ∉ ReadyOrder.order
        (List.orderedInsert (· ≤ ·)) (List.finRange rows.length) edges) ↔
          LeadsToCycle entity rows (rows.get i) := by
      have inside := List.mem_finRange i
      rw [leadsToCycle_get good, List.mem_filter, decide_eq_true_eq, ReadyOrder.mem_order_iff lawful,
        same, and_iff_right inside, and_iff_right inside, not_not]
    intro row
    constructor
    · intro mem
      obtain ⟨i, deferred, rfl⟩ := List.mem_map.mp mem
      exact ⟨List.get_mem rows i, (left i).mp deferred⟩
    · rintro ⟨mem, leads⟩
      obtain ⟨i, rfl⟩ := List.get_of_mem mem
      exact List.mem_map.mpr ⟨i, (left i).mpr leads, rfl⟩

omit good in
/-- Where the rows are not ordered, no row refers to another one. -/
theorem not_refers (trivial : selfDependencies entity = [] ∨ rows.length < 2)
    {child parent : BackupRow rust} : ¬Refers entity rows child parent := by
  rintro ⟨here, there, differ, dependency, mem, _⟩
  rcases trivial with none | short
  · rw [none] at mem
    cases mem
  · match rows, short with
    | [], _ => cases here
    | [row], _ =>
      rw [List.mem_singleton] at here there
      exact differ (by rw [here, there])

/-- No counter falls below zero, and the loop ends. -/
theorem importRowOrder_sound :
    ∃ order, importRowOrder floats entity rows = .ok order ∧ order.Sound entity rows := by
  unfold importRowOrder
  split
  next trivial =>
    refine ⟨_, rfl, ?_, ?_, ?_, fun some => absurd rfl some⟩
    · rw [List.append_nil]
    · intro child _ parent refers
      exact absurd refers (not_refers trivial)
    · intro row
      refine iff_of_false List.not_mem_nil ?_
      rintro ⟨_, other, _, cycle⟩
      obtain ⟨_, refers, _⟩ := Relation.TransGen.head'_iff.mp cycle
      exact not_refers trivial refers
  next =>
    obtain ⟨edges, made, simple, named⟩ := importEdges_spec good
    have columns (name : String) :
        name ∈ (((selfDependencies entity).map (·.sourceColumn)).insertionSort (· ≤ ·)).dedup ↔
          ∃ dependency ∈ selfDependencies entity, dependency.sourceColumn = name := by
      rw [List.mem_dedup, (List.perm_insertionSort _ _).mem_iff, List.mem_map]
    obtain ⟨order, queued, sound⟩ := sound_of_queue good simple named columns
    refine ⟨_, ?_, sound⟩
    rw [made]
    dsimp only [bind, Except.bind]
    rw [queued]
    rfl

end Lawful

end GraphqlOrm.RowBackup
