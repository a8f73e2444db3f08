import GraphqlOrm.Migration.Diff
import GraphqlOrm.Foundation.PostOrder

/-!
# The walk visits every table once

Whatever the foreign keys, cyclic or dangling, the walk lists exactly the tables
of the map, each once: it goes through the post-order of the references between them.
-/
namespace GraphqlOrm.Migration

open Schema

def Named (tables : OrderedMap String TableModel) : Prop :=
  ∀ name table, tables.get? name = some table → table.tableName = name

theorem tableMap_named (schema : SchemaModel) : Named (tableMap schema) :=
  fun _ _ found => (OrderedMap.get?_collectBy_some found).2

/-- The tables of the map and the tables that their foreign keys target. -/
def tableGraph (tables : OrderedMap String TableModel) : PostOrder.Graph String where
  nodes := tables.keys
  nodup := tables.keys_nodup
  targets name := ((tables.get? name).map fun table =>
    table.foreignKeys.map (·.targetTable)).getD []

variable {tables : OrderedMap String TableModel}

/-! ### The walk of the graph -/

/-- The walk of the code where the walk of the graph stands. -/
def Walk.ofGraph (tables : OrderedMap String TableModel) (walk : PostOrder.Walk String) : Walk where
  visiting := walk.visiting
  visited := walk.visited
  ordered := walk.visited.reverse.filterMap tables.get?

theorem visit_ofGraph (fuel : Nat) (walk : PostOrder.Walk String) (name : String) :
    visit tables fuel (.ofGraph tables walk) name =
      .ofGraph tables (PostOrder.visit (tableGraph tables) fuel walk name) := by
  induction fuel generalizing walk name with
  | zero => rfl
  | succ fuel ih =>
    have stored (name : String) : name ∈ (tableGraph tables).nodes ↔
        tables.contains name = true := OrderedMap.mem_keys
    simp only [visit, PostOrder.visit, stored, Walk.ofGraph, List.contains_eq_mem, Bool.or_eq_true,
      decide_eq_true_eq]
    split
    · rfl
    cases found : tables.get? name with
    | none => simp [OrderedMap.contains, found]
    | some table =>
      -- The two loops make the same nested calls.
      have inside := @List.foldl_hom _ _ _ (Walk.ofGraph tables)
        (fun walk (target : String) =>
          if tables.contains target then PostOrder.visit (tableGraph tables) fuel walk target else walk)
        (fun walk target => if tables.contains target then visit tables fuel walk target else walk)
        (table.foreignKeys.map (·.targetTable)) { walk with visiting := name :: walk.visiting }
        fun walk target => by simp only [ih, apply_ite (Walk.ofGraph tables)]
      have targets : (tableGraph tables).targets name = table.foreignKeys.map (·.targetTable) := by
        simp [tableGraph, found]
      simp only [Walk.ofGraph, List.foldl_map] at inside
      simp only [OrderedMap.contains_iff.mpr ⟨table, found⟩, if_true, targets, List.foldl_map, inside]
      simp [found]

/-- The walk of the code is that of the graph. -/
theorem walk_ofGraph (tables : OrderedMap String TableModel) (fuel : Nat) :
    tables.keys.foldl (visit tables fuel) {} =
      .ofGraph tables (tables.keys.foldl (PostOrder.visit (tableGraph tables) fuel) {}) := by
  rw [← List.foldl_hom (Walk.ofGraph tables) (visit_ofGraph fuel)]
  rfl

/-- The tables are listed in post-order. -/
theorem orderTables_eq (tables : OrderedMap String TableModel) :
    orderTablesByForeignKeys tables =
      (PostOrder.order (tableGraph tables)).filterMap tables.get? :=
  congrArg Walk.ordered (walk_ofGraph tables _)

/-- Any fuel above the number of tables gives the same order. -/
theorem orderTables_fuel {fuel : Nat} (enough : tables.keys.length < fuel) :
    (tables.keys.foldl (visit tables fuel) {}).ordered = orderTablesByForeignKeys tables := by
  rw [orderTables_eq, walk_ofGraph, PostOrder.walk_fuel enough]
  rfl

/-! ### The whole walk -/

theorem filterMap_names (named : Named tables) {names : List String}
    (stored : ∀ name ∈ names, tables.contains name = true) :
    (names.filterMap tables.get?).map (·.tableName) = names := by
  induction names with
  | nil => rfl
  | cons name rest ih =>
    obtain ⟨table, found⟩ := OrderedMap.contains_iff.mp (stored name (.head _))
    rw [List.filterMap_cons, found, List.map_cons, named name table found,
      ih fun other mem => stored other (.tail _ mem)]

/-- The walk lists exactly the tables of the map. -/
theorem mem_orderTables (named : Named tables) {table : TableModel} :
    table ∈ orderTablesByForeignKeys tables ↔ tables.get? table.tableName = some table := by
  rw [orderTables_eq, List.mem_filterMap]
  constructor
  · rintro ⟨name, _, found⟩
    rw [named name table found]
    exact found
  · intro found
    refine ⟨table.tableName, PostOrder.mem_order.mpr ?_, found⟩
    exact OrderedMap.mem_keys.mpr (OrderedMap.contains_iff.mpr ⟨table, found⟩)

theorem map_orderTables (named : Named tables) :
    (orderTablesByForeignKeys tables).map (·.tableName) = PostOrder.order (tableGraph tables) := by
  rw [orderTables_eq, filterMap_names named]
  exact fun name mem => OrderedMap.mem_keys.mp (PostOrder.mem_order.mp mem)

/-- The walk lists no table twice. -/
theorem orderTables_nodup (named : Named tables) :
    ((orderTablesByForeignKeys tables).map (·.tableName)).Nodup := by
  rw [map_orderTables named]
  exact PostOrder.order_nodup _

theorem orderTables_perm (tables : OrderedMap String TableModel) :
    (orderTablesByForeignKeys tables).Perm tables.values := by
  have values : tables.keys.filterMap tables.get? = tables.values := by
    unfold OrderedMap.keys OrderedMap.values
    rw [List.filterMap_map, ← List.filterMap_eq_map]
    apply List.filterMap_congr
    rintro ⟨name, table⟩ mem
    exact OrderedMap.mem_entries.mp mem
  rw [orderTables_eq, ← values]
  exact (PostOrder.order_perm (tableGraph tables)).filterMap tables.get?

end GraphqlOrm.Migration
