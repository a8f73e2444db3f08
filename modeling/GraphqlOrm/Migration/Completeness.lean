import GraphqlOrm.Migration.Convergence
import GraphqlOrm.Migration.CreateTable

/-!
# What an empty diff says about keys

`CREATE TABLE` declares the ordered primary key and the composite UNIQUE lists
of a table, but the diff reads neither. An empty diff therefore says nothing
about them, and for every target with a table there is a database that the
planner accepts as it is although it lacks a requested key.
-/
namespace GraphqlOrm.Migration

open Schema OrderedMap

def KeysCovered (current target : SchemaModel) : Prop :=
  ∀ table ∈ target.tables, ∃ before ∈ current.tables,
    before.tableName = table.tableName ∧ SameKeys before table

def DetectsKeys (backend : DatabaseBackend) (current target : SchemaModel) : Prop :=
  diffSchemaViews backend current target = [] → KeysCovered current target

/-! ### The fields the diff does not read -/

def withUniques (schema : SchemaModel) (uniques : TableModel → List (List String)) : SchemaModel :=
  { schema with tables := schema.tables.map fun table =>
      { table with compositeUniqueIndexes := uniques table } }

/-- Only the components that `TableAgrees` lists decide it. -/
theorem tableAgrees_uniques {backend : DatabaseBackend} {equivalence : DefaultEquivalence}
    {current target : TableModel} (uniques : List (List String))
    (agrees : TableAgrees backend equivalence current target) :
    TableAgrees backend equivalence { current with compositeUniqueIndexes := uniques } target := by
  obtain ⟨columns, indexes, searches, foreignKeys, appendOnly, retention, checks⟩ := agrees
  exact ⟨columns, indexes, searches, foreignKeys, appendOnly, retention, checks⟩

/-- Changing every composite UNIQUE list leaves the diff empty. -/
theorem diff_withUniques {backend : DatabaseBackend} {target : SchemaModel}
    (accepted : target.validatePhysicalContract = .ok ())
    (uniques : TableModel → List (List String)) :
    diffSchemaViews backend (withUniques target uniques) target = [] := by
  unfold diffSchemaViews
  rw [diff_eq_nil]
  constructor
  · intro extension mem
    exact List.mem_map_of_mem mem
  · intro name
    have changed : (tableMap (withUniques target uniques)).get? name =
        ((tableMap target).get? name).map fun table =>
          { table with compositeUniqueIndexes := uniques table } := by
      apply get?_collectBy_map
      intro table
      rfl
    rw [changed]
    cases wanted : (tableMap target).get? name with
    | none => exact .none
    | some table =>
      have fits : ∀ index ∈ table.indexes, index.directionsFit = true := fun index declared =>
        directionsFit_of_accepted accepted (get?_collectBy_some wanted).1 declared
      exact .some (tableAgrees_uniques _ (tableAgrees_self table fits))

/-! ### When an empty diff can be trusted -/

/-- Constraints that a table does not want: none where it has some, and otherwise one on all of
its columns. -/
def otherUniques (table : TableModel) : List (List String) :=
  if table.compositeUniqueIndexes = [] then [table.columns.map (·.name)] else []

theorem otherUniques_differ (table : TableModel) :
    ¬∀ columns, columns ∈ otherUniques table ↔ columns ∈ table.compositeUniqueIndexes := by
  intro same
  unfold otherUniques at same
  split at same
  next none =>
    -- The current table has a constraint too many.
    have listed := (same _).mp (.head _)
    rw [none] at listed
    cases listed
  next some =>
    -- It lacks those of the target.
    obtain ⟨columns, wanted⟩ := List.exists_mem_of_ne_nil _ some
    cases (same columns).mpr wanted

/-- An accepted target is safe from databases with other keys exactly if it has no table: no part of
a table lets an empty diff prove its keys. -/
theorem detectsKeys_iff {backend : DatabaseBackend} {target : SchemaModel}
    (accepted : target.validatePhysicalContract = .ok ()) :
    (∀ current, DetectsKeys backend current target) ↔ target.tables = [] := by
  constructor
  · intro reliable
    by_contra nonempty
    obtain ⟨table, mem⟩ := List.exists_mem_of_ne_nil _ nonempty
    -- The database agrees with the target in all but the constraints of this name's tables.
    let others (other : TableModel) : List (List String) :=
      if other.tableName = table.tableName then otherUniques table else other.compositeUniqueIndexes
    have silent : diffSchemaViews backend (withUniques target others) target = [] :=
      diff_withUniques accepted others
    obtain ⟨before, stored, named, -, same⟩ := reliable _ silent table mem
    obtain ⟨other, -, rfl⟩ := List.mem_map.mp stored
    -- Whichever table of that name is taken for the current one, it has the other constraints.
    have swapped : others other = otherUniques table := if_pos named
    rw [swapped] at same
    exact otherUniques_differ table same
  · intro empty current _ table mem
    rw [empty] at mem
    cases mem

/-- A database whose members are not unique per team, and the schema that wants
them to be. -/
def membersBefore : SchemaModel where
  tables := [{
    tableName := "members", primaryKey := "id"
    columns := [{ name := "id", sqlType := "TEXT", isPrimaryKey := true },
      { name := "team", sqlType := "TEXT" }, { name := "email", sqlType := "TEXT" }] }]

def membersAfter : SchemaModel where
  tables := membersBefore.tables.map fun table =>
    { table with compositeUniqueIndexes := [["team", "email"]] }

/-- Nothing makes an empty diff prove the keys of `members`. -/
theorem detectsKeys_iff_members : ¬∀ current, DetectsKeys .postgres current membersAfter := by
  rw [detectsKeys_iff rfl]
  exact List.cons_ne_nil _ _

theorem detectsKeys_fails_members : ¬DetectsKeys .postgres membersBefore membersAfter := by
  intro detects
  have covered := detects (by decide)
  obtain ⟨before, stored, _, _, same⟩ := covered _ (.head _)
  have listed := (same ["team", "email"]).mpr (by decide)
  cases List.mem_singleton.mp stored
  cases listed

end GraphqlOrm.Migration
