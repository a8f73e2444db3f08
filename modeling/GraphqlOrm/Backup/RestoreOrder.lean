import GraphqlOrm.Backup.Descriptors
import GraphqlOrm.Foundation.PostOrder

/-!
# Tables are restored after those they reference

The restore ranks are the places of the tables in a post-order of the emitted references. They
depend on the list of entities only through the tables in the backup and through the table that
each reference resolves to.

## Main result

`restoreOrder_follows`: computed orders are distinct, they follow acyclic references, and they stay
the same in a rearranged list in which every reference resolves to the same table.
-/
namespace GraphqlOrm.Backup

open OrderedMap

/-! ### The walk -/

def restoreGraph (tables : OrderedMap String EntityMetadata) (names : OrderedMap String String) :
    PostOrder.Graph String where
  nodes := tables.keys
  nodup := tables.keys_nodup
  targets name := ((tables.get? name).map fun entity =>
    entity.emitted.map (·.targetTable names)).getD []

variable {tables : OrderedMap String EntityMetadata} {names : OrderedMap String String}

/-- The walk of the code where the walk of the graph stands. -/
def RestoreWalk.ofGraph (walk : PostOrder.Walk String) : RestoreWalk where
  visiting := walk.visiting
  visited := walk.visited
  ordered := walk.visited.reverse

theorem visit_ofGraph (fuel : Nat) (walk : PostOrder.Walk String) (name : String) :
    visit tables names fuel (.ofGraph walk) name =
      .ofGraph (PostOrder.visit (restoreGraph tables names) fuel walk name) := by
  induction fuel generalizing walk name with
  | zero => rfl
  | succ fuel ih =>
    have stored (name : String) : name ∈ (restoreGraph tables names).nodes ↔
        tables.contains name = true := mem_keys
    simp only [visit, PostOrder.visit, stored, RestoreWalk.ofGraph, List.contains_eq_mem,
      Bool.or_eq_true, decide_eq_true_eq]
    split
    · rfl
    cases found : tables.get? name with
    | none => simp [contains, found]
    | some entity =>
      -- The two loops make the same nested calls.
      have inside := @List.foldl_hom _ _ _ RestoreWalk.ofGraph
        (fun walk (target : String) => if tables.contains target then
          PostOrder.visit (restoreGraph tables names) fuel walk target else walk)
        (fun walk target => if tables.contains target then visit tables names fuel walk target else walk)
        (entity.emitted.map (·.targetTable names)) { walk with visiting := name :: walk.visiting }
        fun walk target => by simp only [ih, apply_ite RestoreWalk.ofGraph]
      have targets : (restoreGraph tables names).targets name =
          entity.emitted.map (·.targetTable names) := by simp [restoreGraph, found]
      simp only [RestoreWalk.ofGraph, List.foldl_map] at inside
      simp only [contains_iff.mpr ⟨entity, found⟩, if_true, targets, List.foldl_map, inside]
      simp

theorem walk_ordered (tables : OrderedMap String EntityMetadata)
    (names : OrderedMap String String) :
    (tables.keys.foldl (visit tables names (tables.keys.length + 1)) {}).ordered =
      PostOrder.order (restoreGraph tables names) := by
  have whole : tables.keys.foldl (visit tables names (tables.keys.length + 1)) (.ofGraph {}) = _ :=
    List.foldl_hom RestoreWalk.ofGraph (visit_ofGraph _)
  exact congrArg RestoreWalk.ordered whole

/-! ### Ranks -/

def rankOf (entities : List EntityMetadata) (name : String) : Nat :=
  (PostOrder.order (restoreGraph (backupTables entities) (entityTableNames entities))).idxOf name

variable {entities others : List EntityMetadata} {entity other : EntityMetadata}

section

variable (enabled : entity ∈ entities.filter (·.backupEnabled))
include enabled

theorem get?_restoreRanks :
    (restoreRanksFromEntities entities (entityTableNames entities)).get? entity.tableName =
      some (rankOf entities entity.tableName : Int) := by
  have stored : (backupTables entities).contains entity.tableName = true :=
    contains_collectBy.mpr ⟨entity, enabled, rfl⟩
  unfold restoreRanksFromEntities
  simp only [walk_ordered]
  have places (ordered : List String) :
      ordered.zipIdx.foldl (fun (ranks : OrderedMap String Int) e => ranks.insert e.1 e.2) .empty =
        (ordered.zipIdx.map fun e => (e.1, (e.2 : Int))).foldl
          (fun ranks e => ranks.insert e.1 e.2) .empty := by
    rw [List.foldl_map]
  rw [places, get?_foldl_entries, List.mem_map]
  · refine ⟨(entity.tableName, rankOf entities entity.tableName), ?_, rfl⟩
    rw [List.mk_mem_zipIdx_iff_getElem?]
    exact List.getElem?_idxOf (PostOrder.mem_order.mpr (mem_keys.mpr stored))
  · rw [List.map_map]
    have own : (Prod.fst ∘ fun e : String × Nat => (e.1, (e.2 : Int))) = Prod.fst := rfl
    rw [own, List.zipIdx_map_fst]
    exact PostOrder.order_nodup _

theorem rankOf_inj (same : rankOf entities entity.tableName = rankOf entities other.tableName) :
    entity.tableName = other.tableName := by
  have stored : (backupTables entities).contains entity.tableName = true :=
    contains_collectBy.mpr ⟨entity, enabled, rfl⟩
  exact (List.idxOf_inj (PostOrder.mem_order.mpr (mem_keys.mpr stored))).mp same

theorem rankOf_lt_length :
    rankOf entities entity.tableName < entities.length := by
  have stored : (backupTables entities).contains entity.tableName = true :=
    contains_collectBy.mpr ⟨entity, enabled, rfl⟩
  have among : PostOrder.order
      (restoreGraph (backupTables entities) (entityTableNames entities)) ⊆
        entities.map (·.tableName) := by
    intro name mem
    obtain ⟨other, also, rfl⟩ :=
      contains_collectBy.mp (mem_keys.mp (PostOrder.mem_order.mp mem))
    exact List.mem_map_of_mem (List.mem_of_mem_filter also)
  have short := List.Nodup.length_le_of_subset (PostOrder.order_nodup _) among
  rw [List.length_map] at short
  exact Nat.lt_of_lt_of_le
    (List.idxOf_lt_length_of_mem (PostOrder.mem_order.mpr (mem_keys.mpr stored))) short

end

/-! ### References between entities -/

/-- An entity in the backup references another one. -/
structure DependsOn (entities : List EntityMetadata) (entity other : EntityMetadata) : Prop where
  source : entity ∈ entities.filter (·.backupEnabled)
  target : other ∈ entities.filter (·.backupEnabled)
  apart : entity.tableName ≠ other.tableName
  reference : ∃ relation ∈ entity.emitted,
    relation.targetTable (entityTableNames entities) = other.tableName

def Acyclic (entities : List EntityMetadata) : Prop :=
  ∀ entity, ¬Relation.TransGen (DependsOn entities) entity entity

def ResolveAlike (entities others : List EntityMetadata) : Prop :=
  ∀ entity ∈ entities, ∀ relation ∈ entity.emitted,
    relation.targetTable (entityTableNames entities) =
      relation.targetTable (entityTableNames others)

section

variable (distinct : (entities.map (·.tableName)).Nodup)
include distinct

theorem enabled_nodup :
    ((entities.filter (·.backupEnabled)).map (·.tableName)).Nodup :=
  (List.filter_sublist.map _).nodup distinct

theorem get?_backupTables {name : String} :
    (backupTables entities).get? name = some entity ↔
      entity ∈ entities.filter (·.backupEnabled) ∧ entity.tableName = name :=
  get?_collectBy_iff (enabled_nodup distinct)

/-- With distinct tables, a reference of the graph is one of the entities. -/
theorem refers_iff {name target : String} :
    PostOrder.Refers (restoreGraph (backupTables entities) (entityTableNames entities)) name
      target ↔ ∃ entity other, DependsOn entities entity other ∧ entity.tableName = name ∧
        other.tableName = target := by
  constructor
  · rintro ⟨stored, reference, found, apart⟩
    obtain ⟨entity, at_⟩ := contains_iff.mp (mem_keys.mp stored)
    obtain ⟨other, also⟩ := contains_iff.mp (mem_keys.mp found)
    obtain ⟨source, rfl⟩ := (get?_backupTables distinct).mp at_
    obtain ⟨among, rfl⟩ := (get?_backupTables distinct).mp also
    simp only [restoreGraph, at_, Option.map_some, Option.getD_some] at reference
    exact ⟨entity, other, ⟨source, among, apart, List.mem_map.mp reference⟩, rfl, rfl⟩
  · rintro ⟨entity, other, ⟨source, target, apart, reference⟩, rfl, rfl⟩
    have at_ := (get?_backupTables distinct).mpr ⟨source, rfl⟩
    have also := (get?_backupTables distinct).mpr ⟨target, rfl⟩
    refine ⟨mem_keys.mpr (contains_iff.mpr ⟨entity, at_⟩), ?_,
      mem_keys.mpr (contains_iff.mpr ⟨other, also⟩), apart⟩
    simp only [restoreGraph, at_, Option.map_some, Option.getD_some]
    exact List.mem_map.mpr reference

/-- A chain of references between tables is one between their entities. -/
theorem transGen_refers {name target : String}
    (chain : Relation.TransGen (PostOrder.Refers
      (restoreGraph (backupTables entities) (entityTableNames entities))) name target) :
    ∃ entity other, Relation.TransGen (DependsOn entities) entity other ∧
      entity.tableName = name ∧ other.tableName = target := by
  induction chain with
  | single step =>
    obtain ⟨entity, other, depends, rfl, rfl⟩ := (refers_iff distinct).mp step
    exact ⟨entity, other, .single depends, rfl, rfl⟩
  | tail _ step ih =>
    obtain ⟨entity, middle, before, rfl, same⟩ := ih
    obtain ⟨again, other, depends, own, rfl⟩ := (refers_iff distinct).mp step
    have reached : middle ∈ entities.filter (·.backupEnabled) := by
      rcases Relation.TransGen.tail'_iff.mp before with ⟨_, _, last⟩
      exact last.target
    have equal : again = middle := List.inj_on_of_nodup_map (enabled_nodup distinct)
      depends.source reached (own.trans same.symm)
    subst equal
    exact ⟨entity, other, before.tail depends, rfl, rfl⟩

theorem acyclic_graph (acyclic : Acyclic entities) :
    PostOrder.Acyclic (restoreGraph (backupTables entities) (entityTableNames entities)) := by
  intro name chain
  obtain ⟨entity, other, cycle, here, there⟩ := transGen_refers distinct chain
  have first : entity ∈ entities.filter (·.backupEnabled) := by
    rcases Relation.TransGen.head'_iff.mp cycle with ⟨_, step, _⟩
    exact step.source
  have last : other ∈ entities.filter (·.backupEnabled) := by
    rcases Relation.TransGen.tail'_iff.mp cycle with ⟨_, _, step⟩
    exact step.target
  have same : entity = other := List.inj_on_of_nodup_map (enabled_nodup distinct) first last
    (here.trans there.symm)
  subst same
  exact acyclic entity cycle

/-- An entity has a greater rank than all that it depends on. -/
theorem rankOf_lt (acyclic : Acyclic entities)
    (depends : Relation.TransGen (DependsOn entities) entity other) :
    rankOf entities other.tableName < rankOf entities entity.tableName := by
  have direct {entity other : EntityMetadata} (step : DependsOn entities entity other) :
      rankOf entities other.tableName < rankOf entities entity.tableName := by
    have refers := (refers_iff distinct).mpr ⟨entity, other, step, rfl, rfl⟩
    have before := PostOrder.order_before (acyclic_graph distinct acyclic) refers
    exact before.idxOf_lt (PostOrder.order_nodup _)
  induction depends with
  | single step => exact direct step
  | tail _ step ih => exact Nat.lt_trans (direct step) ih

end

/-! ### Rearranged lists -/

theorem collectBy_perm {xs ys : List EntityMetadata} (distinct : (xs.map (·.tableName)).Nodup)
    (perm : xs.Perm ys) :
    collectBy (·.tableName) xs = collectBy (·.tableName) ys := by
  apply eq_of_get?
  intro name
  apply Option.ext
  intro entity
  rw [get?_collectBy_iff distinct,
    get?_collectBy_iff ((perm.map (·.tableName)).nodup_iff.mp distinct), perm.mem_iff]

section

variable (distinct : (entities.map (·.tableName)).Nodup) (perm : entities.Perm others)
    (alike : ResolveAlike entities others)
include distinct perm alike

theorem restoreGraph_alike :
    restoreGraph (backupTables entities) (entityTableNames entities) =
      restoreGraph (backupTables others) (entityTableNames others) := by
  have tables : backupTables entities = backupTables others :=
    collectBy_perm (enabled_nodup distinct) (perm.filter _)
  rw [← tables]
  unfold restoreGraph
  congr
  funext name
  cases found : (backupTables entities).get? name with
  | none => rfl
  | some entity =>
    have among := List.mem_of_mem_filter ((get?_backupTables distinct).mp found).1
    simp only [Option.map_some, Option.getD_some]
    exact List.map_congr_left fun relation emitted => alike entity among relation emitted

theorem restoreRanks_alike :
    restoreRanksFromEntities entities (entityTableNames entities) =
      restoreRanksFromEntities others (entityTableNames others) := by
  unfold restoreRanksFromEntities
  simp only [walk_ordered, restoreGraph_alike distinct perm alike]

/-- A rearranged list in which the references resolve alike has the same descriptors. -/
theorem descriptors_perm :
    (backupDescriptorsFromEntities entities).Perm (backupDescriptorsFromEntities others) := by
  unfold backupDescriptorsFromEntities
  simp only [← restoreRanks_alike distinct perm alike, ← collectBy_perm distinct perm]
  have same : (entities.filter (·.backupEnabled)).map (·.descriptor (entityTableNames entities)
        (collectBy (·.tableName) entities)
        (restoreRanksFromEntities entities (entityTableNames entities))) =
      (entities.filter (·.backupEnabled)).map (·.descriptor (entityTableNames others)
        (collectBy (·.tableName) entities)
        (restoreRanksFromEntities entities (entityTableNames entities))) := by
    apply List.map_congr_left
    intro entity enabled
    have dependencies :
        entity.emitted.map (entity.dependency (entityTableNames entities)
          (collectBy (·.tableName) entities)) =
        entity.emitted.map (entity.dependency (entityTableNames others)
          (collectBy (·.tableName) entities)) := by
      apply List.map_congr_left
      intro relation emitted
      unfold EntityMetadata.dependency
      rw [alike entity (List.mem_of_mem_filter enabled) relation emitted]
    simp only [EntityMetadata.descriptor, dependencies]
  rw [same]
  exact (perm.filter _).map _

end

/-! ### Computed orders -/

theorem restoreOrder_eq (computed : ∀ entity ∈ entities, entity.backupRestoreOrder = none)
    {descriptor : EntityBackupDescriptor}
    (mem : descriptor ∈ backupDescriptorsFromEntities entities) :
    ∃ entity ∈ entities.filter (·.backupEnabled), descriptor.tableName = entity.tableName ∧
      descriptor.restoreOrder = rankOf entities entity.tableName * 10 := by
  obtain ⟨entity, enabled, rfl⟩ := List.mem_map.mp mem
  refine ⟨entity, enabled, rfl, ?_⟩
  simp only [EntityMetadata.descriptor, computed entity (List.mem_of_mem_filter enabled),
    get?_restoreRanks enabled, Option.getD_none, Option.getD_some]

/-- Where no entity states a restore order, the tables with distinct names are restored after all
that they depend on, at distinct places that do not depend on the order of the list. Up to 214748364
entities have places within an `i32`. -/
theorem restoreOrder_follows (entities : List EntityMetadata)
    (distinct : (entities.map (·.tableName)).Nodup)
    (computed : ∀ entity ∈ entities, entity.backupRestoreOrder = none)
    (acyclic : Acyclic entities) :
    (backupDescriptorsFromEntities entities).map (·.tableName) =
        (entities.filter (·.backupEnabled)).map (·.tableName) ∧
      (∀ entity other, Relation.TransGen (DependsOn entities) entity other →
        ∀ first ∈ backupDescriptorsFromEntities entities,
        ∀ second ∈ backupDescriptorsFromEntities entities,
          first.tableName = entity.tableName → second.tableName = other.tableName →
          second.restoreOrder < first.restoreOrder) ∧
      ((backupDescriptorsFromEntities entities).map (·.restoreOrder)).Nodup ∧
      (∀ descriptor ∈ backupDescriptorsFromEntities entities,
        0 ≤ descriptor.restoreOrder ∧ descriptor.restoreOrder < 10 * entities.length) ∧
      ∀ others, entities.Perm others → ResolveAlike entities others →
        (backupDescriptorsFromEntities entities).Perm (backupDescriptorsFromEntities others) := by
  have tables : (backupDescriptorsFromEntities entities).map (·.tableName) =
      (entities.filter (·.backupEnabled)).map (·.tableName) := by
    unfold backupDescriptorsFromEntities
    rw [List.map_map]
    rfl
  refine ⟨tables, ?_, ?_, ?_, fun others => descriptors_perm distinct⟩
  · intro entity other depends first mem second mem' here there
    obtain ⟨_, _, own, order⟩ := restoreOrder_eq computed mem
    obtain ⟨_, _, own', order'⟩ := restoreOrder_eq computed mem'
    have less := rankOf_lt distinct acyclic depends
    rw [← own, here] at order
    rw [← own', there] at order'
    omega
  · -- Equal orders are equal ranks, and a rank belongs to one table.
    have single : ((backupDescriptorsFromEntities entities).map (·.tableName)).Nodup := by
      rw [tables]
      exact enabled_nodup distinct
    apply List.Nodup.map_on _ single.of_map
    intro first mem second mem' same
    obtain ⟨entity, enabled, own, order⟩ := restoreOrder_eq computed mem
    obtain ⟨other, _, own', order'⟩ := restoreOrder_eq computed mem'
    have ranks : rankOf entities entity.tableName = rankOf entities other.tableName := by omega
    have rank := rankOf_inj enabled ranks
    exact List.inj_on_of_nodup_map single mem mem' (by rw [own, own', rank])
  · intro descriptor mem
    obtain ⟨entity, enabled, -, order⟩ := restoreOrder_eq computed mem
    have short := rankOf_lt_length enabled
    omega

/-! ### Entities that share a name -/

/-- References that all lead to entities of a smaller measure form no cycle. -/
theorem acyclic_of_measure (measure : EntityMetadata → Nat)
    (less : ∀ entity other, DependsOn entities entity other → measure other < measure entity) :
    Acyclic entities := by
  intro entity cycle
  have smaller {first last : EntityMetadata}
      (chain : Relation.TransGen (DependsOn entities) first last) :
      measure last < measure first := by
    induction chain with
    | single step => exact less _ _ step
    | tail _ step ih => exact Nat.lt_trans (less _ _ step) ih
  exact Nat.lt_irrefl _ (smaller cycle)

/-- An order, and the two generations of its customers under one entity name. -/
def ordersEntity : EntityMetadata :=
  { entityName := "Order", tableName := "orders", primaryKey := "id", primaryKeys := ["id"]
    fields := [{ name := "customer_id", rustName := "customer_id", logicalType := .uuid }]
    relations := [{ targetType := "Customer", sourceColumn := "customer_id", targetColumn := "id" },
      { targetType := "Order", sourceColumn := "parent_id", targetColumn := "id" }] }

def customersEntity (tableName : String) : EntityMetadata :=
  { entityName := "Customer", tableName, primaryKey := "id", primaryKeys := ["id"] }

theorem ordersEntity_acyclic {entities : List EntityMetadata}
    (among : ∀ entity ∈ entities, entity = ordersEntity ∨ entity.relations = []) :
    Acyclic entities := by
  apply acyclic_of_measure (·.relations.length)
  rintro entity other ⟨source, target, apart, relation, emitted, _⟩
  rcases among entity (List.mem_of_mem_filter source) with rfl | silent
  · rcases among other (List.mem_of_mem_filter target) with rfl | silent
    · exact absurd rfl apart
    · rw [silent]
      exact Nat.succ_pos _
  · have mem := List.mem_of_mem_filter emitted
    rw [silent] at mem
    cases mem

/-- An order refers to itself and to its customer, who is restored first. -/
theorem restoreOrder_follows_orders :
    ((backupDescriptorsFromEntities [ordersEntity, customersEntity "people"]).map
      (·.restoreOrder)).Nodup := by
  refine (restoreOrder_follows [ordersEntity, customersEntity "people"] (by decide) (by decide)
    (ordersEntity_acyclic ?_)).2.2.1
  simp [customersEntity]

/-- Of two entities with one name the last one is referenced, so the order depends on the list. -/
theorem restoreOrder_by_position :
    ¬∀ entities others : List EntityMetadata, (entities.map (·.tableName)).Nodup →
      (∀ entity ∈ entities, entity.backupRestoreOrder = none) → Acyclic entities →
      Acyclic others → entities.Perm others →
      ∀ first ∈ backupDescriptorsFromEntities entities,
      ∀ second ∈ backupDescriptorsFromEntities others,
        first.tableName = second.tableName → first.restoreOrder = second.restoreOrder := by
  intro fixed
  have same := fixed
    [ordersEntity, customersEntity "people", customersEntity "users"]
    [ordersEntity, customersEntity "users", customersEntity "people"]
    (by decide) (by decide)
    (ordersEntity_acyclic (by simp [customersEntity]))
    (ordersEntity_acyclic (by simp [customersEntity])) (.cons _ (.swap _ _ _))
  revert same
  decide

end GraphqlOrm.Backup
