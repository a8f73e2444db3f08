import GraphqlOrm.Runtime.PhysicalSchema

/-!
# Names of generated indexes

A filterable field, and the key of a relation on the side that holds many rows, ask for an index.
The names of the indexes are joined from sanitized parts, so that two requests can meet in one name,
within a table and across tables, and a column of a longer primary key counts as indexed.

## Main result

`wellIndexed_iff`: the indexes of a physical schema are complete and uniquely named exactly when
the schema asks for no lone member of a longer key and its planned names are apart.
-/
namespace GraphqlOrm.Runtime

open Outcome
open Schema (ColumnModel TableModel SchemaModel IndexModel)
open Migration (addOwnedGeneratedIndex generatedIndexName Served InPrimaryKey Open Apart opened)

/-! ### What the schema asks for -/

def RuntimeSchema.requestsFor (schema : RuntimeSchema) (collection : RuntimeCollection) :
    List (List String) :=
  ownRequests collection ++
    ((relationRequests schema).filter (·.1 = collection.physicalTable)).map (·.2)

namespace RuntimeCollection

/-- The columns are those of a key, of a unique field or group, or of a declared index. -/
def Serves (collection : RuntimeCollection) (columns : List String) : Prop :=
  collection.primaryKey.map collection.columnName = columns ∨
    (∃ field ∈ collection.fields, columns = [field.physicalColumn] ∧ field.unique = true) ∨
    (∃ group ∈ collection.compositeUnique, group.map collection.columnName = columns) ∨
    ∃ index ∈ collection.indexes, index.fields.map collection.columnName = columns

def KeyMember (collection : RuntimeCollection) (columns : List String) : Prop :=
  ∃ field ∈ collection.fields, columns = [field.physicalColumn] ∧ field.id ∈ collection.primaryKey

instance (collection : RuntimeCollection) (columns : List String) :
    Decidable (collection.Serves columns) := inferInstanceAs (Decidable (_ ∨ _))

instance (collection : RuntimeCollection) (columns : List String) :
    Decidable (collection.KeyMember columns) :=
  inferInstanceAs (Decidable (∃ field ∈ collection.fields, _))

end RuntimeCollection

namespace RuntimeSchema

def wanted (schema : RuntimeSchema) (collection : RuntimeCollection) : List (List String) :=
  ((schema.requestsFor collection).filter fun columns =>
    columns ≠ [] ∧ ¬collection.Serves columns ∧ ¬collection.KeyMember columns).dedup

/-- The declared index names, and the generated ones of the wanted lists. -/
def collectionNames (schema : RuntimeSchema) (collection : RuntimeCollection) : List String :=
  collection.indexes.map (·.name) ++
    (schema.wanted collection).map (generatedIndexName collection.physicalTable)

def joinName (schema : RuntimeSchema) (declaration : JoinDeclaration) : Option String :=
  (schema.collection? declaration.relation.target).map fun target =>
    generatedIndexName declaration.table.physicalTable
      ((joinSide declaration.table.target target).map (·.1))

def plannedIndexNames (schema : RuntimeSchema) : List String :=
  schema.collections.flatMap schema.collectionNames ++
    (firstDeclarations [] (joinDeclarations schema)).filterMap schema.joinName

/-- No lone member of a longer key is asked for, and the planned names are apart from each other and
from the names of the tables. -/
structure IndexNamesApart (schema : RuntimeSchema) : Prop where
  members : ∀ collection ∈ schema.collections, ∀ columns ∈ schema.requestsFor collection,
    collection.KeyMember columns → collection.Serves columns
  distinct : schema.plannedIndexNames.Nodup
  collections : ∀ name ∈ schema.plannedIndexNames, ∀ collection ∈ schema.collections,
    name ≠ collection.physicalTable
  joins : ∀ name ∈ schema.plannedIndexNames, ∀ declaration ∈ joinDeclarations schema,
    name ≠ declaration.table.physicalTable

/-- What validation says about tables and relations. -/
structure Validated (schema : RuntimeSchema) : Prop where
  tables : (schema.collections.map (·.physicalTable)).Nodup
  keys : ∀ collection ∈ schema.collections, collection.primaryKey ≠ []
  targets : ∀ collection ∈ schema.collections, ∀ relation ∈ collection.relations,
    (schema.collection? relation.target).isSome = true
  joins : ∀ declaration ∈ joinDeclarations schema, ∀ collection ∈ schema.collections,
    declaration.table.physicalTable ≠ collection.physicalTable
  lower : ∀ declaration ∈ joinDeclarations schema,
    Text.lower declaration.table.physicalTable = declaration.table.physicalTable

def indexRequests (schema : RuntimeSchema) : List (String × List String) :=
  schema.collections.flatMap (fun collection =>
    (ownRequests collection).map (collection.physicalTable, ·)) ++ relationRequests schema

end RuntimeSchema

/-! ### The property of the physical schema -/

/-- The indexes of the model are complete and uniquely named. -/
structure WellIndexed (schema : RuntimeSchema) (model : SchemaModel) : Prop where
  distinct : (model.tables.flatMap (·.indexes.map (·.name))).Nodup
  tables : ∀ table ∈ model.tables, ∀ index ∈ table.indexes, ∀ other ∈ model.tables,
    index.name ≠ other.tableName
  complete : ∀ request ∈ schema.indexRequests, request.2 ≠ [] →
    ∃ table ∈ model.tables, table.tableName = request.1 ∧ Served table request.2

/-! ### The tables of the collections -/

section Collection

variable {backend : RuntimeMigrationBackend} {schema : RuntimeSchema}
  {collection : RuntimeCollection} {columns : List ColumnModel} {names : List String}

theorem columns_of_mapM (made : collection.fields.mapM (physicalColumn backend collection) =
    .ok columns) : List.Forall₂ (fun field column => column.name = field.physicalColumn ∧
      (column.isPrimaryKey = true ↔ field.id ∈ collection.primaryKey) ∧
      column.isUnique = field.unique) collection.fields columns := by
  refine (forall₂_of_mapM made).imp fun field column built => ?_
  obtain ⟨default, _, same⟩ := bind_eq_ok.mp built
  cases same
  exact ⟨rfl, List.contains_iff_mem, rfl⟩

theorem primaryKeyColumns_declared (nonempty : collection.primaryKey ≠ []) :
    (declaredTable backend schema collection columns).primaryKeyColumns =
      collection.primaryKey.map collection.columnName := by
  unfold TableModel.primaryKeyColumns declaredTable
  simp [nonempty]

theorem served_declared (nonempty : collection.primaryKey ≠ [])
    (made : collection.fields.mapM (physicalColumn backend collection) = .ok columns) :
    Served (declaredTable backend schema collection columns) names ↔ collection.Serves names := by
  have unique : (∃ column ∈ columns, names = [column.name] ∧ column.isUnique = true) ↔
      ∃ field ∈ collection.fields, names = [field.physicalColumn] ∧ field.unique = true := by
    have paired := columns_of_mapM made
    constructor
    · rintro ⟨column, mem, shape, flag⟩
      obtain ⟨field, inside, name, _, same⟩ := exists_of_mem_right paired mem
      exact ⟨field, inside, name ▸ shape, same ▸ flag⟩
    · rintro ⟨field, mem, shape, flag⟩
      obtain ⟨column, inside, name, _, same⟩ := exists_of_mem_left paired mem
      exact ⟨column, inside, name ▸ shape, same ▸ flag⟩
  unfold Served RuntimeCollection.Serves
  rw [primaryKeyColumns_declared nonempty]
  simp only [declaredTable, unique, List.mem_map, exists_exists_and_eq_and]
  rfl

theorem inPrimaryKey_declared
    (made : collection.fields.mapM (physicalColumn backend collection) = .ok columns) :
    InPrimaryKey (declaredTable backend schema collection columns) names ↔
      collection.KeyMember names := by
  have paired := columns_of_mapM made
  constructor
  · rintro ⟨column, mem, shape, flag⟩
    obtain ⟨field, inside, name, primary, _⟩ := exists_of_mem_right paired mem
    exact ⟨field, inside, name ▸ shape, primary.mp flag⟩
  · rintro ⟨field, mem, shape, flag⟩
    obtain ⟨column, inside, name, primary, _⟩ := exists_of_mem_left paired mem
    exact ⟨column, inside, name ▸ shape, primary.mpr flag⟩

section

variable (nonempty : collection.primaryKey ≠ [])
    (made : collection.fields.mapM (physicalColumn backend collection) = .ok columns)
include nonempty made

theorem open_declared :
    Open (declaredTable backend schema collection columns) names ↔
      names ≠ [] ∧ ¬collection.Serves names ∧ ¬collection.KeyMember names := by
  unfold Open
  rw [served_declared nonempty made, inPrimaryKey_declared made]

theorem opened_declared :
    opened (declaredTable backend schema collection columns) (schema.requestsFor collection) =
      schema.wanted collection := by
  unfold opened RuntimeSchema.wanted
  congr 1
  apply List.filter_congr
  intro names _
  exact decide_eq_decide.mpr (open_declared nonempty made)

end

theorem indexNames_declared : (declaredTable backend schema collection columns).indexes.map
    (·.name) = collection.indexes.map (·.name) := by
  unfold declaredTable
  rw [List.map_map]
  rfl

/-- Distinct names of the collection are apart on its table. -/
theorem apart_of_nodup (nonempty : collection.primaryKey ≠ [])
    (made : collection.fields.mapM (physicalColumn backend collection) = .ok columns)
    (members : ∀ names ∈ schema.requestsFor collection,
      collection.KeyMember names → collection.Serves names)
    (distinct : (schema.collectionNames collection).Nodup) :
    Apart (declaredTable backend schema collection columns) (schema.requestsFor collection) := by
  unfold RuntimeSchema.collectionNames at distinct
  obtain ⟨_, single, disjoint⟩ := List.nodup_append.mp distinct
  have wanted {names : List String} (mem : names ∈ schema.requestsFor collection)
      (free : Open (declaredTable backend schema collection columns) names) :
      names ∈ schema.wanted collection := by
    rw [← opened_declared nonempty made]
    exact Migration.mem_opened.mpr ⟨mem, free⟩
  refine ⟨fun names mem primary => ?_, fun names mem free taken => ?_,
    fun names mem free others also free' same => ?_⟩
  · exact (served_declared nonempty made).mpr
      (members names mem ((inPrimaryKey_declared made).mp primary))
  · rw [indexNames_declared] at taken
    exact disjoint _ taken _ (List.mem_map_of_mem (wanted mem free)) rfl
  · exact List.inj_on_of_nodup_map single (wanted mem free) (wanted also free') same

end Collection

/-! ### All requests of a schema -/

section Schema

variable {backend : RuntimeMigrationBackend} {schema : RuntimeSchema}

theorem addOwnedGeneratedIndex_tableName (table : TableModel) (columns : List String) :
    (addOwnedGeneratedIndex table columns).tableName = table.tableName := by
  obtain ⟨_, gains, _⟩ := Migration.foldl_add table [columns]
  exact gains.tableName

theorem requestIndex_eq {tables : List TableModel} (distinct : (tables.map (·.tableName)).Nodup)
    (request : String × List String) :
    requestIndex tables request = tables.map fun table =>
      if table.tableName = request.1 then addOwnedGeneratedIndex table request.2 else table := by
  induction tables with
  | nil => rfl
  | cons table rest ih =>
    rw [List.map_cons, List.nodup_cons] at distinct
    simp only [requestIndex, List.map_cons]
    split
    next own =>
      -- No other table has the name.
      have others : rest.map (fun table => if table.tableName = request.1 then
          addOwnedGeneratedIndex table request.2 else table) = rest.map id := by
        apply List.map_congr_left
        intro other mem
        apply if_neg
        intro same
        exact distinct.1 (List.mem_map.mpr ⟨other, mem, same.trans own.symm⟩)
      rw [others, List.map_id]
    · rw [ih distinct.2]

/-- Each table takes the requests under its own name. -/
theorem foldl_requestIndex (requests : List (String × List String)) {tables : List TableModel}
    (distinct : (tables.map (·.tableName)).Nodup) :
    requests.foldl requestIndex tables = tables.map fun table =>
      ((requests.filter (·.1 = table.tableName)).map (·.2)).foldl addOwnedGeneratedIndex table := by
  induction requests generalizing tables with
  | nil =>
    symm
    apply List.map_id''
    exact fun _ => rfl
  | cons request rest ih =>
    have names : (requestIndex tables request).map (·.tableName) = tables.map (·.tableName) := by
      rw [requestIndex_eq distinct, List.map_map]
      apply List.map_congr_left
      intro table _
      simp only [Function.comp_apply]
      split
      · exact addOwnedGeneratedIndex_tableName table request.2
      · rfl
    rw [List.foldl_cons, ih (by rwa [names]), requestIndex_eq distinct, List.map_map]
    apply List.map_congr_left
    intro table _
    simp only [Function.comp_apply]
    split
    next own =>
      rw [addOwnedGeneratedIndex_tableName, List.filter_cons_of_pos (by simp [own]), List.map_cons,
        List.foldl_cons]
    next other =>
      rw [List.filter_cons_of_neg (by simpa using fun same => other same.symm)]

def Built (backend : RuntimeMigrationBackend) (schema : RuntimeSchema)
    (collection : RuntimeCollection) (table : TableModel) : Prop :=
  ∃ columns, collection.fields.mapM (physicalColumn backend collection) = .ok columns ∧
    table = (schema.requestsFor collection).foldl addOwnedGeneratedIndex
      (declaredTable backend schema collection columns)

theorem foldl_add_tableName (table : TableModel) (requests : List (List String)) :
    (requests.foldl addOwnedGeneratedIndex table).tableName = table.tableName := by
  obtain ⟨_, gains, _⟩ := Migration.foldl_add table requests
  exact gains.tableName

theorem Built.tableName {collection : RuntimeCollection} {table : TableModel}
    (built : Built backend schema collection table) :
    table.tableName = collection.physicalTable := by
  obtain ⟨_, _, rfl⟩ := built
  rw [foldl_add_tableName]
  rfl

theorem collections_built (validated : schema.Validated) {tables : List TableModel}
    (made : schema.collections.mapM (collectionTable backend schema) = .ok tables) :
    List.Forall₂ (Built backend schema) schema.collections
      ((relationRequests schema).foldl requestIndex tables) := by
  have first : List.Forall₂ (fun collection table => ∃ columns,
      collection.fields.mapM (physicalColumn backend collection) = .ok columns ∧
        table = (ownRequests collection).foldl addOwnedGeneratedIndex
          (declaredTable backend schema collection columns)) schema.collections tables := by
    refine (forall₂_of_mapM made).imp fun collection table whole => ?_
    obtain ⟨columns, parts, same⟩ := bind_eq_ok.mp whole
    cases same
    exact ⟨columns, parts, rfl⟩
  have names : tables.map (·.tableName) = schema.collections.map (·.physicalTable) := by
    have paired : List.Forall₂ (fun name other => name = other)
        (schema.collections.map (·.physicalTable)) (tables.map (·.tableName)) := by
      rw [List.forall₂_map_left_iff, List.forall₂_map_right_iff]
      refine first.imp fun collection table built => ?_
      obtain ⟨_, _, rfl⟩ := built
      rw [foldl_add_tableName]
      rfl
    rw [List.forall₂_eq_eq_eq] at paired
    exact paired.symm
  rw [foldl_requestIndex _ (by rw [names]; exact validated.tables), List.forall₂_map_right_iff]
  refine first.imp fun collection table built => ?_
  obtain ⟨columns, parts, rfl⟩ := built
  refine ⟨columns, parts, ?_⟩
  unfold RuntimeSchema.requestsFor
  rw [List.foldl_append, foldl_add_tableName]
  rfl

/-- Everything a collection asks for is asked for by the schema under its table. -/
theorem mem_indexRequests {collection : RuntimeCollection} (mem : collection ∈ schema.collections)
    {columns : List String} (asked : columns ∈ schema.requestsFor collection) :
    (collection.physicalTable, columns) ∈ schema.indexRequests := by
  unfold RuntimeSchema.requestsFor at asked
  rcases List.mem_append.mp asked with own | relation
  · apply List.mem_append_left
    exact List.mem_flatMap.mpr ⟨collection, mem, List.mem_map_of_mem own⟩
  · obtain ⟨request, among, rfl⟩ := List.mem_map.mp relation
    obtain ⟨inside, name⟩ := List.mem_filter.mp among
    apply List.mem_append_right
    rw [decide_eq_true_eq] at name
    rwa [← name]

/-- Conversely, what the schema asks for belongs to one of its collections. -/
theorem requestsFor_of_mem (validated : schema.Validated) {request : String × List String}
    (asked : request ∈ schema.indexRequests) :
    ∃ collection ∈ schema.collections, collection.physicalTable = request.1 ∧
      request.2 ∈ schema.requestsFor collection := by
  rcases List.mem_append.mp asked with own | relation
  · obtain ⟨collection, mem, inside⟩ := List.mem_flatMap.mp own
    obtain ⟨columns, mine, rfl⟩ := List.mem_map.mp inside
    exact ⟨collection, mem, rfl, List.mem_append_left _ mine⟩
  · have table : ∃ collection ∈ schema.collections, collection.physicalTable = request.1 := by
      obtain ⟨collection, mem, inside⟩ := List.mem_flatMap.mp relation
      obtain ⟨declared, among, rfl⟩ := List.mem_map.mp inside
      unfold relationRequest
      split
      · obtain ⟨target, found⟩ := Option.isSome_iff_exists.mp
          (validated.targets collection mem declared among)
        refine ⟨target, List.mem_of_find?_eq_some found, ?_⟩
        simp only [RuntimeSchema.tableOf, found, Option.elim_some]
      · exact ⟨collection, mem, rfl⟩
    obtain ⟨collection, mem, name⟩ := table
    refine ⟨collection, mem, name, List.mem_append_right _ (List.mem_map.mpr
      ⟨request, List.mem_filter.mpr ⟨relation, ?_⟩, rfl⟩)⟩
    exact decide_eq_true name.symm

/-! ### Join tables -/

theorem joinTables_names : (joinTables backend schema).flatMap (·.indexes.map (·.name)) =
    (firstDeclarations [] (joinDeclarations schema)).filterMap schema.joinName := by
  unfold joinTables
  induction firstDeclarations [] (joinDeclarations schema) with
  | nil => rfl
  | cons declaration rest ih =>
    cases found : schema.collection? declaration.relation.target with
    | none =>
      have none : declaration.physicalTable backend schema = none := by
        simp [JoinDeclaration.physicalTable, found]
      have unnamed : schema.joinName declaration = .none := by
        simp [RuntimeSchema.joinName, found]
      rw [List.filterMap_cons_none none, List.filterMap_cons_none unnamed, ih]
    | some target =>
      obtain ⟨table, made, name⟩ : ∃ table,
          declaration.physicalTable backend schema = some table ∧
            table.indexes.map (·.name) = [generatedIndexName declaration.table.physicalTable
              ((joinSide declaration.table.target target).map (·.1))] := by
        simp [JoinDeclaration.physicalTable, found]
      have named : schema.joinName declaration = some (generatedIndexName
          declaration.table.physicalTable
          ((joinSide declaration.table.target target).map (·.1))) := by
        simp [RuntimeSchema.joinName, found]
      rw [List.filterMap_cons_some made, List.filterMap_cons_some named, List.flatMap_cons, ih, name]
      rfl

theorem mem_firstDeclarations {seen : List String} {declarations : List JoinDeclaration}
    {declaration : JoinDeclaration} (mem : declaration ∈ firstDeclarations seen declarations) :
    declaration ∈ declarations := by
  induction declarations generalizing seen with
  | nil => cases mem
  | cons first rest ih =>
    simp only [firstDeclarations] at mem
    split at mem
    · exact List.mem_cons_of_mem _ (ih mem)
    · rcases List.mem_cons.mp mem with rfl | later
      · exact .head _
      · exact List.mem_cons_of_mem _ (ih later)

/-- Each declared join table has a first declaration. -/
theorem exists_firstDeclaration {seen : List String} {declarations : List JoinDeclaration}
    {declaration : JoinDeclaration} (mem : declaration ∈ declarations)
    (fresh : Text.lower declaration.table.physicalTable ∉ seen) :
    ∃ first ∈ firstDeclarations seen declarations,
      Text.lower first.table.physicalTable = Text.lower declaration.table.physicalTable := by
  induction declarations generalizing seen with
  | nil => cases mem
  | cons first rest ih =>
    simp only [firstDeclarations, List.contains_eq_mem, decide_eq_true_eq]
    by_cases same : Text.lower first.table.physicalTable = Text.lower declaration.table.physicalTable
    · rw [if_neg (by rwa [same])]
      exact ⟨first, .head _, same⟩
    · have later : declaration ∈ rest := by
        rcases List.mem_cons.mp mem with rfl | later
        · exact absurd rfl same
        · exact later
      split
      · exact ih later fresh
      · have apart : Text.lower declaration.table.physicalTable ∉
            Text.lower first.table.physicalTable :: seen := by
          rw [List.mem_cons, not_or]
          exact ⟨fun back => same back.symm, fresh⟩
        obtain ⟨found, inside, equal⟩ := ih later apart
        exact ⟨found, List.mem_cons_of_mem _ inside, equal⟩

theorem joinTable_declared {table : TableModel} (mem : table ∈ joinTables backend schema) :
    ∃ declaration ∈ joinDeclarations schema,
      table.tableName = declaration.table.physicalTable := by
  obtain ⟨declaration, first, made⟩ := List.mem_filterMap.mp mem
  refine ⟨declaration, mem_firstDeclarations first, ?_⟩
  obtain ⟨target, _, rest⟩ := Option.bind_eq_some_iff.mp made
  cases rest
  rfl

theorem exists_joinTable (validated : schema.Validated) {declaration : JoinDeclaration}
    (mem : declaration ∈ joinDeclarations schema) :
    ∃ table ∈ joinTables backend schema,
      table.tableName = declaration.table.physicalTable := by
  obtain ⟨first, inside, same⟩ := exists_firstDeclaration mem List.not_mem_nil
  have among := mem_firstDeclarations inside
  rw [validated.lower first among, validated.lower declaration mem] at same
  have target : (schema.collection? first.relation.target).isSome = true := by
    obtain ⟨collection, present, declared⟩ := List.mem_flatMap.mp among
    obtain ⟨relation, own, made⟩ := List.mem_filterMap.mp declared
    obtain ⟨_, _, rfl⟩ := Option.map_eq_some_iff.mp made
    exact validated.targets collection present relation own
  obtain ⟨target, found⟩ := Option.isSome_iff_exists.mp target
  obtain ⟨table, made, name⟩ : ∃ table, first.physicalTable backend schema = some table ∧
      table.tableName = first.table.physicalTable := by
    simp [JoinDeclaration.physicalTable, found]
  exact ⟨table, List.mem_filterMap.mpr ⟨first, inside, made⟩, name.trans same⟩

/-! ### The model -/

/-- The collections have their tables, and the join tables follow. -/
theorem physicalSchema_tables (validated : schema.Validated) {limits : RuntimeMigrationLimits}
    {model : SchemaModel} (made : physicalSchema backend limits schema = .ok model) :
    ∃ tables, List.Forall₂ (Built backend schema) schema.collections tables ∧
      model.tables = tables ++ joinTables backend schema := by
  obtain ⟨_, _, made⟩ := bind_eq_ok.mp made
  obtain ⟨_, _, made⟩ := bind_eq_ok.mp made
  obtain ⟨_, _, made⟩ := bind_eq_ok.mp made
  obtain ⟨_, _, made⟩ := bind_eq_ok.mp made
  obtain ⟨tables, collections, made⟩ := bind_eq_ok.mp made
  obtain ⟨_, _, made⟩ := bind_eq_ok.mp made
  obtain ⟨_, _, made⟩ := bind_eq_ok.mp made
  cases made
  exact ⟨_, collections_built validated collections, rfl⟩

/-- Where a table serves all that its collection asks for, its index names are the planned ones. -/
theorem Built.names {collection : RuntimeCollection} {table : TableModel}
    (nonempty : collection.primaryKey ≠ []) (built : Built backend schema collection table)
    (complete : ∀ columns ∈ schema.requestsFor collection, columns ≠ [] → Served table columns) :
    (table.indexes.map (·.name)).Perm (schema.collectionNames collection) := by
  obtain ⟨columns, made, rfl⟩ := built
  have apart := (Migration.served_iff _ _).mp complete
  have names := Migration.indexNames_perm apart
  rw [opened_declared nonempty made, indexNames_declared] at names
  exact names

theorem flatMap_names_perm {collections : List RuntimeCollection} {tables : List TableModel}
    (paired : List.Forall₂ (fun collection table =>
      (table.indexes.map (·.name)).Perm (schema.collectionNames collection)) collections tables) :
    (tables.flatMap (·.indexes.map (·.name))).Perm
      (collections.flatMap schema.collectionNames) := by
  induction paired with
  | nil => exact .refl _
  | cons here _ ih => exact here.append ih

section

variable (validated : schema.Validated) {tables : List TableModel}
    (paired : List.Forall₂ (Built backend schema) schema.collections tables)
include validated paired

/-- The model has the planned names where everything that is asked for is served. -/
theorem model_names (complete : ∀ collection ∈ schema.collections, ∀ table ∈ tables,
      Built backend schema collection table →
        ∀ columns ∈ schema.requestsFor collection, columns ≠ [] → Served table columns) :
    ((tables ++ joinTables backend schema).flatMap (·.indexes.map (·.name))).Perm
      schema.plannedIndexNames := by
  have each : List.Forall₂ (fun collection table => (table.indexes.map (·.name)).Perm
      (schema.collectionNames collection)) schema.collections tables := by
    rw [List.forall₂_iff_zip] at paired ⊢
    refine ⟨paired.1, fun {collection table} mem => ?_⟩
    obtain ⟨left, right⟩ := List.of_mem_zip mem
    have built := paired.2 mem
    exact built.names (validated.keys collection left) (complete collection left table right built)
  rw [List.flatMap_append, joinTables_names]
  exact (flatMap_names_perm each).append_right _

/-- A table of the name of a collection is the one that was built for it. -/
theorem built_of_name {collection : RuntimeCollection} (mem : collection ∈ schema.collections)
    {table : TableModel} (among : table ∈ tables ++ joinTables backend schema)
    (name : table.tableName = collection.physicalTable) :
    Built backend schema collection table := by
  rcases List.mem_append.mp among with first | join
  · obtain ⟨other, present, built⟩ := exists_of_mem_right paired first
    have same : other = collection := List.inj_on_of_nodup_map validated.tables present mem
      (built.tableName.symm.trans name)
    exact same ▸ built
  · obtain ⟨declaration, declared, other⟩ := joinTable_declared join
    exact absurd (other.symm.trans name) (validated.joins declaration declared collection mem)

/-- The tables are named like the collections and the declared join tables. -/
theorem exists_table_iff {name : String} :
    (∃ table ∈ tables ++ joinTables backend schema, table.tableName = name) ↔
      (∃ collection ∈ schema.collections, collection.physicalTable = name) ∨
        ∃ declaration ∈ joinDeclarations schema, declaration.table.physicalTable = name := by
  constructor
  · rintro ⟨table, among, rfl⟩
    rcases List.mem_append.mp among with first | join
    · obtain ⟨collection, present, built⟩ := exists_of_mem_right paired first
      exact .inl ⟨collection, present, built.tableName.symm⟩
    · obtain ⟨declaration, declared, same⟩ := joinTable_declared join
      exact .inr ⟨declaration, declared, same.symm⟩
  · rintro (⟨collection, present, rfl⟩ | ⟨declaration, declared, rfl⟩)
    · obtain ⟨table, among, built⟩ := exists_of_mem_left paired present
      exact ⟨table, List.mem_append_left _ among, built.tableName⟩
    · obtain ⟨table, among, same⟩ := @exists_joinTable backend schema validated _ declared
      exact ⟨table, List.mem_append_right _ among, same⟩

/-- Planned names are names of tables when index names are. -/
theorem namesApart_iff (names : ((tables ++ joinTables backend schema).flatMap (·.indexes.map (·.name))).Perm
      schema.plannedIndexNames) :
    (∀ table ∈ tables ++ joinTables backend schema, ∀ index ∈ table.indexes,
      ∀ other ∈ tables ++ joinTables backend schema, index.name ≠ other.tableName) ↔
    ∀ name ∈ schema.plannedIndexNames,
      (∀ collection ∈ schema.collections, name ≠ collection.physicalTable) ∧
      ∀ declaration ∈ joinDeclarations schema, name ≠ declaration.table.physicalTable := by
  have tableNames {name : String} := @exists_table_iff backend schema validated _ paired name
  constructor
  · intro free name planned
    obtain ⟨table, among, inside⟩ := List.mem_flatMap.mp (names.mem_iff.mpr planned)
    obtain ⟨index, held, rfl⟩ := List.mem_map.mp inside
    refine ⟨fun collection present same => ?_, fun declaration declared same => ?_⟩
    · obtain ⟨other, also, equal⟩ := tableNames.mpr (.inl ⟨collection, present, same.symm⟩)
      exact free table among index held other also equal.symm
    · obtain ⟨other, also, equal⟩ := tableNames.mpr (.inr ⟨declaration, declared, same.symm⟩)
      exact free table among index held other also equal.symm
  · intro free table among index held other also same
    have planned : index.name ∈ schema.plannedIndexNames :=
      names.mem_iff.mp (List.mem_flatMap.mpr ⟨table, among, List.mem_map_of_mem held⟩)
    rcases tableNames.mp ⟨other, also, rfl⟩ with ⟨collection, present, equal⟩ |
      ⟨declaration, declared, equal⟩
    · exact (free _ planned).1 collection present (same.trans equal.symm)
    · exact (free _ planned).2 declaration declared (same.trans equal.symm)

end

/-- The indexes of a physical schema are complete and uniquely named exactly when no lone member of
a longer key is asked for and the planned names are apart from each other and from the tables. -/
theorem wellIndexed_iff (backend : RuntimeMigrationBackend) (limits : RuntimeMigrationLimits)
    (schema : RuntimeSchema) (validated : schema.Validated) (model : SchemaModel)
    (made : physicalSchema backend limits schema = .ok model) :
    WellIndexed schema model ↔ schema.IndexNamesApart := by
  obtain ⟨tables, paired, whole⟩ := physicalSchema_tables validated made
  constructor
  · rintro ⟨distinct, free, complete⟩
    rw [whole] at distinct free complete
    have served : ∀ collection ∈ schema.collections, ∀ table ∈ tables,
        Built backend schema collection table →
        ∀ columns ∈ schema.requestsFor collection, columns ≠ [] → Served table columns := by
      intro collection mem table _ built columns asked some
      obtain ⟨other, among, name, good⟩ :=
        complete _ (mem_indexRequests mem asked) some
      obtain ⟨parts, made', rfl⟩ := built_of_name validated paired mem among name
      obtain ⟨parts', made'', rfl⟩ := built
      rw [made'] at made''
      cases made''
      exact good
    have names := model_names validated paired served
    have apart := (namesApart_iff validated paired names).mp free
    refine ⟨?_, names.nodup_iff.mp distinct, fun name planned => (apart name planned).1,
      fun name planned => (apart name planned).2⟩
    intro collection mem columns asked lone
    obtain ⟨table, among, built⟩ := exists_of_mem_left paired mem
    have all := served collection mem table among built
    obtain ⟨parts, made', rfl⟩ := built
    have members := ((Migration.served_iff _ _).mp all).members columns asked
    rw [inPrimaryKey_declared made',
      served_declared (validated.keys collection mem) made'] at members
    exact members lone
  · rintro ⟨members, distinct, collections, joins⟩
    have served : ∀ collection ∈ schema.collections, ∀ table,
        Built backend schema collection table →
        ∀ columns ∈ schema.requestsFor collection, columns ≠ [] → Served table columns := by
      rintro collection mem table ⟨parts, made', rfl⟩
      apply (Migration.served_iff _ _).mpr
      apply apart_of_nodup (validated.keys collection mem) made' (members collection mem)
      have single := (List.nodup_append.mp distinct).1
      exact (List.nodup_flatMap.mp single).1 collection mem
    have names := model_names validated paired fun collection mem table _ =>
      served collection mem table
    have free := (namesApart_iff validated paired names).mpr fun name planned =>
      ⟨collections name planned, joins name planned⟩
    rw [← whole] at names free
    refine ⟨names.nodup_iff.mpr distinct, free, fun request asked some => ?_⟩
    obtain ⟨collection, mem, name, mine⟩ := requestsFor_of_mem validated asked
    obtain ⟨table, among, built⟩ := exists_of_mem_left paired mem
    refine ⟨table, ?_, built.tableName.trans name, served collection mem table built _ mine some⟩
    rw [whole]
    exact List.mem_append_left _ among

end Schema

/-! ### A shop and its items -/

/-- SQLite, for schemas without defaults and without search. -/
def plainSqlite : RuntimeMigrationBackend where
  dialect := .sqlite
  runtimeMigrationsSupported := true
  runtimeDefault _ := .ok none
  runtimeSearchIndex collection search :=
    { name := "idx_gom_search_" ++ collection.physicalTable ++ "_vector"
      tableName := collection.physicalTable
      entityName := collection.apiTypeName
      primaryKey := collection.columnName (collection.primaryKey.headD "")
      strategy := .sqliteFts5
      language := search.effectiveLanguage
      tokenizer := search.effectiveTokenizer.asStr
      minTokenLen := search.effectiveMinTokenLen
      fallbackEnabled := false }
  definitionBytes _ := 2048
  targetBytes _ := 4096

def codedCollection (id table column : String) : RuntimeCollection :=
  { id, apiTypeName := id, apiPluralName := id ++ "s", physicalTable := table
    primaryKey := [id ++ ".id"]
    fields := [
      { id := id ++ ".id", apiName := "id", physicalColumn := "id", valueKind := .uuid },
      { id := id ++ ".code", apiName := "code", physicalColumn := column, valueKind := .string }] }

/-- The items of a shop, whose codes the shop itself mentions in a column. -/
def shopSchema : RuntimeSchema :=
  { collections := [codedCollection "Shop" "shop" "item_code",
      codedCollection "ShopItem" "shop_item" "code"] }

/-- Both have a code of their own. -/
def itemSchema : RuntimeSchema :=
  { collections := [codedCollection "Shop" "shop" "code",
      codedCollection "ShopItem" "shop_item" "code"] }

theorem itemSchema_validated : itemSchema.Validated :=
  ⟨by decide, by decide, by decide, by decide, by decide⟩

theorem shopSchema_validated : shopSchema.Validated :=
  ⟨by decide, by decide, by decide, by decide, by decide⟩

/-- Two tables with one generated name each. -/
theorem items_wellIndexed : ∃ model, physicalSchema plainSqlite {} itemSchema = .ok model ∧
    (model.tables.map fun table => table.indexes.map (·.name)) =
      [["idx_shop_code"], ["idx_shop_item_code"]] ∧
    WellIndexed itemSchema model := by
  refine ⟨_, rfl, by decide,
    (wellIndexed_iff plainSqlite {} itemSchema itemSchema_validated _ rfl).mpr ?_⟩
  exact ⟨by decide, by decide, by decide, by decide⟩

/-- The code of an item and the item code of the shop ask for one name in two tables. -/
theorem items_share_name : shopSchema.Validated ∧
    ∃ model, physicalSchema plainSqlite {} shopSchema = .ok model ∧ ¬WellIndexed shopSchema model := by
  refine ⟨shopSchema_validated, _, rfl, fun indexed => ?_⟩
  have distinct := indexed.distinct
  revert distinct
  decide

end GraphqlOrm.Runtime
