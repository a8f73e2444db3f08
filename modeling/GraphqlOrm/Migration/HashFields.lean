import GraphqlOrm.Migration.Convergence
import GraphqlOrm.Migration.SchemaHash

/-!
# Reading hashed fields back

Which schemas leave a text that can be read back: their values keep clear of the
separators, and an optional value is not empty when it is there. For these, the
fields of a line determine what the planner compares.
-/
namespace GraphqlOrm.Migration

open Schema Text OrderedMap

/-! ### Schemas whose text can be read back -/

structure RecordableColumn (column : ColumnModel) : Prop where
  name : Free ['|', '\n'] column.name
  sqlType : Free ['|', '\n'] column.sqlType
  default : ∀ expression ∈ column.default,
    Free ['|', '\n'] (canonicalizeColumnDefaultExpression expression) ∧
      canonicalizeColumnDefaultExpression expression ≠ ""

structure RecordablePredicate (predicate : IndexPredicateModel) : Prop where
  column : Free [':', '|', '\n'] predicate.column
  values : ∀ value ∈ predicate.values, Free [',', '|', '\n'] value
  notBlank : predicate.values ≠ [""]

structure RecordableIndex (index : IndexModel) : Prop where
  name : Free ['|', '\n'] index.name
  columns : ∀ column ∈ index.columns, Free [',', '|', '\n'] column
  directions : index.directionsFit = true
  predicate : ∀ predicate ∈ index.predicate, RecordablePredicate predicate

def RecordableOption (value : Option String) : Prop :=
  ∀ text ∈ value, Free ['|', '\n'] text ∧ text ≠ ""

structure RecordableSearchField (field : SearchFieldModel) : Prop where
  fieldName : Free ['|', '\n'] field.fieldName
  columnName : Free ['|', '\n'] field.columnName
  «alias» : RecordableOption field.alias
  policy : RecordableOption field.policy

structure RecordableSearchJsonPath (jsonPath : SearchJsonPathModel) : Prop where
  fieldName : Free ['|', '\n'] jsonPath.fieldName
  columnName : Free ['|', '\n'] jsonPath.columnName
  path : Free ['|', '\n'] jsonPath.path
  policy : RecordableOption jsonPath.policy

structure RecordableSearchRelation (relation : SearchRelationFieldModel) : Prop where
  relationField : Free ['|', '\n'] relation.relationField
  targetType : Free ['|', '\n'] relation.targetType
  fields : ∀ field ∈ relation.fields, Free [',', '|', '\n'] field
  notBlank : relation.fields ≠ [""]
  policy : RecordableOption relation.policy

structure RecordableSearchIndex (index : SearchIndexModel) : Prop where
  name : Free ['|', '\n'] index.name
  language : Free ['|', '\n'] index.language
  tokenizer : Free ['|', '\n'] index.tokenizer
  fields : ∀ field ∈ index.fields, RecordableSearchField field
  jsonPaths : ∀ jsonPath ∈ index.jsonPaths, RecordableSearchJsonPath jsonPath
  relations : ∀ relation ∈ index.relations, RecordableSearchRelation relation

structure RecordableForeignKey (foreignKey : ForeignKeyModel) : Prop where
  targetTable : Free ['|', '\n'] foreignKey.targetTable
  columnPairs : ∀ pair ∈ foreignKey.columnPairs,
    Free ['>', ',', '|', '\n'] pair.sourceColumn ∧ Free [',', '|', '\n'] pair.targetColumn

def RecordableCheck (constraint : CheckConstraintModel) : Prop :=
  ∃ tokens, canonicalCheckTokens constraint.expression = some tokens ∧
    (∀ token ∈ tokens, Free ['|', '\n'] token) ∧ tokens ≠ [""]

structure RecordableTable (table : TableModel) : Prop where
  entityName : Free ['|', '\n'] table.entityName
  tableName : Free ['|', '\n'] table.tableName
  primaryKey : Free ['|', '\n'] table.primaryKey
  primaryKeys : ∀ column ∈ table.primaryKeyColumns, Free ['|', '\n'] column
  defaultSort : Free ['|', '\n'] table.defaultSort
  checkConstraints : ∀ constraint ∈ table.checkConstraints, RecordableCheck constraint
  columns : ∀ column ∈ table.columns, RecordableColumn column
  indexes : ∀ index ∈ table.indexes, RecordableIndex index
  searchIndexes : ∀ index ∈ table.searchIndexes, RecordableSearchIndex index
  foreignKeys : ∀ foreignKey ∈ table.foreignKeys, RecordableForeignKey foreignKey

structure RecordableSchema (schema : SchemaModel) : Prop where
  extensions : ∀ extension ∈ schema.extensions, Free ['|', '\n'] extension
  tables : ∀ table ∈ schema.tables, RecordableTable table

/-- Two search indexes agree in what the text leaves out: their table, entity,
primary key and readiness, and the order in which they list their members. -/
structure UnrecordedAgree (a b : SearchIndexModel) : Prop where
  tableName : a.tableName = b.tableName
  entityName : a.entityName = b.entityName
  primaryKey : a.primaryKey = b.primaryKey
  readinessTracked : a.readinessTracked = b.readinessTracked
  fields : a.fields.map (·.fieldName) = b.fields.map (·.fieldName)
  jsonPaths : a.jsonPaths.map jsonPathKey = b.jsonPaths.map jsonPathKey
  relations : a.relations.map (·.relationField) = b.relations.map (·.relationField)

def SearchesAgree (a b : SchemaModel) : Prop :=
  ∀ tableName table table', (tableMap a).get? tableName = some table →
    (tableMap b).get? tableName = some table' →
    ∀ name index index', (collectBy SearchIndexModel.name table.searchIndexes).get? name = some index →
      (collectBy SearchIndexModel.name table'.searchIndexes).get? name = some index' →
      UnrecordedAgree index index'

/-! ### Fields of a line -/

section Fields

variable {forbidden : List Char}

theorem taggedLine_injective {tag : String} {fields fields' : List String}
    (left : ∀ field ∈ fields, Free ['|', '\n'] field)
    (right : ∀ field ∈ fields', Free ['|', '\n'] field) (empty : fields = [] ↔ fields' = [])
    (same : taggedLine tag fields = taggedLine tag fields') : fields = fields' := by
  unfold taggedLine at same
  have bodies := String.append_right_inj _ |>.mp same
  exact join_injective (fun f mem => (left f mem).mono (by simp))
    (fun f mem => (right f mem).mono (by simp)) empty bodies

theorem taggedLine_free {tag : String} {fields : List String} (own : Free ['\n'] tag)
    (parts : ∀ field ∈ fields, Free ['|', '\n'] field) : Free ['\n'] (taggedLine tag fields) := by
  refine (own.append (by decide)).append (Free.join (by decide) fun f mem => ?_)
  exact (parts f mem).mono (by simp)

theorem recordableOption_injective {a b : Option String} (left : RecordableOption a)
    (right : RecordableOption b) (same : a.getD "" = b.getD "") : a = b := by
  cases a with
  | none =>
    cases b with
    | none => rfl
    | some text => exact absurd same.symm (right text rfl).2
  | some text =>
    cases b with
    | none => exact absurd same (left text rfl).2
    | some text' => exact congrArg some same

theorem RecordableOption.free {value : Option String} (recordable : RecordableOption value) :
    Free ['|', '\n'] (value.getD "") := by
  cases value with
  | none => simp [Free]
  | some text => exact (recordable text rfl).1

/-- Joined values without commas, where one empty value is excluded. -/
theorem joinComma_injective {ss ts : List String} (left : ∀ s ∈ ss, Free [',', '|', '\n'] s)
    (right : ∀ t ∈ ts, Free [',', '|', '\n'] t) (leftSome : ss ≠ [""]) (rightSome : ts ≠ [""])
    (same : join "," ss = join "," ts) : ss = ts := by
  refine join_injective (fun s mem => (left s mem).mono (by simp))
    (fun t mem => (right t mem).mono (by simp)) ?_ same
  constructor
  · rintro rfl
    exact join_eq_empty rightSome same.symm
  · rintro rfl
    exact join_eq_empty leftSome same

end Fields

/-! ### Reading the fields back -/

theorem tableFields_free {table : TableModel} (recordable : RecordableTable table) :
    ∀ field ∈ tableFields table, Free ['|', '\n'] field := by
  have keys : Free ['|', '\n'] (join "," table.primaryKeyColumns) :=
    Free.join (by simp [Free]) recordable.primaryKeys
  have purge : Free ['|', '\n'] "retention_purge" := by simp [Free]
  simp only [tableFields, List.forall_mem_append, List.forall_mem_cons, List.not_mem_nil,
    false_imp_iff, implies_true, and_true]
  refine ⟨⟨recordable.entityName, recordable.tableName, recordable.primaryKey, keys,
    recordable.defaultSort, ?_⟩, ?_⟩
  · split <;> simp [Free]
  · split
    · simpa using purge
    · simp

section Columns

variable {a b : ColumnModel}

theorem spatialText_free (spatial : SpatialColumnDef) : Free ['|', '\n'] (spatialText spatial) := by
  have kind : Free ['|', '\n'] spatial.kind.asSql := by
    cases spatial.kind
    simp [Free, SpatialKind.asSql]
  have geometry : Free ['|', '\n'] spatial.geometryType.asSql := by
    cases spatial.geometryType <;> simp [Free, SpatialGeometryType.asSql]
  have colon : Free ['|', '\n'] ":" := by decide
  exact (((kind.append colon).append geometry).append colon).append
    (free_intRepr _ (by simp) (by simp [Free]))

theorem geometryType_injective {g h : SpatialGeometryType} (same : g.asSql = h.asSql) : g = h := by
  cases g <;> cases h <;> simp_all [SpatialGeometryType.asSql]

theorem spatialText_injective {s t : SpatialColumnDef} (same : spatialText s = spatialText t) :
    s = t := by
  obtain ⟨⟨⟩, shape, srid⟩ := s
  obtain ⟨⟨⟩, shape', srid'⟩ := t
  simp only [spatialText, String.append_assoc, String.append_right_inj] at same
  have colonFree (g : SpatialGeometryType) : ∀ c ∈ g.asSql.toList, ¬c = ':' := by
    have free : Free [':'] g.asSql := by cases g <;> simp [Free, SpatialGeometryType.asSql]
    exact fun c mem equal => free c mem (equal ▸ .head _)
  have lists := congrArg String.toList same
  simp only [String.toList_append] at lists
  obtain ⟨names, rest⟩ := append_cut (colonFree shape) (colonFree shape')
    (by simp) (by simp) lists
  have numbers : Int.repr srid.toInt = Int.repr srid'.toInt := by
    rw [← String.toList_append, ← String.toList_append, String.toList_inj] at rest
    exact (String.append_right_inj _).mp rest
  rw [geometryType_injective (String.toList_inj.mp names), Int32.toInt_inj.mp (intRepr_injective numbers)]

theorem columnFields_free (recordable : RecordableColumn a) :
    ∀ field ∈ columnFields a, Free ['|', '\n'] field := by
  have default : Free ['|', '\n'] ((a.default.map canonicalizeColumnDefaultExpression).getD "") := by
    cases found : a.default with
    | none => simp [Free]
    | some expression =>
      rw [Option.map_some, Option.getD_some]
      exact (recordable.default expression found).1
  have spatial : Free ['|', '\n'] ((a.spatial.map spatialText).getD "") := by
    cases a.spatial with
    | none => simp [Free]
    | some spatial =>
      rw [Option.map_some, Option.getD_some]
      exact spatialText_free spatial
  simp only [columnFields, List.forall_mem_cons, List.not_mem_nil, false_imp_iff, implies_true,
    and_true]
  refine ⟨recordable.name, recordable.sqlType, ?_, ?_, ?_, default, spatial⟩ <;>
    split <;> simp [Free]

theorem default_injective (left : RecordableColumn a) (right : RecordableColumn b)
    (same : (a.default.map canonicalizeColumnDefaultExpression).getD "" =
      (b.default.map canonicalizeColumnDefaultExpression).getD "") :
    a.default.map canonicalizeColumnDefaultExpression =
      b.default.map canonicalizeColumnDefaultExpression := by
  apply recordableOption_injective _ _ same
  · rintro text found
    obtain ⟨expression, stored, rfl⟩ := Option.mem_map.mp found
    exact left.default expression stored
  · rintro text found
    obtain ⟨expression, stored, rfl⟩ := Option.mem_map.mp found
    exact right.default expression stored

theorem spatial_injective {s t : Option SpatialColumnDef}
    (same : (s.map spatialText).getD "" = (t.map spatialText).getD "") : s = t := by
  have some (u : SpatialColumnDef) : spatialText u ≠ "" := by
    intro blank
    have lengths := congrArg String.length blank
    simp [spatialText] at lengths
  cases s <;> cases t
  · rfl
  · exact absurd same.symm (some _)
  · exact absurd same (some _)
  · exact congrArg _ (spatialText_injective same)

/-- The comparison of defaults only looks at their canonical form. -/
theorem timestampDefaults_eq (backend : DatabaseBackend) {d e : Option String}
    (same : d.map canonicalizeColumnDefaultExpression = e.map canonicalizeColumnDefaultExpression) :
    d.map (timestampDefaultForComparison backend) = e.map (timestampDefaultForComparison backend) := by
  cases d with
  | none =>
    cases e with
    | none => rfl
    | some expression => cases same
  | some expression =>
    cases e with
    | none => cases same
    | some expression' =>
      simp only [Option.map_some, Option.some.injEq] at same ⊢
      unfold timestampDefaultForComparison
      rw [same]

theorem ite_injective {p q : Bool} {s t : String} (different : s ≠ t)
    (same : (if p then s else t) = if q then s else t) : p = q := by
  cases p <;> cases q <;> simp_all

/-- A line determines everything of a column that the planner compares. -/
theorem columnFields_unchanged (left : RecordableColumn a) (right : RecordableColumn b)
    (same : columnFields a = columnFields b) (backend : DatabaseBackend)
    (equivalence : DefaultEquivalence) : columnChangedWith backend a b equivalence = false := by
  simp only [columnFields, List.cons.injEq, and_true] at same
  obtain ⟨name, sqlType, nullable, primary, unique, default, spatial⟩ := same
  have sameType : sqlTypeChanged backend a b = false := by
    unfold sqlTypeChanged
    rw [sqlType]
    split <;> simp
  simp [columnChangedWith, name, sameType, ite_injective (by simp) nullable,
    ite_injective (by simp) primary, ite_injective (by simp) unique,
    spatial_injective spatial, timestampDefaults_eq backend (default_injective left right default)]

end Columns

section Indexes

variable {a b : IndexModel}

theorem direction_free (direction : IndexDirection) : Free [',', '|', '\n'] direction.asSql := by
  cases direction <;> simp [Free, IndexDirection.asSql]

theorem direction_injective {d e : IndexDirection} (same : d.asSql = e.asSql) : d = e := by
  cases d <;> cases e <;> simp_all [IndexDirection.asSql]

/-- The directions tell how many columns there are, and the direction of each. -/
theorem directionsText_injective (same : directionsText a = directionsText b) :
    a.columns.length = b.columns.length ∧
      ∀ i < a.columns.length, a.directionAt i = b.directionAt i := by
  have free (index : IndexModel) : ∀ s ∈ (List.range index.columns.length).map fun i =>
      (index.directionAt i).asSql, Free [','] s := by
    intro s mem
    obtain ⟨i, _, rfl⟩ := List.mem_map.mp mem
    exact (direction_free _).mono (by simp)
  have lists := unlines_injective (free a) (free b) same
  have lengths : a.columns.length = b.columns.length := by
    simpa using congrArg List.length lists
  refine ⟨lengths, fun i below => direction_injective ?_⟩
  rw [← lengths] at lists
  exact List.map_inj_left.mp lists i (List.mem_range.mpr below)

theorem predicateText_injective {p q : Option IndexPredicateModel}
    (left : ∀ predicate ∈ p, RecordablePredicate predicate)
    (right : ∀ predicate ∈ q, RecordablePredicate predicate)
    (same : predicateText p = predicateText q) : p = q := by
  have heads (r : IndexPredicateModel) : predicateText (some r) ≠ predicateText none := by
    intro equal
    have lists := congrArg (fun s : String => s.toList.head?) equal
    simp [predicateText] at lists
  match p, q with
  | none, none => rfl
  | none, some r => exact absurd same.symm (heads r)
  | some r, none => exact absurd same (heads r)
  | some ⟨column, values⟩, some ⟨column', values'⟩ =>
    obtain ⟨columnFree, valuesFree, some⟩ := left _ rfl
    obtain ⟨columnFree', valuesFree', some'⟩ := right _ rfl
    simp only [predicateText, String.append_assoc, String.append_right_inj] at same
    have cut {s : String} (free : Free [':', '|', '\n'] s) : ∀ c ∈ s.toList, ¬c = ':' :=
      fun c mem equal => free c mem (equal ▸ .head _)
    have lists := congrArg String.toList same
    simp only [String.toList_append] at lists
    obtain ⟨names, rest⟩ := append_cut (cut columnFree) (cut columnFree') (by simp) (by simp) lists
    rw [← String.toList_append, ← String.toList_append, String.toList_inj,
      String.append_right_inj] at rest
    have column := String.toList_inj.mp names
    have values := joinComma_injective valuesFree valuesFree' some some' rest
    cases column
    cases values
    rfl

theorem predicateText_free {p : Option IndexPredicateModel}
    (recordable : ∀ predicate ∈ p, RecordablePredicate predicate) :
    Free ['|', '\n'] (predicateText p) := by
  cases p with
  | none => simp [Free, predicateText]
  | some predicate =>
    obtain ⟨column, values, _⟩ := recordable predicate rfl
    have opening : Free ['|', '\n'] "where_in:" := by simp [Free]
    have colon : Free ['|', '\n'] ":" := by simp [Free]
    refine ((opening.append (column.mono (by simp))).append colon).append
      (Free.join (by simp [Free]) fun value mem => ?_)
    exact (values value mem).mono (by simp)

theorem indexFields_free (recordable : RecordableIndex a) :
    ∀ field ∈ indexFields a, Free ['|', '\n'] field := by
  have directions : Free ['|', '\n'] (directionsText a) := by
    apply unlines_free (by decide)
    intro s mem
    obtain ⟨i, _, rfl⟩ := List.mem_map.mp mem
    exact (direction_free _).mono (by simp)
  have columns : Free ['|', '\n'] (join "," a.columns) :=
    Free.join (by simp [Free]) fun column mem => (recordable.columns column mem).mono (by simp)
  have method : Free ['|', '\n'] (indexMethodText a.method) := by
    cases a.method <;> simp [Free, indexMethodText]
  simp only [indexFields, List.forall_mem_cons, List.not_mem_nil, false_imp_iff, implies_true,
    and_true]
  refine ⟨recordable.name, columns, directions, ?_, method, ?_,
    predicateText_free recordable.predicate⟩ <;>
    split <;> simp [Free]

/-- A line determines the index up to the equality of the planner. -/
theorem indexFields_equal (left : RecordableIndex a) (right : RecordableIndex b)
    (same : indexFields a = indexFields b) : a.eq b = true := by
  simp only [indexFields, List.cons.injEq, and_true] at same
  obtain ⟨name, columns, directions, unique, method, spatial, predicate⟩ := same
  obtain ⟨lengths, pointwise⟩ := directionsText_injective directions
  have sameColumns : a.columns = b.columns := by
    apply join_injective (fun c mem => (left.columns c mem).mono (by simp))
      (fun c mem => (right.columns c mem).mono (by simp)) _ columns
    rw [← List.length_eq_zero_iff, ← List.length_eq_zero_iff, lengths]
  have sameMethod : a.method = b.method := by
    cases first : a.method <;> cases second : b.method <;> simp_all [indexMethodText]
  have sameDirections : ∀ i < b.columns.length, a.directionAt i = b.directionAt i := by
    rw [← lengths]
    exact pointwise
  simp [IndexModel.eq, name, sameColumns, left.directions, right.directions,
    ite_injective (by simp) unique, sameMethod, ite_injective (by simp) spatial,
    predicateText_injective left.predicate right.predicate predicate]
  exact sameDirections

end Indexes

section Searches

theorem weight_free (weight : SearchWeight) : Free ['|', '\n'] weight.asStr := by
  cases weight <;> simp [Free, SearchWeight.asStr]

theorem weight_injective {v w : SearchWeight} (same : v.asStr = w.asStr) : v = w := by
  cases v <;> cases w <;> simp_all [SearchWeight.asStr]

theorem strategy_injective {s t : SearchIndexStrategy} (same : s.asStr = t.asStr) : s = t := by
  cases s <;> cases t <;> simp_all [SearchIndexStrategy.asStr]

theorem searchFieldFields_free {field : SearchFieldModel} (recordable : RecordableSearchField field) :
    ∀ text ∈ searchFieldFields field, Free ['|', '\n'] text := by
  simp only [searchFieldFields, List.forall_mem_cons, List.not_mem_nil, false_imp_iff, implies_true,
    and_true]
  exact ⟨recordable.fieldName, recordable.columnName, weight_free _, recordable.alias.free,
    recordable.policy.free⟩

theorem searchFieldFields_injective {f g : SearchFieldModel} (left : RecordableSearchField f)
    (right : RecordableSearchField g) (same : searchFieldFields f = searchFieldFields g) : f = g := by
  simp only [searchFieldFields, List.cons.injEq, and_true] at same
  obtain ⟨fieldName, columnName, weight, hidden, policy⟩ := same
  have weights := weight_injective weight
  have aliases := recordableOption_injective left.alias right.alias hidden
  have policies := recordableOption_injective left.policy right.policy policy
  cases f
  cases g
  simp_all

theorem searchJsonPathFields_free {jsonPath : SearchJsonPathModel}
    (recordable : RecordableSearchJsonPath jsonPath) :
    ∀ text ∈ searchJsonPathFields jsonPath, Free ['|', '\n'] text := by
  simp only [searchJsonPathFields, List.forall_mem_cons, List.not_mem_nil, false_imp_iff,
    implies_true, and_true]
  exact ⟨recordable.fieldName, recordable.columnName, recordable.path, weight_free _,
    recordable.policy.free⟩

theorem searchJsonPathFields_injective {f g : SearchJsonPathModel}
    (left : RecordableSearchJsonPath f) (right : RecordableSearchJsonPath g)
    (same : searchJsonPathFields f = searchJsonPathFields g) : f = g := by
  simp only [searchJsonPathFields, List.cons.injEq, and_true] at same
  obtain ⟨fieldName, columnName, path, weight, policy⟩ := same
  have weights := weight_injective weight
  have policies := recordableOption_injective left.policy right.policy policy
  cases f
  cases g
  simp_all

theorem searchRelationFields_free {relation : SearchRelationFieldModel}
    (recordable : RecordableSearchRelation relation) :
    ∀ text ∈ searchRelationFields relation, Free ['|', '\n'] text := by
  have fields : Free ['|', '\n'] (join "," relation.fields) :=
    Free.join (by simp [Free]) fun field mem => (recordable.fields field mem).mono (by simp)
  simp only [searchRelationFields, List.forall_mem_cons, List.not_mem_nil, false_imp_iff,
    implies_true, and_true]
  exact ⟨recordable.relationField, recordable.targetType, fields, weight_free _,
    free_natRepr _ (by decide), recordable.policy.free⟩

theorem searchRelationFields_injective {f g : SearchRelationFieldModel}
    (left : RecordableSearchRelation f) (right : RecordableSearchRelation g)
    (same : searchRelationFields f = searchRelationFields g) : f = g := by
  simp only [searchRelationFields, List.cons.injEq, and_true] at same
  obtain ⟨relationField, targetType, fields, weight, maxItems, policy⟩ := same
  have members := joinComma_injective left.fields right.fields left.notBlank right.notBlank fields
  have weights := weight_injective weight
  have limits := repr_inj maxItems
  have policies := recordableOption_injective left.policy right.policy policy
  cases f
  cases g
  simp_all

theorem searchIndexFields_free {index : SearchIndexModel} (recordable : RecordableSearchIndex index) :
    ∀ text ∈ searchIndexFields index, Free ['|', '\n'] text := by
  have strategy : Free ['|', '\n'] index.strategy.asStr := by
    cases index.strategy <;> simp [Free, SearchIndexStrategy.asStr]
  simp only [searchIndexFields, List.forall_mem_cons, List.not_mem_nil, false_imp_iff, implies_true,
    and_true]
  refine ⟨recordable.name, strategy, recordable.language, recordable.tokenizer,
    free_natRepr _ (by decide), ?_⟩
  split <;> simp [Free]

/-- The header of a search index with all its members, up to what is left out. -/
theorem searchIndex_equal {a b : SearchIndexModel} (same : searchIndexFields a = searchIndexFields b)
    (fields : sortBy SearchFieldModel.fieldName a.fields = sortBy SearchFieldModel.fieldName b.fields)
    (jsonPaths : sortBy jsonPathKey a.jsonPaths = sortBy jsonPathKey b.jsonPaths)
    (relations : sortBy SearchRelationFieldModel.relationField a.relations =
      sortBy SearchRelationFieldModel.relationField b.relations)
    (unrecorded : UnrecordedAgree a b) : a = b := by
  simp only [searchIndexFields, List.cons.injEq, and_true] at same
  obtain ⟨name, strategy, language, tokenizer, minTokenLen, fallback⟩ := same
  have strategies := strategy_injective strategy
  have lengths := repr_inj minTokenLen
  have fallbacks := ite_injective (by simp) fallback
  have members := sortBy_injective unrecorded.fields fields
  have paths := sortBy_injective unrecorded.jsonPaths jsonPaths
  have related := sortBy_injective unrecorded.relations relations
  obtain ⟨tableName, entityName, primaryKey, readiness, _, _, _⟩ := unrecorded
  cases a
  cases b
  simp_all

end Searches

section ForeignKeys

variable {a b : ForeignKeyModel}

theorem policy_free (policy : DeletePolicy) : Free [',', '|', '\n'] policy.asSql := by
  cases policy <;> simp [Free, DeletePolicy.asSql]

theorem policy_injective {p q : DeletePolicy} (same : p.asSql = q.asSql) : p = q := by
  cases p <;> cases q <;> simp_all [DeletePolicy.asSql]

theorem pairText_free {pair : ForeignKeyColumnPairModel}
    (source : Free ['>', ',', '|', '\n'] pair.sourceColumn)
    (target : Free [',', '|', '\n'] pair.targetColumn) : Free [',', '|', '\n'] (pairText pair) :=
  ((source.mono (by simp)).append (by simp [Free])).append target

/-- The arrow is found at the first `>`. -/
theorem pairText_injective {p q : ForeignKeyColumnPairModel}
    (left : Free ['>', ',', '|', '\n'] p.sourceColumn)
    (right : Free ['>', ',', '|', '\n'] q.sourceColumn) (same : pairText p = pairText q) : p = q := by
  have before {s : String} (free : Free ['>', ',', '|', '\n'] s) :
      ∀ c ∈ s.toList ++ ['-'], ¬c = '>' := by
    intro c mem equal
    rcases List.mem_append.mp mem with inside | dash
    · exact free c inside (equal ▸ .head _)
    · rw [equal] at dash
      simp at dash
  have shape (pair : ForeignKeyColumnPairModel) : (pairText pair).toList =
      (pair.sourceColumn.toList ++ ['-']) ++ '>' :: pair.targetColumn.toList := by
    simp [pairText]
  have lists := congrArg String.toList same
  rw [shape, shape] at lists
  obtain ⟨sources, targets⟩ := append_cut (before left) (before right) (by simp) (by simp) lists
  have source := String.toList_inj.mp (List.append_cancel_right sources)
  have target := String.toList_inj.mp (List.cons.inj targets).2
  cases p
  cases q
  simp_all

theorem foreignKeyFields_free (recordable : RecordableForeignKey a) :
    ∀ field ∈ foreignKeyFields a, Free ['|', '\n'] field := by
  have pairs : Free ['|', '\n'] (unlines ',' (a.columnPairs.map pairText)) := by
    apply unlines_free (by decide)
    intro s mem
    obtain ⟨pair, inside, rfl⟩ := List.mem_map.mp mem
    obtain ⟨source, target⟩ := recordable.columnPairs pair inside
    exact (pairText_free source target).mono (by simp)
  simp only [foreignKeyFields, List.forall_mem_cons, List.not_mem_nil, false_imp_iff, implies_true,
    and_true]
  exact ⟨recordable.targetTable, pairs.append ((policy_free _).mono (by simp))⟩

theorem foreignKeyFields_identity (left : RecordableForeignKey a) (right : RecordableForeignKey b)
    (same : foreignKeyFields a = foreignKeyFields b) : a.identity = b.identity := by
  simp only [foreignKeyFields, List.cons.injEq, and_true] at same
  obtain ⟨table, rest⟩ := same
  have free {fk : ForeignKeyModel} (recordable : RecordableForeignKey fk) :
      ∀ s ∈ fk.columnPairs.map pairText ++ [fk.onDelete.asSql], Free [','] s := by
    intro s mem
    rcases List.mem_append.mp mem with inside | last
    · obtain ⟨pair, own, rfl⟩ := List.mem_map.mp inside
      obtain ⟨source, target⟩ := recordable.columnPairs pair own
      exact (pairText_free source target).mono (by simp)
    · rw [List.mem_singleton.mp last]
      exact (policy_free _).mono (by simp)
  rw [unlines_append, unlines_append] at rest
  have parts := join_injective (free left) (free right) (by simp) rest
  obtain ⟨texts, policy⟩ := List.append_inj' parts rfl
  have policies := policy_injective (List.singleton_inj.mp policy)
  have pairs : a.columnPairs = b.columnPairs := by
    rw [← List.forall₂_eq_eq_eq]
    exact forall₂_of_map_eq left.columnPairs right.columnPairs
      (fun _ _ source source' => pairText_injective source.1 source'.1) texts
  rw [ForeignKeyModel.identity, ForeignKeyModel.identity, pairs, table, policies]

end ForeignKeys

end GraphqlOrm.Migration
