import GraphqlOrm.Migration.HashFields

/-!
# The hash and the diff

Equal hash texts leave nothing to migrate when both schemas can be read back and
their search indexes agree in what the text leaves out. The text falls into lines,
the lines into blocks of tables, and a block into the parts of its table; each
part determines what the planner compares.
-/
namespace GraphqlOrm.Migration

open Schema Text OrderedMap

/-! ### Kinds of lines -/

def lineTag (line : String) : String := String.ofList (line.toList.takeWhile (· ≠ ':'))

def tagKind (tag : String) : String :=
  if "search_".toList.isPrefixOf tag.toList then "search" else tag

def lineKind (line : String) : String := tagKind (lineTag line)

variable {tag : String}

theorem lineTag_taggedLine (free : Free [':'] tag) (fields : List String) :
    lineTag (taggedLine tag fields) = tag := by
  have before : ∀ c ∈ tag.toList, decide (c ≠ ':') = true := by
    intro c mem
    simpa using fun equal : c = ':' => free c mem (equal ▸ .head _)
  have shape : (taggedLine tag fields).toList = tag.toList ++ ':' :: (join "|" fields).toList := by
    simp [taggedLine]
  rw [lineTag, shape, List.takeWhile_append_of_pos before]
  simp

theorem lineKind_taggedLine {kind : String} (free : Free [':'] tag) (known : tagKind tag = kind)
    (fields : List String) : lineKind (taggedLine tag fields) = kind := by
  rw [lineKind, lineTag_taggedLine free, known]

theorem mapped_tag {α : Type} {f : α → List String} {xs : List α} (free : Free [':'] tag) :
    ∀ line ∈ xs.map fun x => taggedLine tag (f x), lineTag line = tag := by
  intro line mem
  obtain ⟨x, _, rfl⟩ := List.mem_map.mp mem
  exact lineTag_taggedLine free _

theorem mapped_kind {α : Type} {kind : String} {f : α → List String} {xs : List α}
    (free : Free [':'] tag) (known : tagKind tag = kind) :
    ∀ line ∈ xs.map fun x => taggedLine tag (f x), lineKind line = kind := by
  intro line mem
  rw [lineKind, mapped_tag free line mem, known]

theorem searchIndexLines_kind (index : SearchIndexModel) :
    ∀ line ∈ searchIndexLines index, lineKind line = "search" := by
  simp only [searchIndexLines, List.forall_mem_cons, List.forall_mem_append]
  refine ⟨lineKind_taggedLine (by simp [Free]) rfl _, ⟨?_, ?_⟩, ?_⟩
  · exact mapped_kind (by simp [Free]) rfl
  · exact mapped_kind (by simp [Free]) rfl
  · exact mapped_kind (by simp [Free]) rfl

theorem searchLines_kind (indexes : List SearchIndexModel) :
    ∀ line ∈ searchLines indexes, lineKind line = "search" := by
  intro line mem
  obtain ⟨index, _, inside⟩ := List.mem_flatMap.mp mem
  exact searchIndexLines_kind index line inside

/-- The lines of a table after its header, by kind. -/
theorem tableLines_tail (table : TableModel) :
    ∃ rest, tableLines table = taggedLine "table" (tableFields table) :: rest ∧
      (∀ line ∈ rest, lineKind line ≠ "table" ∧ lineKind line ≠ "extension") ∧
      rest.filter (fun line => lineKind line = "check") = checkLines table.checkConstraints ∧
      rest.filter (fun line => lineKind line = "column") = columnLines table.columns ∧
      rest.filter (fun line => lineKind line = "index") = indexLines table.indexes ∧
      rest.filter (fun line => lineKind line = "search") = searchLines table.searchIndexes ∧
      rest.filter (fun line => lineKind line = "foreign_key") =
        foreignKeyLines table.foreignKeys := by
  have checks : ∀ line ∈ checkLines table.checkConstraints, lineKind line = "check" :=
    mapped_kind (by simp [Free]) rfl
  have columns : ∀ line ∈ columnLines table.columns, lineKind line = "column" :=
    mapped_kind (by simp [Free]) rfl
  have indexes : ∀ line ∈ indexLines table.indexes, lineKind line = "index" :=
    mapped_kind (by simp [Free]) rfl
  have searches := searchLines_kind table.searchIndexes
  have foreignKeys : ∀ line ∈ foreignKeyLines table.foreignKeys, lineKind line = "foreign_key" :=
    mapped_kind (by simp [Free]) rfl
  refine ⟨_, rfl, ?_, ?_⟩
  · intro line mem
    simp only [List.mem_append] at mem
    rcases mem with (((inside | inside) | inside) | inside) | inside
    · simp [checks line inside]
    · simp [columns line inside]
    · simp [indexes line inside]
    · simp [searches line inside]
    · simp [foreignKeys line inside]
  · simp only [List.filter_append, filter_kind checks, filter_kind columns, filter_kind indexes,
      filter_kind searches, filter_kind foreignKeys]
    simp

/-! ### The parts of a table -/

/-- Lines of one tag, read element by element. -/
theorem taggedLines_related {α : Type} {f : α → List String} {P : α → Prop} {R : α → α → Prop}
    {xs ys : List α} (left : ∀ x ∈ xs, P x) (right : ∀ y ∈ ys, P y)
    (free : ∀ x, P x → ∀ field ∈ f x, Free ['|', '\n'] field) (some : ∀ x, f x ≠ [])
    (read : ∀ x y, P x → P y → f x = f y → R x y)
    (same : (xs.map fun x => taggedLine tag (f x)) = ys.map fun y => taggedLine tag (f y)) :
    List.Forall₂ R xs ys := by
  refine forall₂_of_map_eq left right (fun x y here there equal => ?_) same
  exact read x y here there (taggedLine_injective (free x here) (free y there)
    (iff_of_false (some x) (some y)) equal)

/-- What the lines of a search index record. -/
structure SameRecord (a b : SearchIndexModel) : Prop where
  header : searchIndexFields a = searchIndexFields b
  fields : sortBy SearchFieldModel.fieldName a.fields = sortBy SearchFieldModel.fieldName b.fields
  jsonPaths : sortBy jsonPathKey a.jsonPaths = sortBy jsonPathKey b.jsonPaths
  relations : sortBy SearchRelationFieldModel.relationField a.relations =
    sortBy SearchRelationFieldModel.relationField b.relations

/-- The lines of a search index after its header, by tag. -/
theorem searchIndexLines_tail (index : SearchIndexModel) :
    ∃ rest, searchIndexLines index = taggedLine "search_index" (searchIndexFields index) :: rest ∧
      (∀ line ∈ rest, lineTag line ≠ "search_index") ∧
      rest.filter (fun line => lineTag line = "search_field") =
        (sortBy SearchFieldModel.fieldName index.fields).map (fun field =>
          taggedLine "search_field" (searchFieldFields field)) ∧
      rest.filter (fun line => lineTag line = "search_json_path") =
        (sortBy jsonPathKey index.jsonPaths).map (fun jsonPath =>
          taggedLine "search_json_path" (searchJsonPathFields jsonPath)) ∧
      rest.filter (fun line => lineTag line = "search_relation") =
        (sortBy SearchRelationFieldModel.relationField index.relations).map fun relation =>
          taggedLine "search_relation" (searchRelationFields relation) := by
  have fields : ∀ line ∈ (sortBy SearchFieldModel.fieldName index.fields).map (fun field =>
      taggedLine "search_field" (searchFieldFields field)), lineTag line = "search_field" :=
    mapped_tag (by simp [Free])
  have jsonPaths : ∀ line ∈ (sortBy jsonPathKey index.jsonPaths).map (fun jsonPath =>
      taggedLine "search_json_path" (searchJsonPathFields jsonPath)),
      lineTag line = "search_json_path" :=
    mapped_tag (by simp [Free])
  have relations : ∀ line ∈ (sortBy SearchRelationFieldModel.relationField index.relations).map
      (fun relation => taggedLine "search_relation" (searchRelationFields relation)),
      lineTag line = "search_relation" :=
    mapped_tag (by simp [Free])
  refine ⟨_, rfl, ?_, ?_⟩
  · intro line mem
    rcases List.mem_append.mp mem with first | inside
    · rcases List.mem_append.mp first with inside | inside
      · simp [fields line inside]
      · simp [jsonPaths line inside]
    · simp [relations line inside]
  · simp only [List.filter_append, filter_kind fields, filter_kind jsonPaths, filter_kind relations]
    simp

theorem searchIndexLines_block (index : SearchIndexModel) :
    IsBlock (fun line => lineTag line = "search_index") (searchIndexLines index) := by
  obtain ⟨rest, shape, others, _⟩ := searchIndexLines_tail index
  exact ⟨_, rest, shape, lineTag_taggedLine (by simp [Free]) _, others⟩

theorem searchIndexLines_injective {a b : SearchIndexModel} (left : RecordableSearchIndex a)
    (right : RecordableSearchIndex b) (same : searchIndexLines a = searchIndexLines b) :
    SameRecord a b := by
  obtain ⟨rest, shape, _, fields, jsonPaths, relations⟩ := searchIndexLines_tail a
  obtain ⟨rest', shape', _, fields', jsonPaths', relations'⟩ := searchIndexLines_tail b
  rw [shape, shape', List.cons.injEq] at same
  obtain ⟨header, rfl⟩ := same
  rw [fields] at fields'
  rw [jsonPaths] at jsonPaths'
  rw [relations] at relations'
  constructor
  · exact taggedLine_injective (searchIndexFields_free left) (searchIndexFields_free right)
      (by simp [searchIndexFields]) header
  · rw [← List.forall₂_eq_eq_eq]
    exact taggedLines_related (fun x mem => left.fields x (mem_sortBy.mp mem))
      (fun y mem => right.fields y (mem_sortBy.mp mem)) (fun _ => searchFieldFields_free)
      (by simp [searchFieldFields]) (fun _ _ => searchFieldFields_injective) fields'
  · rw [← List.forall₂_eq_eq_eq]
    exact taggedLines_related (fun x mem => left.jsonPaths x (mem_sortBy.mp mem))
      (fun y mem => right.jsonPaths y (mem_sortBy.mp mem)) (fun _ => searchJsonPathFields_free)
      (by simp [searchJsonPathFields]) (fun _ _ => searchJsonPathFields_injective) jsonPaths'
  · rw [← List.forall₂_eq_eq_eq]
    exact taggedLines_related (fun x mem => left.relations x (mem_sortBy.mp mem))
      (fun y mem => right.relations y (mem_sortBy.mp mem)) (fun _ => searchRelationFields_free)
      (by simp [searchRelationFields]) (fun _ _ => searchRelationFields_injective) relations'

theorem perm_of_sorted {ss ts : List String}
    (sorted : ss.insertionSort (· ≤ ·) = ts.insertionSort (· ≤ ·)) : ss.Perm ts :=
  (List.perm_insertionSort _ ss).symm.trans (sorted ▸ List.perm_insertionSort (· ≤ ·) ts)

/-! ### Check constraints -/

def readTokens (text : String) : List String :=
  if text = "" then [] else (text.toList.splitOn '|').map String.ofList

theorem readTokens_join {tokens : List String} (free : ∀ token ∈ tokens, Free ['|', '\n'] token)
    (notBlank : tokens ≠ [""]) : readTokens (join "|" tokens) = tokens := by
  unfold readTokens
  split
  next blank => exact (join_eq_empty notBlank blank).symm
  next text =>
    have some : tokens ≠ [] := by
      rintro rfl
      exact text rfl
    have absent : ∀ l ∈ tokens.map String.toList, '|' ∉ l := by
      intro l mem inside
      obtain ⟨token, own, rfl⟩ := List.mem_map.mp mem
      exact free token own '|' inside (.head _)
    have shape : (join "|" tokens).toList = List.intercalate ['|'] (tokens.map String.toList) :=
      toList_join '|' tokens
    rw [shape, List.splitOn_intercalate '|' absent (by simpa using some), List.map_map]
    simp [Function.comp_def]

/-- The checks are compared as the tokens that the sorted texts carry. -/
theorem canonicalChecks_eq {constraints : List CheckConstraintModel}
    (recordable : ∀ constraint ∈ constraints, RecordableCheck constraint) :
    canonicalChecks constraints =
      some (((constraints.map checkText).map readTokens).insertionSort (· ≤ ·)) := by
  have tokens : constraints.mapM (fun constraint => canonicalCheckTokens constraint.expression) =
      some ((constraints.map checkText).map readTokens) := by
    induction constraints with
    | nil => rfl
    | cons constraint rest ih =>
      obtain ⟨found, scanned, free, notBlank⟩ := recordable constraint (.head _)
      have others := ih fun c mem => recordable c (.tail _ mem)
      rw [List.mapM_cons, others, scanned]
      simp [checkText, scanned, readTokens_join free notBlank]
  rw [canonicalChecks, tokens]
  rfl

section Parts

variable {a b : TableModel} (left : RecordableTable a) (right : RecordableTable b)
include left right

theorem tableLine_agrees
    (same : taggedLine "table" (tableFields a) = taggedLine "table" (tableFields b)) :
    a.tableName = b.tableName ∧ a.appendOnly = b.appendOnly ∧ a.retentionPurge = b.retentionPurge := by
  have fields := taggedLine_injective (tableFields_free left) (tableFields_free right)
    (by simp [tableFields]) same
  simp only [tableFields, List.cons_append, List.nil_append, List.cons.injEq] at fields
  obtain ⟨_, tableName, _, _, _, appendOnly, purge⟩ := fields
  refine ⟨tableName, ite_injective (by simp) appendOnly, ?_⟩
  cases first : a.retentionPurge <;> cases second : b.retentionPurge <;> simp_all

theorem columnLines_agree (same : columnLines a.columns = columnLines b.columns)
    (backend : DatabaseBackend) (equivalence : DefaultEquivalence) :
    MapsAgree (fun before after => columnChangedWith backend before after equivalence = false)
      (collectBy ColumnModel.name a.columns) (collectBy ColumnModel.name b.columns) := by
  apply get?_collectBy_sorted
  exact taggedLines_related (fun x mem => left.columns x (mem_sortBy.mp mem))
    (fun y mem => right.columns y (mem_sortBy.mp mem)) (fun _ => columnFields_free)
    (by simp [columnFields])
    (fun x y here there equal => ⟨(List.cons.inj equal).1,
      columnFields_unchanged here there equal backend equivalence⟩) same

theorem indexLines_agree (same : indexLines a.indexes = indexLines b.indexes) :
    MapsAgree (fun before after => before.eq after = true) (collectBy IndexModel.name a.indexes)
      (collectBy IndexModel.name b.indexes) := by
  apply get?_collectBy_sorted
  exact taggedLines_related (fun x mem => left.indexes x (mem_sortBy.mp mem))
    (fun y mem => right.indexes y (mem_sortBy.mp mem)) (fun _ => indexFields_free)
    (by simp [indexFields])
    (fun x y here there equal => ⟨(List.cons.inj equal).1, indexFields_equal here there equal⟩) same

/-- Foreign keys of each identity are counted alike. -/
theorem foreignKeyLines_agree
    (same : foreignKeyLines a.foreignKeys = foreignKeyLines b.foreignKeys)
    (identity : ForeignKeyIdentity) :
    identityCount a.foreignKeys identity = identityCount b.foreignKeys identity := by
  have related : List.Forall₂ (fun x y => x.identity = y.identity)
      (sortBy ForeignKeyModel.identity a.foreignKeys)
      (sortBy ForeignKeyModel.identity b.foreignKeys) :=
    taggedLines_related (fun x mem => left.foreignKeys x (mem_sortBy.mp mem))
      (fun y mem => right.foreignKeys y (mem_sortBy.mp mem)) (fun _ => foreignKeyFields_free)
      (by simp [foreignKeyFields]) (fun x y => foreignKeyFields_identity) same
  have counted (fks : List ForeignKeyModel) : identityCount fks identity =
      ((sortBy ForeignKeyModel.identity fks).map (·.identity)).count identity := by
    rw [((sortBy_perm ForeignKeyModel.identity fks).map _).count_eq, identityCount, List.count,
      List.countP_map, List.countP_eq_length_filter]
    congr 1
  have identities : (sortBy ForeignKeyModel.identity a.foreignKeys).map (·.identity) =
      (sortBy ForeignKeyModel.identity b.foreignKeys).map (·.identity) := by
    rwa [← List.forall₂_eq_eq_eq, List.forall₂_map_left_iff, List.forall₂_map_right_iff]
  rw [counted, counted, identities]

/-- Search indexes that agree in what is left out are equal. -/
theorem searchLines_agree (same : searchLines a.searchIndexes = searchLines b.searchIndexes)
    (unrecorded : ∀ name index index',
      (collectBy SearchIndexModel.name a.searchIndexes).get? name = some index →
      (collectBy SearchIndexModel.name b.searchIndexes).get? name = some index' →
      UnrecordedAgree index index') :
    MapsAgree Eq (collectBy SearchIndexModel.name a.searchIndexes)
      (collectBy SearchIndexModel.name b.searchIndexes) := by
  have blocks := flatMap_blocks (fun x _ => searchIndexLines_block x)
    (fun y _ => searchIndexLines_block y) same
  have related : List.Forall₂ (fun x y => x.name = y.name ∧ SameRecord x y)
      (sortBy SearchIndexModel.name a.searchIndexes)
      (sortBy SearchIndexModel.name b.searchIndexes) :=
    forall₂_of_map_eq (fun x mem => left.searchIndexes x (mem_sortBy.mp mem))
      (fun y mem => right.searchIndexes y (mem_sortBy.mp mem))
      (fun x y here there equal => by
        have record := searchIndexLines_injective here there equal
        exact ⟨(List.cons.inj record.header).1, record⟩) blocks
  intro name
  apply rel_imp (get?_collectBy_sorted related name)
  intro index index' stored stored' record
  exact searchIndex_equal record.header record.fields record.jsonPaths record.relations
    (unrecorded name index index' stored stored')

theorem checkLines_agree (same : checkLines a.checkConstraints = checkLines b.checkConstraints) :
    checkConstraintsEquivalent a.checkConstraints b.checkConstraints = true := by
  have texts : (a.checkConstraints.map checkText).insertionSort (· ≤ ·) =
      (b.checkConstraints.map checkText).insertionSort (· ≤ ·) := by
    refine List.map_injective_iff.mpr (fun s t equal => ?_) same
    simpa [taggedLine, join] using equal
  have perm := (perm_of_sorted texts).map readTokens
  have values : ((a.checkConstraints.map checkText).map readTokens).insertionSort (· ≤ ·) =
      ((b.checkConstraints.map checkText).map readTokens).insertionSort (· ≤ ·) :=
    ((List.perm_insertionSort _ _).trans (perm.trans (List.perm_insertionSort _ _).symm)).eq_of_pairwise'
      (List.pairwise_insertionSort _ _) (List.pairwise_insertionSort _ _)
  rw [checkConstraintsEquivalent, canonicalChecks_eq left.checkConstraints,
    canonicalChecks_eq right.checkConstraints, values]
  simp

end Parts

/-! ### Whole schemas -/

theorem tableLines_block (table : TableModel) :
    IsBlock (fun line => lineKind line = "table") (tableLines table) := by
  obtain ⟨rest, shape, others, _⟩ := tableLines_tail table
  exact ⟨_, rest, shape, lineKind_taggedLine (by simp [Free]) rfl _,
    fun line mem => (others line mem).1⟩

theorem mapped_free {α : Type} {f : α → List String} {xs : List α} (own : Free ['\n'] tag)
    (fields : ∀ x ∈ xs, ∀ field ∈ f x, Free ['|', '\n'] field) :
    ∀ line ∈ xs.map fun x => taggedLine tag (f x), Free ['\n'] line := by
  intro line mem
  obtain ⟨x, inside, rfl⟩ := List.mem_map.mp mem
  exact taggedLine_free own (fields x inside)

theorem checkLines_free {constraints : List CheckConstraintModel}
    (recordable : ∀ constraint ∈ constraints, RecordableCheck constraint) :
    ∀ line ∈ checkLines constraints, Free ['\n'] line := by
  intro line mem
  obtain ⟨text, listed, rfl⟩ := List.mem_map.mp mem
  rw [List.mem_insertionSort] at listed
  obtain ⟨constraint, own, rfl⟩ := List.mem_map.mp listed
  obtain ⟨tokens, scanned, free, _⟩ := recordable constraint own
  have text : Free ['\n'] (checkText constraint) := by
    rw [checkText, scanned, Option.map_some, Option.getD_some]
    exact Free.join (by simp [Free]) fun token inside => (free token inside).mono (by simp)
  have opening : Free ['\n'] ("check" ++ ":") := by simp [Free]
  exact opening.append text

theorem searchIndexLines_free {index : SearchIndexModel} (recordable : RecordableSearchIndex index) :
    ∀ line ∈ searchIndexLines index, Free ['\n'] line := by
  simp only [searchIndexLines, List.forall_mem_cons, List.forall_mem_append]
  refine ⟨taggedLine_free (by simp [Free]) (searchIndexFields_free recordable), ⟨?_, ?_⟩, ?_⟩
  · exact mapped_free (by simp [Free]) fun x mem =>
      searchFieldFields_free (recordable.fields x (mem_sortBy.mp mem))
  · exact mapped_free (by simp [Free]) fun x mem =>
      searchJsonPathFields_free (recordable.jsonPaths x (mem_sortBy.mp mem))
  · exact mapped_free (by simp [Free]) fun x mem =>
      searchRelationFields_free (recordable.relations x (mem_sortBy.mp mem))

theorem tableLines_free {table : TableModel} (recordable : RecordableTable table) :
    ∀ line ∈ tableLines table, Free ['\n'] line := by
  simp only [tableLines, List.forall_mem_cons, List.forall_mem_append]
  refine ⟨taggedLine_free (by simp [Free]) (tableFields_free recordable),
    ⟨⟨⟨checkLines_free recordable.checkConstraints, ?_⟩, ?_⟩, ?_⟩, ?_⟩
  · exact mapped_free (by simp [Free]) fun x mem =>
      columnFields_free (recordable.columns x (mem_sortBy.mp mem))
  · exact mapped_free (by simp [Free]) fun x mem =>
      indexFields_free (recordable.indexes x (mem_sortBy.mp mem))
  · intro line mem
    obtain ⟨index, listed, inside⟩ := List.mem_flatMap.mp mem
    exact searchIndexLines_free (recordable.searchIndexes index (mem_sortBy.mp listed)) line inside
  · exact mapped_free (by simp [Free]) fun x mem =>
      foreignKeyFields_free (recordable.foreignKeys x (mem_sortBy.mp mem))

/-- No line of a schema that can be read back contains a line break. -/
theorem canonicalLines_free {schema : SchemaModel} (recordable : RecordableSchema schema) :
    ∀ line ∈ canonicalLines schema, Free ['\n'] line := by
  simp only [canonicalLines, List.forall_mem_append]
  constructor
  · apply mapped_free (by simp [Free])
    intro extension mem
    rw [List.mem_insertionSort] at mem
    simpa using recordable.extensions extension mem
  · intro line mem
    obtain ⟨table, listed, inside⟩ := List.mem_flatMap.mp mem
    exact tableLines_free (recordable.tables table (mem_sortBy.mp listed)) line inside

/-- The lines of a table determine what the planner compares. -/
theorem tableLines_agree {a b : TableModel} (left : RecordableTable a) (right : RecordableTable b)
    (same : tableLines a = tableLines b)
    (unrecorded : ∀ name index index',
      (collectBy SearchIndexModel.name a.searchIndexes).get? name = some index →
      (collectBy SearchIndexModel.name b.searchIndexes).get? name = some index' →
      UnrecordedAgree index index') (backend : DatabaseBackend) (equivalence : DefaultEquivalence) :
    TableAgrees backend equivalence a b := by
  obtain ⟨rest, shape, _, checks, columns, indexes, searches, foreignKeys⟩ := tableLines_tail a
  obtain ⟨rest', shape', _, checks', columns', indexes', searches', foreignKeys'⟩ :=
    tableLines_tail b
  rw [shape, shape', List.cons.injEq] at same
  obtain ⟨header, rfl⟩ := same
  obtain ⟨_, appendOnly, retentionPurge⟩ := tableLine_agrees left right header
  constructor
  · exact columnLines_agree left right (columns.symm.trans columns') backend equivalence
  · exact indexLines_agree left right (indexes.symm.trans indexes')
  · exact searchLines_agree left right (searches.symm.trans searches') unrecorded
  · exact foreignKeyLines_agree left right (foreignKeys.symm.trans foreignKeys')
  · exact appendOnly
  · exact retentionPurge
  · exact checkLines_agree left right (checks.symm.trans checks')

/-- Equal texts have equal extensions and, table by table, equal lines. -/
theorem canonicalText_parts {a b : SchemaModel} (left : RecordableSchema a)
    (right : RecordableSchema b) (same : canonicalText a = canonicalText b) :
    a.extensions.Perm b.extensions ∧
      (sortBy TableModel.tableName a.tables).map tableLines =
        (sortBy TableModel.tableName b.tables).map tableLines := by
  have lines := unlines_injective (canonicalLines_free left) (canonicalLines_free right) same
  have early (extensions : List String) :
      ∀ line ∈ extensionLines extensions, ¬lineKind line = "table" := by
    intro line mem
    rw [mapped_kind (by simp [Free]) rfl line mem]
    decide
  -- The first table line ends the extensions.
  obtain ⟨extensions, tables⟩ := append_cut (early a.extensions) (early b.extensions)
    (head?_flatMap_blocks fun x _ => tableLines_block x)
    (head?_flatMap_blocks fun y _ => tableLines_block y) lines
  constructor
  · apply perm_of_sorted
    refine List.map_injective_iff.mpr (fun s t equal => ?_) extensions
    simpa [taggedLine, join] using equal
  · exact flatMap_blocks (fun x _ => tableLines_block x) (fun y _ => tableLines_block y) tables

/-- Equal hash texts of schemas that can be read back leave nothing to migrate
exactly when the search indexes agree in what the text leaves out. -/
theorem canonicalText_agrees_iff (a b : SchemaModel) (left : RecordableSchema a)
    (right : RecordableSchema b) (same : canonicalText a = canonicalText b) :
    (∀ backend, diffSchemaViews backend a b = []) ↔ SearchesAgree a b := by
  constructor
  · intro silent tableName table table' stored stored' name index index' found found'
    have agree := (diff_eq_nil.mp (silent .sqlite)).tables tableName
    rw [stored, stored'] at agree
    cases agree with
    | some tables =>
      have equal := mapsAgree_eq_iff.mp tables.searchIndexes name
      rw [found, found'] at equal
      cases equal
      exact ⟨rfl, rfl, rfl, rfl, rfl, rfl, rfl⟩
  · intro searches backend
    obtain ⟨extensions, tables⟩ := canonicalText_parts left right same
    have related : List.Forall₂ (fun x y => x.tableName = y.tableName ∧ RecordableTable x ∧
        RecordableTable y ∧ tableLines x = tableLines y) (sortBy TableModel.tableName a.tables)
        (sortBy TableModel.tableName b.tables) := by
      apply forall₂_of_map_eq (fun x mem => left.tables x (mem_sortBy.mp mem))
        (fun y mem => right.tables y (mem_sortBy.mp mem)) _ tables
      intro x y here there equal
      have header := (List.cons.inj equal).1
      exact ⟨(tableLine_agrees here there header).1, here, there, equal⟩
    rw [diffSchemaViews, diff_eq_nil]
    constructor
    · intro extension wanted
      exact List.mem_map.mpr ⟨extension, extensions.mem_iff.mpr wanted, rfl⟩
    · intro name
      apply rel_imp (get?_collectBy_sorted related name)
      rintro table table' stored stored' ⟨here, there, equal⟩
      exact tableLines_agree here there equal (searches name table table' stored stored') backend
        .pinned8e1

/-- Tickets with their columns in some order, and an index over some states. -/
def tickets (columns : List ColumnModel) (states : List String) : SchemaModel where
  tables := [{
    tableName := "tickets", primaryKey := "id", columns
    indexes := [{ name := "idx_open", columns := ["state"], predicate := some ⟨"state", states⟩ }]
    searchIndexes := [titles] }]
where
  titles : SearchIndexModel :=
    { name := "search_tickets", tableName := "tickets", entityName := "Ticket", primaryKey := "id"
      strategy := .fallbackTable, language := "english", tokenizer := "unicode61", minTokenLen := 2
      fallbackEnabled := true
      fields := [{ fieldName := "state", columnName := "state", weight := .a }] }

def ticketId : ColumnModel := { name := "id", sqlType := "TEXT", isPrimaryKey := true }

def ticketState : ColumnModel := { name := "state", sqlType := "TEXT", default := some "'new'" }

theorem canonicalText_tickets (columns : List ColumnModel) (states : List String) :
    canonicalText (tickets columns states) = unlines '\n'
      (taggedLine "table" ["", "tickets", "id", "id", "", "mutable"] ::
        (columnLines columns ++
          [taggedLine "index" ["idx_open", "state", "ASC,", "index", "default", "not_spatial",
            predicateText (some ⟨"state", states⟩)]] ++
          searchLines [tickets.titles])) := by
  have directions (predicate : Option IndexPredicateModel) : directionsText
      { name := "idx_open", columns := ["state"], predicate } = "ASC," := by
    simp [directionsText, IndexModel.directionAt, IndexDirection.asSql, unlines]
  simp [canonicalText, canonicalLines, tickets, sortBy, tableLines, extensionLines, checkLines,
    indexLines, indexFields, indexMethodText, directions, foreignKeyLines, tableFields,
    TableModel.primaryKeyColumns, join]

/-- One state with a comma reads like two states, and the planner tells them apart. -/
theorem canonicalText_fails_tickets :
    (tickets [ticketId, ticketState] ["new,open"]).validatePhysicalContract = .ok () ∧
    (tickets [ticketId, ticketState] ["new", "open"]).validatePhysicalContract = .ok () ∧
    canonicalText (tickets [ticketId, ticketState] ["new,open"]) =
      canonicalText (tickets [ticketId, ticketState] ["new", "open"]) ∧
    diffSchemaViews .sqlite (tickets [ticketId, ticketState] ["new,open"])
      (tickets [ticketId, ticketState] ["new", "open"]) ≠ [] := by
  refine ⟨rfl, rfl, ?_, by decide⟩
  have states : predicateText (some ⟨"state", ["new,open"]⟩) =
      predicateText (some ⟨"state", ["new", "open"]⟩) := rfl
  rw [canonicalText_tickets, canonicalText_tickets, states]

theorem ticketColumns_recordable :
    RecordableColumn ticketId ∧ RecordableColumn ticketState := by
  refine ⟨⟨by simp [Free, ticketId], by simp [Free, ticketId], ?_⟩,
    ⟨by simp [Free, ticketState], by simp [Free, ticketState], ?_⟩⟩
  · rintro expression ⟨⟩
  · rintro expression ⟨⟩
    decide

theorem tickets_recordable {columns : List ColumnModel}
    (each : ∀ column ∈ columns, RecordableColumn column) :
    RecordableSchema (tickets columns ["new"]) := by
  have index : RecordableIndex
      { name := "idx_open", columns := ["state"], predicate := some ⟨"state", ["new"]⟩ } := by
    refine ⟨by simp [Free], ?_, rfl, ?_⟩
    · simp only [List.forall_mem_singleton]
      simp [Free]
    · rintro predicate ⟨⟩
      refine ⟨by simp [Free], ?_, by simp⟩
      simp only [List.forall_mem_singleton]
      simp [Free]
  have search : RecordableSearchIndex tickets.titles := by
    refine ⟨by simp [Free, tickets.titles], by simp [Free, tickets.titles],
      by simp [Free, tickets.titles], ?_, by simp [tickets.titles],
      by simp [tickets.titles]⟩
    simp only [tickets.titles, List.forall_mem_singleton]
    exact ⟨by simp [Free], by simp [Free], by simp [RecordableOption], by simp [RecordableOption]⟩
  refine ⟨by simp [tickets], ?_⟩
  simp only [tickets, List.forall_mem_singleton]
  have blank : Free ['|', '\n'] "" := by simp [Free]
  have name : Free ['|', '\n'] "tickets" := by simp [Free]
  have key : Free ['|', '\n'] "id" := by simp [Free]
  refine ⟨blank, name, key, ?_, blank, by simp, each, by simpa using index, by simpa using search,
    by simp⟩
  simpa [TableModel.primaryKeyColumns] using key

/-- The order of the columns leaves no trace in the text and nothing to migrate. -/
theorem canonicalText_agrees_tickets :
    diffSchemaViews .sqlite (tickets [ticketId, ticketState] ["new"])
      (tickets [ticketState, ticketId] ["new"]) = [] ∧
    diffSchemaViews .postgres (tickets [ticketId, ticketState] ["new"])
      (tickets [ticketState, ticketId] ["new"]) = [] := by
  obtain ⟨first, second⟩ := ticketColumns_recordable
  have sorted : sortBy ColumnModel.name [ticketId, ticketState] =
      sortBy ColumnModel.name [ticketState, ticketId] := by decide
  have same : canonicalText (tickets [ticketId, ticketState] ["new"]) =
      canonicalText (tickets [ticketState, ticketId] ["new"]) := by
    rw [canonicalText_tickets, canonicalText_tickets, columnLines, columnLines, sorted]
  have agrees := (canonicalText_agrees_iff _ _ (tickets_recordable (by simp [first, second]))
    (tickets_recordable (by simp [first, second])) same).mpr (by
      intro tableName table table' stored stored' name index index' found found'
      obtain ⟨mem, _⟩ := get?_collectBy_some stored
      obtain ⟨mem', _⟩ := get?_collectBy_some stored'
      simp only [tickets, List.mem_singleton] at mem mem'
      subst mem mem'
      cases found.symm.trans found'
      exact ⟨rfl, rfl, rfl, rfl, rfl, rfl, rfl⟩)
  exact ⟨agrees .sqlite, agrees .postgres⟩

end GraphqlOrm.Migration
