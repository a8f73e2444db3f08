import GraphqlOrm.Migration.SchemaHash

/-!
# The hash does not see the order of a schema

Every collection of a schema is sorted before it is written down. What is written depends on the
order of a collection only where two of its members have one sort key and different lines.
-/
namespace GraphqlOrm.Migration

open Schema Text

/-! ### Rearrangements -/

def Rearranges {α : Type} (same : α → α → Prop) (xs ys : List α) : Prop :=
  ∃ zs, List.Forall₂ same xs zs ∧ zs.Perm ys

theorem Rearranges.map_perm {α β : Type} {same : α → α → Prop} {xs ys : List α} {f : α → β}
    (rearranges : Rearranges same xs ys) (each : ∀ x ∈ xs, ∀ y, same x y → f x = f y) :
    (xs.map f).Perm (ys.map f) := by
  obtain ⟨zs, related, perm⟩ := rearranges
  have equal : xs.map f = zs.map f := by
    clear perm
    induction related with
    | nil => rfl
    | cons here _ ih =>
      rw [List.map_cons, List.map_cons, each _ (.head _) _ here,
        ih fun x mem => each x (.tail _ mem)]
  rw [equal]
  exact perm.map f

/-- Absent directions stand for ascending ones. -/
inductive SameDirections (columns : List String) :
    List IndexDirection → List IndexDirection → Prop where
  | equal (directions : List IndexDirection) : SameDirections columns directions directions
  | spelled : SameDirections columns [] (List.replicate columns.length .asc)
  | omitted : SameDirections columns (List.replicate columns.length .asc) []

def SameIndex (index other : IndexModel) : Prop :=
  SameDirections index.columns index.columnDirections other.columnDirections ∧
    other = { index with columnDirections := other.columnDirections }

structure SearchRearranged (index other : SearchIndexModel) : Prop where
  fields : index.fields.Perm other.fields
  jsonPaths : index.jsonPaths.Perm other.jsonPaths
  relations : index.relations.Perm other.relations
  rest : other = { index with
    fields := other.fields, jsonPaths := other.jsonPaths, relations := other.relations }

structure TableRearranged (table other : TableModel) : Prop where
  columns : table.columns.Perm other.columns
  indexes : Rearranges SameIndex table.indexes other.indexes
  searchIndexes : Rearranges SearchRearranged table.searchIndexes other.searchIndexes
  foreignKeys : table.foreignKeys.Perm other.foreignKeys
  checkConstraints : table.checkConstraints.Perm other.checkConstraints
  rest : other = { table with
    columns := other.columns, indexes := other.indexes, searchIndexes := other.searchIndexes
    foreignKeys := other.foreignKeys, checkConstraints := other.checkConstraints }

structure SchemaRearranged (schema other : SchemaModel) : Prop where
  extensions : schema.extensions.Perm other.extensions
  tables : Rearranges TableRearranged schema.tables other.tables

/-! ### Names -/

/-- JSON paths of one field and path are one entry, and so are relations of one name. -/
structure SearchNamed (index : SearchIndexModel) : Prop where
  fields : (index.fields.map SearchFieldModel.fieldName).Nodup
  jsonPaths : ∀ a ∈ index.jsonPaths, ∀ b ∈ index.jsonPaths, jsonPathKey a = jsonPathKey b → a = b
  relations : ∀ a ∈ index.relations, ∀ b ∈ index.relations,
    a.relationField = b.relationField → a = b

structure TableDistinct (table : TableModel) : Prop where
  columns : (table.columns.map ColumnModel.name).Nodup
  indexes : (table.indexes.map IndexModel.name).Nodup
  searchIndexes : (table.searchIndexes.map SearchIndexModel.name).Nodup
  searched : ∀ index ∈ table.searchIndexes, SearchNamed index
  foreignKeys : (table.foreignKeys.map ForeignKeyModel.identity).Nodup

structure SchemaDistinct (schema : SchemaModel) : Prop where
  tables : (schema.tables.map TableModel.tableName).Nodup
  each : ∀ table ∈ schema.tables, TableDistinct table

/-! ### Lines -/

/-- Distinct keys determine what is written under them. -/
theorem eq_of_key {α κ : Type} {key : α → κ} {xs : List α} (distinct : (xs.map key).Nodup) :
    ∀ x ∈ xs, ∀ y ∈ xs, key x = key y → x = y :=
  fun _ left _ right same => List.inj_on_of_nodup_map distinct left right same

theorem sortedLines_eq {α β κ : Type} [LinearOrder κ] {key : α → κ} {text : α → β} {xs ys : List α} (perm : xs.Perm ys)
    (determined : ∀ x ∈ xs, ∀ y ∈ xs, key x = key y → x = y) :
    (sortBy key xs).map text = (sortBy key ys).map text :=
  congrArg (List.map text) (sortBy_eq_of_perm perm determined)

theorem insertionSort_eq {xs ys : List String} (perm : xs.Perm ys) :
    xs.insertionSort (· ≤ ·) = ys.insertionSort (· ≤ ·) :=
  sortBy_eq_of_perm (show xs.Perm ys from perm) fun (_ : String) _ (_ : String) _ same => same

theorem directionsText_eq {index other : IndexModel} (same : SameIndex index other) :
    directionsText index = directionsText other := by
  obtain ⟨directions, rest⟩ := same
  have columns : other.columns = index.columns := by rw [rest]
  unfold directionsText
  rw [columns]
  refine congrArg (unlines ',') (List.map_congr_left fun i mem => ?_)
  have below := List.mem_range.mp mem
  have spelled : ((List.replicate index.columns.length IndexDirection.asc)[i]?).getD .asc = .asc := by
    simp [below]
  unfold IndexModel.directionAt
  generalize index.columnDirections = before at directions
  generalize other.columnDirections = after at directions
  cases directions with
  | equal => rfl
  | spelled | omitted => rw [spelled, List.getElem?_nil, Option.getD_none]

theorem indexFields_eq {index other : IndexModel} (same : SameIndex index other) :
    indexFields index = indexFields other := by
  have directions := directionsText_eq same
  unfold indexFields
  rw [directions, same.2]

theorem searchIndexLines_eq {index other : SearchIndexModel} (named : SearchNamed index)
    (rearranged : SearchRearranged index other) :
    searchIndexLines index = searchIndexLines other := by
  obtain ⟨fields, jsonPaths, relations, rest⟩ := rearranged
  have head : searchIndexFields other = searchIndexFields index := by rw [rest]; rfl
  unfold searchIndexLines
  rw [head, sortedLines_eq fields (eq_of_key named.fields), sortedLines_eq jsonPaths named.jsonPaths,
    sortedLines_eq relations named.relations]

theorem tableLines_eq {table other : TableModel} (distinct : TableDistinct table)
    (rearranged : TableRearranged table other) : tableLines table = tableLines other := by
  obtain ⟨columns, indexes, searchIndexes, foreignKeys, checks, rest⟩ := rearranged
  have head : tableFields other = tableFields table := by
    rw [rest]
    rfl
  have checked : checkLines table.checkConstraints = checkLines other.checkConstraints := by
    unfold checkLines
    rw [insertionSort_eq (checks.map checkText)]
  have indexed : indexLines table.indexes = indexLines other.indexes := by
    unfold indexLines
    apply map_sortBy_eq
    · refine indexes.map_perm fun index _ other same => ?_
      rw [indexFields_eq same, same.2]
    · intro a left b right same
      rw [eq_of_key distinct.indexes a left b right same]
  have searched : searchLines table.searchIndexes = searchLines other.searchIndexes := by
    unfold searchLines
    rw [List.flatMap_def, List.flatMap_def]
    refine congrArg List.flatten (map_sortBy_eq ?_ ?_)
    · refine searchIndexes.map_perm fun index mem other same => ?_
      rw [searchIndexLines_eq (distinct.searched index mem) same, same.rest]
    · intro a left b right same
      rw [eq_of_key distinct.searchIndexes a left b right same]
  have keyed : foreignKeyLines table.foreignKeys = foreignKeyLines other.foreignKeys := by
    unfold foreignKeyLines
    apply sortedLines_eq foreignKeys
    exact eq_of_key distinct.foreignKeys
  unfold tableLines columnLines
  rw [head, checked, sortedLines_eq columns (eq_of_key distinct.columns), indexed, searched, keyed]

/-- Rearranging a schema whose names are distinct leaves the text that is hashed as it is, and so does
spelling out that an index ascends. -/
theorem canonicalText_rearranged (schema other : SchemaModel) (distinct : SchemaDistinct schema)
    (rearranged : SchemaRearranged schema other) : canonicalText other = canonicalText schema := by
  have tables : (sortBy TableModel.tableName schema.tables).map tableLines =
      (sortBy TableModel.tableName other.tables).map tableLines := by
    apply map_sortBy_eq
    · refine rearranged.tables.map_perm fun table mem other same => ?_
      rw [tableLines_eq (distinct.each table mem) same, same.rest]
    · intro a left b right same
      rw [eq_of_key distinct.tables a left b right same]
  unfold canonicalText canonicalLines extensionLines
  rw [insertionSort_eq rearranged.extensions, List.flatMap_def, List.flatMap_def, tables]

/-! ### Two entries for one path -/

def documents (jsonPaths : List SearchJsonPathModel) : SchemaModel where
  tables := [{
    tableName := "documents", primaryKey := "id"
    columns := [{ name := "id", sqlType := "TEXT", isPrimaryKey := true },
      { name := "body", sqlType := "JSON" }]
    searchIndexes := [{
      name := "documents_search", tableName := "documents", entityName := "Document"
      primaryKey := "id", strategy := .sqliteFts5, language := "en", tokenizer := "unicode61"
      minTokenLen := 2, fallbackEnabled := false, jsonPaths := jsonPaths }] }]

def titleAs (weight : SearchWeight) : SearchJsonPathModel where
  fieldName := "body"
  columnName := "body"
  path := "$.title"
  weight := weight

def titleLine (weight : SearchWeight) : String :=
  taggedLine "search_json_path" (searchJsonPathFields (titleAs weight))

theorem sortBy_titles (v w : SearchWeight) :
    sortBy jsonPathKey [titleAs v, titleAs w] = [titleAs v, titleAs w] := by
  -- the keys are equal, so the first entry stays in front
  have same : jsonPathKey (titleAs v) ≤ jsonPathKey (titleAs w) := le_of_eq rfl
  unfold sortBy
  rw [List.insertionSort_cons, List.insertionSort_cons, List.insertionSort_nil,
    List.orderedInsert_nil, List.orderedInsert_cons, if_pos same]

theorem canonicalLines_documents (v w : SearchWeight) :
    canonicalLines (documents [titleAs v, titleAs w]) =
      canonicalLines (documents []) ++ [titleLine v, titleLine w] := by
  have tables (table : TableModel) : sortBy TableModel.tableName [table] = [table] := rfl
  have indexes (index : SearchIndexModel) : sortBy SearchIndexModel.name [index] = [index] := rfl
  simp [canonicalLines, documents, tables, indexes, tableLines, searchLines, searchIndexLines,
    foreignKeyLines, sortBy_titles, titleLine, searchIndexFields, sortBy_nil]
  rfl

/-- Entries of one path are written down in the order in which they are given, although every table,
column, index and field has a name of its own. -/
theorem canonicalText_sees_paths :
    let schema := documents [titleAs .a, titleAs .b]
    let other := documents [titleAs .b, titleAs .a]
    (schema.tables.map TableModel.tableName).Nodup ∧
    (∀ table ∈ schema.tables, (table.columns.map ColumnModel.name).Nodup ∧
      (table.indexes.map IndexModel.name).Nodup ∧
      (table.searchIndexes.map SearchIndexModel.name).Nodup ∧
      (table.foreignKeys.map ForeignKeyModel.identity).Nodup ∧
      ∀ index ∈ table.searchIndexes, (index.fields.map SearchFieldModel.fieldName).Nodup) ∧
    SchemaRearranged schema other ∧ canonicalText other ≠ canonicalText schema := by
  intro schema other
  refine ⟨by decide, ?_, ⟨.refl _, _, .cons ?_ .nil, .refl _⟩, fun same => ?_⟩
  · intro table mem
    rw [List.mem_singleton.mp mem]
    exact ⟨by decide, by decide, by decide, by decide, by decide⟩
  · refine ⟨.refl _, ⟨[], .nil, .refl _⟩, ⟨_, .cons ?_ .nil, .refl _⟩, .refl _, .refl _, rfl⟩
    exact ⟨.refl _, .swap _ _ _, .refl _, rfl⟩
  · have chars := String.ofList_injective same
    rw [canonicalLines_documents, canonicalLines_documents, List.flatMap_append,
      List.flatMap_append] at chars
    have last := List.append_cancel_left chars
    revert last
    decide

/-- Two tables change places, and an index is spelled out. -/
theorem canonicalText_rearranged_pair :
    let users (directions : List IndexDirection) : TableModel :=
      { tableName := "users", primaryKey := "id"
        columns := [{ name := "id", sqlType := "TEXT" }, { name := "mail", sqlType := "TEXT" }]
        indexes := [{ name := "by_mail", columns := ["mail"], columnDirections := directions }] }
    let posts : TableModel :=
      { tableName := "posts", primaryKey := "id", columns := [{ name := "id", sqlType := "TEXT" }] }
    canonicalText { tables := [posts, users [.asc]] } = canonicalText { tables := [users [], posts] } := by
  intro users posts
  refine canonicalText_rearranged { tables := [users [], posts] } { tables := [posts, users [.asc]] }
    ⟨by decide, ?_⟩ ⟨.refl _, [users [.asc], posts], ?_, .swap _ _ _⟩
  · intro table mem
    rcases List.mem_cons.mp mem with rfl | last
    · exact ⟨by decide, by decide, by decide, by simp [users], by decide⟩
    · rw [List.mem_singleton.mp last]
      exact ⟨by decide, by decide, by decide, by simp [posts], by decide⟩
  · have none_ : Rearranges SearchRearranged [] [] := ⟨[], .nil, .refl _⟩
    refine .cons ⟨.refl _, ⟨_, .cons ⟨.spelled, rfl⟩ .nil, .refl _⟩, none_, .refl _, .refl _, rfl⟩
      (.cons ⟨.refl _, ⟨[], .nil, .refl _⟩, none_, .refl _, .refl _, rfl⟩ .nil)

end GraphqlOrm.Migration
