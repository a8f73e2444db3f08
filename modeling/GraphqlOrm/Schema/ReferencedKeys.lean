import GraphqlOrm.Schema.Contract

/-!
# Referenced keys

What an accepted physical contract says about foreign keys. The members of a key exist,
are distinct and agree in type, but the referenced columns need not be unique: one
member of a composite primary key passes for the whole key.

## Main result

`referencesSound_iff`: the foreign keys of an accepted schema reference unique columns
exactly when none of them rests on a single member of a longer primary key.
-/
namespace GraphqlOrm.Schema

open Outcome Text

variable {schema : SchemaModel} {table target : TableModel} {fk : ForeignKeyModel}

def SchemaModel.managed (schema : SchemaModel) (fk : ForeignKeyModel) : Option TableModel :=
  (OrderedMap.collectBy (·.tableName) schema.tables).get? fk.targetTable

/-! ### Unique columns -/

def UniqueBesides (target : TableModel) (columns : List String) : Prop :=
  (∃ column ∈ target.columns, columns = [column.name] ∧ column.isUnique = true) ∨
    columns ∈ target.compositeUniqueIndexes ∨
    ∃ index ∈ target.indexes, index.columns = columns ∧ index.isUnique = true ∧
      index.predicate = none

def UniqueIn (target : TableModel) (columns : List String) : Prop :=
  target.primaryKeyColumns = columns ∨ UniqueBesides target columns

/-- A single column that is flagged as part of the primary key without being all of it. -/
def KeyMember (target : TableModel) (columns : List String) : Prop :=
  (∃ column ∈ target.columns, columns = [column.name] ∧ column.isPrimaryKey = true) ∧
    target.primaryKeyColumns ≠ columns

instance (target : TableModel) (columns : List String) : Decidable (UniqueBesides target columns) :=
  inferInstanceAs (Decidable (_ ∨ _ ∨ _))

instance (target : TableModel) (columns : List String) : Decidable (UniqueIn target columns) :=
  inferInstanceAs (Decidable (_ ∨ _))

instance (target : TableModel) (columns : List String) : Decidable (KeyMember target columns) :=
  inferInstanceAs (Decidable (_ ∧ _))

/-- The check passes for unique columns, and for a member of the key besides. -/
theorem isUniqueKey_iff {columns : List String} :
    isUniqueKey target columns = true ↔ UniqueIn target columns ∨ KeyMember target columns := by
  have single (column : ColumnModel) : (columns.length = 1 ∧ columns.head? = some column.name) ↔
      columns = [column.name] := by
    constructor
    · rintro ⟨one, head⟩
      obtain ⟨name, rfl⟩ := List.length_eq_one_iff.mp one
      exact congrArg (fun name => [name]) (Option.some.inj head)
    · rintro rfl
      exact ⟨rfl, rfl⟩
  have flagged : (columns.length == 1 && target.columns.any fun column =>
      columns.head? == some column.name && (column.isPrimaryKey || column.isUnique)) = true ↔
      ∃ column ∈ target.columns, columns = [column.name] ∧
        (column.isPrimaryKey = true ∨ column.isUnique = true) := by
    simp only [Bool.and_eq_true, beq_iff_eq, List.any_eq_true, Bool.or_eq_true]
    constructor
    · rintro ⟨one, column, mem, head, flag⟩
      exact ⟨column, mem, (single column).mp ⟨one, head⟩, flag⟩
    · rintro ⟨column, mem, named, flag⟩
      have ⟨one, head⟩ := (single column).mpr named
      exact ⟨one, column, mem, head, flag⟩
  have indexed : (target.indexes.any fun index =>
      index.isUnique && index.predicate.isNone && index.columns == columns) = true ↔
      ∃ index ∈ target.indexes, index.columns = columns ∧ index.isUnique = true ∧
        index.predicate = none := by
    simp only [List.any_eq_true, Bool.and_eq_true, beq_iff_eq, Option.isNone_iff_eq_none]
    exact ⟨fun ⟨index, mem, ⟨own, free⟩, same⟩ => ⟨index, mem, same, own, free⟩,
      fun ⟨index, mem, same, own, free⟩ => ⟨index, mem, ⟨own, free⟩, same⟩⟩
  have listed : target.compositeUniqueIndexes.any (· == columns) = true ↔
      columns ∈ target.compositeUniqueIndexes := by
    simp only [List.any_eq_true, beq_iff_eq, exists_eq_right]
  rw [isUniqueKey, Bool.or_eq_true, Bool.or_eq_true, Bool.or_eq_true, flagged, indexed, listed,
    beq_iff_eq]
  constructor
  · rintro (((whole | ⟨column, mem, named, key | unique⟩) | composite) | index)
    · exact .inl (.inl whole)
    · by_cases whole : target.primaryKeyColumns = columns
      · exact .inl (.inl whole)
      · exact .inr ⟨⟨column, mem, named, key⟩, whole⟩
    · exact .inl (.inr (.inl ⟨column, mem, named, unique⟩))
    · exact .inl (.inr (.inr (.inl composite)))
    · exact .inl (.inr (.inr (.inr index)))
  · rintro ((whole | ⟨column, mem, named, unique⟩ | composite | index) |
      ⟨⟨column, mem, named, key⟩, _⟩)
    · exact .inl (.inl (.inl whole))
    · exact .inl (.inl (.inr ⟨column, mem, named, .inr unique⟩))
    · exact .inl (.inr composite)
    · exact .inr index
    · exact .inl (.inl (.inr ⟨column, mem, named, .inl key⟩))

/-! ### Accepted foreign keys -/

/-- The members of a foreign key exist on both sides, are distinct and agree in type. -/
structure Paired (table target : TableModel) (fk : ForeignKeyModel) : Prop where
  sources : fk.sourceColumns.Nodup
  targets : fk.targetColumns.Nodup
  typed : ∀ pair ∈ fk.columnPairs, ∃ source referenced,
    table.columns.find? (·.name == pair.sourceColumn) = some source ∧
    target.columns.find? (·.name == pair.targetColumn) = some referenced ∧
    eqIgnoreCase source.sqlType referenced.sqlType = true

/-- The pairs that pass are new to the members met before and to one another. -/
theorem validatePairs_ok {sources targets : List String} {pairs : List ForeignKeyColumnPairModel}
    (passed : validatePairs table target fk sources targets pairs = .ok ()) :
    (∀ pair ∈ pairs, pair.sourceColumn ∉ sources ∧ pair.targetColumn ∉ targets ∧
      ∃ source referenced, table.columns.find? (·.name == pair.sourceColumn) = some source ∧
        target.columns.find? (·.name == pair.targetColumn) = some referenced ∧
        eqIgnoreCase source.sqlType referenced.sqlType = true) ∧
      (pairs.map (·.sourceColumn)).Nodup ∧ (pairs.map (·.targetColumn)).Nodup := by
  induction pairs generalizing sources targets with
  | nil => simp
  | cons pair rest ih =>
    simp only [validatePairs, bind_eq_ok, require_eq_ok, okOr_eq_ok] at passed
    obtain ⟨_, fresh, source, found, referenced, found', _, typed, _, _, others⟩ := passed
    obtain ⟨each, newSources, newTargets⟩ := ih others
    simp only [Bool.and_eq_true, Bool.not_eq_true', List.contains_eq_mem,
      decide_eq_false_iff_not] at fresh
    refine ⟨fun other mem => ?_, ?_, ?_⟩
    · rcases List.mem_cons.mp mem with rfl | mem
      · exact ⟨fresh.1, fresh.2, source, referenced, found, found', typed⟩
      · obtain ⟨noSource, noTarget, exists_⟩ := each other mem
        exact ⟨fun old => noSource (.tail _ old),
          fun old => noTarget (.tail _ old), exists_⟩
    · rw [List.map_cons, List.nodup_cons]
      refine ⟨fun repeated => ?_, newSources⟩
      obtain ⟨other, mem, same⟩ := List.mem_map.mp repeated
      exact (each other mem).1 (same ▸ .head _)
    · rw [List.map_cons, List.nodup_cons]
      refine ⟨fun repeated => ?_, newTargets⟩
      obtain ⟨other, mem, same⟩ := List.mem_map.mp repeated
      exact (each other mem).2.1 (same ▸ .head _)

theorem foreignKey_ok {tables : OrderedMap String TableModel} {identities : List ForeignKeyIdentity}
    (passed : validateForeignKey tables table identities fk = .ok ()) :
    ∃ target, tables.get? fk.targetTable = some target ∧ Paired table target fk ∧
      isUniqueKey target fk.targetColumns = true := by
  simp only [validateForeignKey, bind_eq_ok, require_eq_ok, okOr_eq_ok] at passed
  obtain ⟨_, _, _, _, target, found, _, pairs, unique⟩ := passed
  obtain ⟨each, sources, targets⟩ := validatePairs_ok pairs
  exact ⟨target, found, ⟨sources, targets, fun pair mem => (each pair mem).2.2⟩, unique⟩

theorem foreignKeys_ok {tables : OrderedMap String TableModel} {identities : List ForeignKeyIdentity}
    {fks : List ForeignKeyModel} (passed : validateForeignKeys tables table identities fks = .ok ())
    (mem : fk ∈ fks) : ∃ identities, validateForeignKey tables table identities fk = .ok () := by
  induction fks generalizing identities with
  | nil => cases mem
  | cons first rest ih =>
    simp only [validateForeignKeys, bind_eq_ok] at passed
    obtain ⟨⟨⟩, here, others⟩ := passed
    rcases List.mem_cons.mp mem with rfl | mem
    · exact ⟨identities, here⟩
    · exact ih others mem

/-- Every foreign key of an accepted schema, up to the uniqueness of what it references. -/
theorem references_of_accepted (accepted : schema.validatePhysicalContract = .ok ())
    (mem : table ∈ schema.tables) (declared : fk ∈ table.foreignKeys) :
    ∃ target, schema.managed fk = some target ∧ target ∈ schema.tables ∧
      target.tableName = fk.targetTable ∧ Paired table target fk ∧
      isUniqueKey target fk.targetColumns = true := by
  have checked := validateAll_eq_ok.mp accepted table mem
  simp only [validateTable, bind_eq_ok] at checked
  obtain ⟨⟨⟩, _, foreignKeys⟩ := checked
  obtain ⟨_, passed⟩ := foreignKeys_ok foreignKeys declared
  obtain ⟨target, found, paired, unique⟩ := foreignKey_ok passed
  obtain ⟨stored, named⟩ := OrderedMap.get?_collectBy_some found
  exact ⟨target, found, stored, named, paired, unique⟩

/-! ### Soundness -/

/-- Every foreign key references distinct columns of one type in a managed table, which
are unique there. -/
def SchemaModel.ReferencesSound (schema : SchemaModel) : Prop :=
  ∀ table ∈ schema.tables, ∀ fk ∈ table.foreignKeys, ∃ target, schema.managed fk = some target ∧
    target ∈ schema.tables ∧ target.tableName = fk.targetTable ∧ Paired table target fk ∧
    UniqueIn target fk.targetColumns

/-- A member of a longer key is referenced only where it is unique on its own account. -/
def SchemaModel.KeysWhole (schema : SchemaModel) : Prop :=
  ∀ table ∈ schema.tables, ∀ fk ∈ table.foreignKeys, ∀ target, schema.managed fk = some target →
    KeyMember target fk.targetColumns → UniqueBesides target fk.targetColumns

theorem referencesSound_iff (accepted : schema.validatePhysicalContract = .ok ()) :
    schema.ReferencesSound ↔ schema.KeysWhole := by
  constructor
  · intro sound table mem fk declared target found partial_
    obtain ⟨target', found', _, _, _, unique⟩ := sound table mem fk declared
    obtain rfl : target = target' := Option.some.inj (found.symm.trans found')
    exact unique.resolve_left partial_.2
  · intro whole table mem fk declared
    obtain ⟨target, found, stored, named, paired, unique⟩ :=
      references_of_accepted accepted mem declared
    refine ⟨target, found, stored, named, paired, ?_⟩
    rcases isUniqueKey_iff.mp unique with unique | partial_
    · exact unique
    · exact .inr (whole table mem fk declared target found partial_)

/-- Invoices are keyed by tenant and number; payments reference the given columns. -/
def invoices (pairs : List (String × String)) : SchemaModel where
  tables := [
    { tableName := "invoices", primaryKey := "tenant", primaryKeys := ["tenant", "number"]
      columns := [{ name := "tenant", sqlType := "TEXT", isPrimaryKey := true },
        { name := "number", sqlType := "INTEGER", isPrimaryKey := true }] },
    { tableName := "payments", primaryKey := "id"
      columns := [{ name := "id", sqlType := "TEXT", isPrimaryKey := true },
        { name := "tenant", sqlType := "text" }, { name := "invoice", sqlType := "INTEGER" }]
      foreignKeys := [{ columnPairs := pairs.map fun (source, target) => ⟨source, target⟩
                        targetTable := "invoices" }] }]

theorem invoices_whole :
    (invoices [("tenant", "tenant"), ("invoice", "number")]).validatePhysicalContract = .ok () ∧
      (invoices [("tenant", "tenant"), ("invoice", "number")]).ReferencesSound := by
  refine ⟨rfl, (referencesSound_iff rfl).mpr ?_⟩
  intro table mem fk declared target found partial_
  simp only [invoices, List.mem_cons, List.not_mem_nil, or_false] at mem
  rcases mem with rfl | rfl
  · cases declared
  · cases List.mem_singleton.mp declared
    cases found
    exact absurd partial_ (by decide)

/-- Two invoices of one tenant share the referenced column. -/
theorem invoices_by_tenant :
    (invoices [("tenant", "tenant")]).validatePhysicalContract = .ok () ∧
      ¬(invoices [("tenant", "tenant")]).ReferencesSound := by
  refine ⟨rfl, fun sound => ?_⟩
  obtain ⟨target, found, _, _, _, unique⟩ :=
    sound _ (.tail _ (.head _)) _ (.head _)
  cases found
  exact absurd unique (by decide)

end GraphqlOrm.Schema
