import GraphqlOrm.Migration.CreateTable
import Mathlib.Data.List.Dedup

/-!
# Generated indexes

A table takes requests for indexes on lists of columns. A request that is already served changes
nothing, and neither does one whose generated name the table uses: names are joined with the
underscore that may occur in their parts, so that different columns can have one name.

## Main results

- `served_iff`: all requests end up served exactly when no member of a longer primary key is
  requested and the generated names are apart.
- `indexNames_perm`: the table then gains one index for each list that nothing served before.
-/
namespace GraphqlOrm.Migration

open Schema Text

/-! ### Names -/

def sanitizeChar (sanitized : List Char) (c : Char) : List Char :=
  if c.isAlphanum then c.toLower :: sanitized
  else if c = '_' then '_' :: sanitized
  -- Runs of other characters leave a single underscore.
  else if sanitized.head? = some '_' then sanitized
  else '_' :: sanitized

def sanitizeGeneratedIndexPart (value : String) : String :=
  let sanitized := trimList (· = '_') (value.toList.foldl sanitizeChar []).reverse
  if sanitized.isEmpty then "column" else String.ofList sanitized

def generatedIndexName (tableName : String) (columns : List String) : String :=
  boundedName ("idx_" ++ sanitizeGeneratedIndexPart tableName ++ "_" ++
    join "_" (columns.map sanitizeGeneratedIndexPart))

/-! ### Requests -/

def tableHasIndexForColumns (table : TableModel) (columns : List String) : Bool :=
  columns.isEmpty || table.primaryKeyColumns == columns ||
    (columns.length == 1 && table.columns.any fun column =>
      columns.head? == some column.name && (column.isPrimaryKey || column.isUnique)) ||
    table.compositeUniqueIndexes.any (· == columns) ||
    table.indexes.any (·.columns == columns)

def addOwnedGeneratedIndex (table : TableModel) (columns : List String) : TableModel :=
  if tableHasIndexForColumns table columns then table
  -- An equal name suppresses the index, whatever its columns.
  else if table.indexes.any (·.name == generatedIndexName table.tableName columns) then table
  else
    { table with indexes := table.indexes ++
        [{ name := generatedIndexName table.tableName columns, columns }] }

/-! ### What serves a request -/

/-- The columns are those of the primary key, of a unique column or list, or of an index. -/
def Served (table : TableModel) (columns : List String) : Prop :=
  table.primaryKeyColumns = columns ∨
    (∃ column ∈ table.columns, columns = [column.name] ∧ column.isUnique = true) ∨
    columns ∈ table.compositeUniqueIndexes ∨ ∃ index ∈ table.indexes, index.columns = columns

def InPrimaryKey (table : TableModel) (columns : List String) : Prop :=
  ∃ column ∈ table.columns, columns = [column.name] ∧ column.isPrimaryKey = true

variable {table : TableModel} {columns : List String} {requests : List (List String)}

theorem tableHasIndex_iff : tableHasIndexForColumns table columns = true ↔
    columns = [] ∨ Served table columns ∨ InPrimaryKey table columns := by
  have single (column : ColumnModel) :
      (columns.length = 1 ∧ columns.head? = some column.name) ↔ columns = [column.name] := by
    constructor
    · rintro ⟨one, head⟩
      obtain ⟨name, rfl⟩ := List.length_eq_one_iff.mp one
      exact congrArg (fun name => [name]) (Option.some.inj head)
    · rintro rfl
      exact ⟨rfl, rfl⟩
  unfold tableHasIndexForColumns Served InPrimaryKey
  simp only [← single, Bool.or_eq_true, Bool.and_eq_true, List.isEmpty_iff, beq_iff_eq,
    List.any_eq_true]
  constructor
  · rintro ((((none | key) | ⟨one, column, mem, head, flag⟩) | ⟨_, listed, rfl⟩) | index)
    · exact .inl none
    · exact .inr (.inl (.inl key))
    · rcases flag with primary | unique
      · exact .inr (.inr ⟨column, mem, ⟨one, head⟩, primary⟩)
      · exact .inr (.inl (.inr (.inl ⟨column, mem, ⟨one, head⟩, unique⟩)))
    · exact .inr (.inl (.inr (.inr (.inl listed))))
    · exact .inr (.inl (.inr (.inr (.inr index))))
  · rintro (none | (key | ⟨column, mem, ⟨one, head⟩, unique⟩ | listed | index) |
      ⟨column, mem, ⟨one, head⟩, primary⟩)
    · exact .inl (.inl (.inl (.inl none)))
    · exact .inl (.inl (.inl (.inr key)))
    · exact .inl (.inl (.inr ⟨one, column, mem, head, .inr unique⟩))
    · exact .inl (.inr ⟨columns, listed, rfl⟩)
    · exact .inr index
    · exact .inl (.inl (.inr ⟨one, column, mem, head, .inl primary⟩))

/-! ### What the requests leave behind -/

/-- The table has gained the indexes, and nothing else. -/
structure Gains (before after : TableModel) (gained : List IndexModel) : Prop where
  tableName : after.tableName = before.tableName
  keys : after.primaryKeyColumns = before.primaryKeyColumns
  columns : after.columns = before.columns
  unique : after.compositeUniqueIndexes = before.compositeUniqueIndexes
  indexes : after.indexes = before.indexes ++ gained

theorem Gains.refl (table : TableModel) : Gains table table [] :=
  ⟨rfl, rfl, rfl, rfl, (List.append_nil _).symm⟩

variable {gained : List IndexModel}

theorem Gains.trans {a b c : TableModel} {later : List IndexModel} (first : Gains a b gained)
    (second : Gains b c later) : Gains a c (gained ++ later) where
  tableName := second.tableName.trans first.tableName
  keys := second.keys.trans first.keys
  columns := second.columns.trans first.columns
  unique := second.unique.trans first.unique
  indexes := by rw [second.indexes, first.indexes, List.append_assoc]

variable {before after : TableModel}

theorem Gains.served (gains : Gains before after gained) :
    Served after columns ↔ Served before columns ∨ ∃ index ∈ gained, index.columns = columns := by
  unfold Served
  rw [gains.keys, gains.columns, gains.unique, gains.indexes]
  simp only [List.mem_append, or_and_right, exists_or, or_assoc]

theorem Gains.inPrimaryKey (gains : Gains before after gained) :
    InPrimaryKey after columns ↔ InPrimaryKey before columns := by
  unfold InPrimaryKey
  rw [gains.columns]

def Open (table : TableModel) (columns : List String) : Prop :=
  columns ≠ [] ∧ ¬Served table columns ∧ ¬InPrimaryKey table columns

theorem open_iff : Open table columns ↔ tableHasIndexForColumns table columns = false := by
  rw [← Bool.not_eq_true, tableHasIndex_iff, not_or, not_or]
  rfl

instance (table : TableModel) (columns : List String) : Decidable (Open table columns) :=
  decidable_of_iff _ open_iff.symm

theorem Gains.open_of (gains : Gains before after gained) (still : Open after columns) :
    Open before columns := by
  obtain ⟨some, unserved, mem⟩ := still
  rw [gains.served, not_or] at unserved
  rw [gains.inPrimaryKey] at mem
  exact ⟨some, unserved.1, mem⟩

def generatedIndex (table : TableModel) (columns : List String) : IndexModel :=
  { name := generatedIndexName table.tableName columns, columns }

@[simp] theorem generatedIndex_name :
    (generatedIndex table columns).name = generatedIndexName table.tableName columns := by
  simp only [generatedIndex]

@[simp] theorem generatedIndex_columns : (generatedIndex table columns).columns = columns := rfl

/-- A request is passed over where the list is not open or the name is taken; otherwise it adds
its index. -/
theorem add_cases (table : TableModel) (columns : List String) :
    (¬Open table columns ∨ generatedIndexName table.tableName columns ∈
        table.indexes.map (·.name)) ∧
      addOwnedGeneratedIndex table columns = table ∨
    Open table columns ∧ generatedIndexName table.tableName columns ∉
        table.indexes.map (·.name) ∧
      addOwnedGeneratedIndex table columns =
        { table with indexes := table.indexes ++ [generatedIndex table columns] } := by
  have used : (table.indexes.any (·.name == generatedIndexName table.tableName columns)) = true ↔
      generatedIndexName table.tableName columns ∈ table.indexes.map (·.name) := by
    simp [List.any_eq_true, List.mem_map]
  unfold addOwnedGeneratedIndex
  split
  next has =>
    refine .inl ⟨.inl fun free => ?_, rfl⟩
    rw [open_iff, has] at free
    cases free
  next hasNot =>
    have free := open_iff.mpr (Bool.eq_false_iff.mpr hasNot)
    split
    next taken => exact .inl ⟨.inr (used.mp taken), rfl⟩
    next fresh => exact .inr ⟨free, fun taken => fresh (used.mpr taken), rfl⟩

/-- After the requests, the new indexes are requested ones that were open, their names are new and
distinct, and each open request finds its name in use. -/
theorem foldl_add (table : TableModel) (requests : List (List String)) :
    ∃ gained, Gains table (requests.foldl addOwnedGeneratedIndex table) gained ∧
      (∀ index ∈ gained, ∃ columns ∈ requests, Open table columns ∧
        index = generatedIndex table columns) ∧
      (gained.map (·.name)).Nodup ∧
      (∀ index ∈ gained, index.name ∉ table.indexes.map (·.name)) ∧
      ∀ columns ∈ requests, Open table columns →
        generatedIndexName table.tableName columns ∈
          (requests.foldl addOwnedGeneratedIndex table).indexes.map (·.name) := by
  induction requests generalizing table with
  | nil => exact ⟨[], .refl table, by simp, .nil, by simp, by simp⟩
  | cons first rest ih =>
    obtain ⟨gained, gains, asked, distinct, fresh, named⟩ := ih (addOwnedGeneratedIndex table first)
    rw [List.foldl_cons]
    rcases add_cases table first with ⟨passed, same⟩ | ⟨free, unused, added⟩
    · rw [same] at gains asked fresh named ⊢
      refine ⟨gained, gains, fun index mem => ?_, distinct, fresh, fun columns mem free => ?_⟩
      · obtain ⟨columns, among, rest⟩ := asked index mem
        exact ⟨columns, List.mem_cons_of_mem _ among, rest⟩
      · rcases List.mem_cons.mp mem with rfl | later
        · have taken := passed.resolve_left (not_not_intro free)
          rw [gains.indexes, List.map_append]
          exact List.mem_append_left _ taken
        · exact named columns later free
    · have step : Gains table (addOwnedGeneratedIndex table first) [generatedIndex table first] := by
        rw [added]
        exact ⟨rfl, rfl, rfl, rfl, rfl⟩
      have own (columns : List String) :
          generatedIndex (addOwnedGeneratedIndex table first) columns =
            generatedIndex table columns := by
        unfold generatedIndex
        rw [step.tableName]
      rw [step.tableName] at named
      refine ⟨[generatedIndex table first] ++ gained, step.trans gains, ?_, ?_, ?_, ?_⟩
      · intro index mem
        rcases List.mem_append.mp mem with here | later
        · exact ⟨first, .head _, free, List.mem_singleton.mp here⟩
        · obtain ⟨columns, among, still, rfl⟩ := asked index later
          exact ⟨columns, List.mem_cons_of_mem _ among, step.open_of still, own columns⟩
      · -- What is gained later has a name that the first index does not have.
        rw [List.singleton_append, List.map_cons, List.nodup_cons]
        refine ⟨fun again => ?_, distinct⟩
        obtain ⟨index, later, same⟩ := List.mem_map.mp again
        apply fresh index later
        rw [step.indexes, List.map_append]
        exact List.mem_append_right _ (List.mem_singleton.mpr same)
      · intro index mem
        rcases List.mem_append.mp mem with here | later
        · rw [List.mem_singleton.mp here, generatedIndex_name]
          exact unused
        · have apart := fresh index later
          rw [step.indexes, List.map_append, List.mem_append, not_or] at apart
          exact apart.1
      · intro columns mem wanted
        have present {name : String}
            (known : name ∈ (addOwnedGeneratedIndex table first).indexes.map (·.name)) :
            name ∈ (rest.foldl addOwnedGeneratedIndex
              (addOwnedGeneratedIndex table first)).indexes.map (·.name) := by
          rw [gains.indexes, List.map_append]
          exact List.mem_append_left _ known
        have firstPresent : generatedIndexName table.tableName first ∈
            (addOwnedGeneratedIndex table first).indexes.map (·.name) := by
          rw [step.indexes, List.map_append, List.map_singleton, generatedIndex_name]
          exact List.mem_append_right _ (.head _)
        rcases List.mem_cons.mp mem with rfl | later
        · exact present firstPresent
        · by_cases still : Open (addOwnedGeneratedIndex table first) columns
          · exact named columns later still
          · -- Only the first request can have closed the list.
            have closed : columns = first := by
              by_contra other
              apply still
              refine ⟨wanted.1, ?_, step.inPrimaryKey.not.mpr wanted.2.2⟩
              rw [step.served]
              rintro (before | ⟨index, here, same⟩)
              · exact wanted.2.1 before
              · rw [List.mem_singleton.mp here] at same
                exact other same.symm
            rw [closed]
            exact present firstPresent

/-! ### When all requests are served -/

/-- The requests are for lists whose generated names are apart from each other and from the names
in use, and not for a member of a longer primary key. -/
structure Apart (table : TableModel) (requests : List (List String)) : Prop where
  members : ∀ columns ∈ requests, InPrimaryKey table columns → Served table columns
  unused : ∀ columns ∈ requests, Open table columns →
    generatedIndexName table.tableName columns ∉ table.indexes.map (·.name)
  distinct : ∀ columns ∈ requests, Open table columns → ∀ others ∈ requests, Open table others →
    generatedIndexName table.tableName columns = generatedIndexName table.tableName others →
      columns = others

theorem served_iff (table : TableModel) (requests : List (List String)) :
    (∀ columns ∈ requests, columns ≠ [] →
      Served (requests.foldl addOwnedGeneratedIndex table) columns) ↔ Apart table requests := by
  obtain ⟨gained, gains, asked, distinct, fresh, named⟩ := foldl_add table requests
  constructor
  · intro complete
    -- A list that nothing served before is served by an index of its own.
    have own {columns : List String} (mem : columns ∈ requests) (some : columns ≠ [])
        (unserved : ¬Served table columns) :
        Open table columns ∧ generatedIndex table columns ∈ gained := by
      have later := (gains.served.mp (complete columns mem some)).resolve_left unserved
      obtain ⟨index, among, rfl⟩ := later
      obtain ⟨columns, _, free, rfl⟩ := asked index among
      exact ⟨free, among⟩
    refine ⟨fun columns mem primary => ?_, fun columns mem free => ?_,
      fun columns mem free others also free' same => ?_⟩
    · by_contra unserved
      have some : columns ≠ [] := by
        obtain ⟨_, _, rfl, _⟩ := primary
        exact List.cons_ne_nil _ _
      exact (own mem some unserved).1.2.2 primary
    · have unused := fresh _ (own mem free.1 free.2.1).2
      rwa [generatedIndex_name] at unused
    · have one := (own mem free.1 free.2.1).2
      have two := (own also free'.1 free'.2.1).2
      rw [← generatedIndex_name, ← generatedIndex_name] at same
      have equal := List.inj_on_of_nodup_map distinct one two same
      exact congrArg (·.columns) equal
  · intro apart columns mem some
    by_cases served : Served table columns
    · exact gains.served.mpr (.inl served)
    · have free : Open table columns :=
        ⟨some, served, fun primary => served (apart.members columns mem primary)⟩
      have known := named columns mem free
      rw [gains.indexes, List.map_append, List.mem_append] at known
      obtain ⟨index, among, same⟩ :=
        List.mem_map.mp (known.resolve_left (apart.unused columns mem free))
      obtain ⟨others, also, free', rfl⟩ := asked index among
      rw [generatedIndex_name] at same
      obtain rfl := apart.distinct columns mem free others also free' same.symm
      exact gains.served.mpr (.inr ⟨_, among, rfl⟩)

def opened (table : TableModel) (requests : List (List String)) : List (List String) :=
  (requests.filter (Open table ·)).dedup

theorem mem_opened : columns ∈ opened table requests ↔ columns ∈ requests ∧ Open table columns := by
  unfold opened
  rw [List.mem_dedup, List.mem_filter, decide_eq_true_eq]

/-- Where all requests are served, each open list has gained one index under its own name. -/
theorem indexNames_perm (apart : Apart table requests) :
    ((requests.foldl addOwnedGeneratedIndex table).indexes.map (·.name)).Perm
      (table.indexes.map (·.name) ++
        (opened table requests).map (generatedIndexName table.tableName)) := by
  obtain ⟨gained, gains, asked, distinct, fresh, named⟩ := foldl_add table requests
  have single : gained.Nodup := distinct.of_map
  have each : gained.Perm ((opened table requests).map (generatedIndex table)) := by
    refine (List.perm_ext_iff_of_nodup single ?_).mpr fun index => ?_
    · exact List.Nodup.map (fun _ _ same => congrArg (·.columns) same) (List.nodup_dedup _)
    · rw [List.mem_map]
      constructor
      · intro among
        obtain ⟨columns, mem, free, rfl⟩ := asked index among
        exact ⟨columns, mem_opened.mpr ⟨mem, free⟩, rfl⟩
      · rintro ⟨columns, open_, rfl⟩
        obtain ⟨mem, free⟩ := mem_opened.mp open_
        have served := (served_iff table requests).mpr apart columns mem free.1
        obtain ⟨index, among, rfl⟩ := (gains.served.mp served).resolve_left free.2.1
        obtain ⟨columns, _, _, rfl⟩ := asked index among
        exact among
  rw [gains.indexes, List.map_append]
  have names := each.map (·.name)
  rw [List.map_map] at names
  have own : (fun index : IndexModel => index.name) ∘ generatedIndex table =
      generatedIndexName table.tableName := funext fun _ => generatedIndex_name
  rw [own] at names
  exact names.append_left _

end GraphqlOrm.Migration
