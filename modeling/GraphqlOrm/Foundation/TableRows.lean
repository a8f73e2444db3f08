import Mathlib.Data.List.Nodup

/-!
# Rows of a table

A table as a list of records, the statements that insert one record or set columns of the records
with a given key, and foreign keys within the table.

## Main results

- `execute_inserts`: what a list of insertions leaves.
- `execute_updates`: updates by distinct keys replace the records of these keys, one by one.
-/
namespace TableRows

abbrev Record (κ ν : Type) := List (κ × ν)

inductive Statement (κ ν : Type) where
  | insert (columns : List κ) (values : List ν)
  /-- Set columns where the key has the value. -/
  | update (columns : List κ) (values : List ν) (key : κ) (value : ν)

variable {κ ν : Type} [DecidableEq κ]

def Record.set (columns : List κ) (values : List ν) (record : Record κ ν) : Record κ ν :=
  record.map fun e => (e.1, ((columns.zip values).lookup e.1).getD e.2)

/-- A value of the column that is not null is the key of some record. -/
def ForeignKeyHolds (isNull : ν → Bool) (column key : κ) (table : List (Record κ ν)) : Prop :=
  ∀ record ∈ table, ∀ value, record.lookup column = some value → isNull value = false →
    ∃ parent ∈ table, parent.lookup key = some value

section Execution

variable [DecidableEq ν]

def Statement.apply (table : List (Record κ ν)) : Statement κ ν → List (Record κ ν)
  | .insert columns values => table ++ [columns.zip values]
  | .update columns values key value =>
    table.map fun record =>
      if record.lookup key = some value then record.set columns values else record

def execute (table : List (Record κ ν)) (statements : List (Statement κ ν)) :
    List (Record κ ν) :=
  statements.foldl Statement.apply table

end Execution

/-! ### Records by columns -/

section Columns

variable {γ : Type} {name : γ → κ} {columns : List γ}

def recordOf (name : γ → κ) (columns : List γ) (value : γ → ν) : Record κ ν :=
  columns.map fun column => (name column, value column)

omit [DecidableEq κ] in
theorem zip_eq_recordOf (value : γ → ν) :
    (columns.map name).zip (columns.map value) = recordOf name columns value := by
  rw [List.zip_map']
  rfl

theorem lookup_recordOf (distinct : (columns.map name).Nodup) {column : γ}
    (mem : column ∈ columns) (value : γ → ν) :
    (recordOf name columns value).lookup (name column) = some (value column) := by
  induction columns with
  | nil => cases mem
  | cons first rest ih =>
    obtain ⟨fresh, others⟩ := List.nodup_cons.mp distinct
    unfold recordOf
    rw [List.map_cons]
    rcases List.mem_cons.mp mem with rfl | later
    · exact List.lookup_cons_self
    · have other : name column ≠ name first :=
        ne_of_mem_of_not_mem (List.mem_map_of_mem later) fresh
      rw [List.lookup_cons, beq_false_of_ne other]
      exact ih others later

theorem exists_of_lookup_recordOf {value : γ → ν} {key : κ} {found : ν}
    (stored : (recordOf name columns value).lookup key = some found) :
    ∃ column ∈ columns, name column = key := by
  obtain ⟨before, after, split, _⟩ := List.lookup_eq_some_iff.mp stored
  have inside : (key, found) ∈ recordOf name columns value := by
    rw [split]
    exact List.mem_append_right _ (.head _)
  obtain ⟨column, mem, same⟩ := List.mem_map.mp inside
  exact ⟨column, mem, (Prod.ext_iff.mp same).1⟩

/-- Setting some of the columns. -/
theorem set_recordOf (distinct : (columns.map name).Nodup) {changed : List γ}
    (inside : changed.Sublist columns) {old new : γ → ν}
    (kept : ∀ column ∈ columns, column ∉ changed → old column = new column) :
    (recordOf name columns old).set (changed.map name) (changed.map new) =
      recordOf name columns new := by
  unfold Record.set
  rw [zip_eq_recordOf]
  unfold recordOf
  rw [List.map_map]
  apply List.map_congr_left
  intro column mem
  refine Prod.ext_iff.mpr ⟨rfl, ?_⟩
  show ((recordOf name changed new).lookup (name column)).getD (old column) = new column
  by_cases set : column ∈ changed
  · rw [lookup_recordOf (distinct.sublist (inside.map name)) set, Option.getD_some]
  · cases found : (recordOf name changed new).lookup (name column) with
    | none => exact kept column mem set
    | some value =>
      obtain ⟨other, there, same⟩ := exists_of_lookup_recordOf found
      have equal := List.inj_on_of_nodup_map distinct (inside.subset there) mem same
      exact absurd (equal ▸ there) set

end Columns

/-! ### Runs -/

section Runs

variable [DecidableEq ν] {ρ : Type}

theorem execute_append (table : List (Record κ ν)) (first rest : List (Statement κ ν)) :
    execute table (first ++ rest) = execute (execute table first) rest :=
  List.foldl_append

theorem execute_inserts (table : List (Record κ ν)) (columns : List κ) (values : ρ → List ν)
    (rows : List ρ) : execute table (rows.map fun row => .insert columns (values row)) =
      table ++ rows.map fun row => columns.zip (values row) := by
  induction rows generalizing table with
  | nil => exact (List.append_nil table).symm
  | cons row rest ih =>
    have step := ih (table ++ [columns.zip (values row)])
    rwa [List.append_assoc] at step

/-- Each update finds the record of its own key and leaves the others. -/
theorem execute_updates {columns : List κ} {key : κ} {values : ρ → List ν} {own : ρ → ν}
    {old new : ρ → Record κ ν} {settled changed rest : List ρ}
    (distinct : ((settled ++ (changed ++ rest)).map own).Nodup)
    (oldKey : ∀ row ∈ changed ++ rest, (old row).lookup key = some (own row))
    (newKey : ∀ row ∈ settled ++ changed, (new row).lookup key = some (own row))
    (sets : ∀ row ∈ changed, (old row).set columns (values row) = new row) :
    execute (settled.map new ++ (changed ++ rest).map old)
        (changed.map fun row => .update columns (values row) key (own row)) =
      (settled ++ changed).map new ++ rest.map old := by
  induction changed generalizing settled with
  | nil =>
    rw [List.append_nil]
    rfl
  | cons row changed ih =>
    have apart : ∀ other ∈ settled ++ (changed ++ rest), own other ≠ own row := by
      have moved : (settled ++ (row :: changed ++ rest)).Perm
          (row :: (settled ++ (changed ++ rest))) := List.perm_middle
      have fresh := (List.nodup_cons.mp ((moved.map own).nodup_iff.mp distinct)).1
      intro other mem same
      exact fresh (same ▸ List.mem_map_of_mem mem)
    have unchanged {image : ρ → Record κ ν} {others : List ρ}
        (inside : others ⊆ settled ++ (changed ++ rest))
        (keyed : ∀ other ∈ others, (image other).lookup key = some (own other)) :
        (others.map image).map (fun record => if record.lookup key = some (own row) then
          record.set columns (values row) else record) = others.map image := by
      rw [List.map_map]
      apply List.map_congr_left
      intro other mem
      apply if_neg
      rw [keyed other mem]
      exact fun same => apart other (inside mem) (Option.some.inj same)
    have step : Statement.apply (settled.map new ++ (row :: changed ++ rest).map old)
          (.update columns (values row) key (own row)) =
        (settled ++ [row]).map new ++ (changed ++ rest).map old := by
      dsimp only [Statement.apply]
      rw [List.cons_append, List.map_cons, List.map_append, List.map_cons,
        if_pos (oldKey row (.head _)), sets row (.head _),
        unchanged (fun _ mem => List.mem_append_left _ mem) fun other mem =>
          newKey other (List.mem_append_left _ mem),
        unchanged (fun _ mem => List.mem_append_right _ mem) fun other mem =>
          oldKey other (.tail _ mem)]
      simp
    have assoc : settled ++ row :: changed = settled ++ [row] ++ changed := by simp
    rw [List.map_cons]
    show execute (Statement.apply _ _) _ = _
    rw [step, assoc]
    apply ih
    · simpa using distinct
    · intro other mem
      exact oldKey other (.tail _ mem)
    · rw [← assoc]
      exact newKey
    · intro other mem
      exact sets other (.tail _ mem)

end Runs

end TableRows
