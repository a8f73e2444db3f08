import Mathlib
import GraphqlOrm.Foundation.StableSort

/-!
# Directory trees

Directories with named entries, the files below an entry with the names that lead to them, and
their order by these names: the files of a directory come child by child, in the order of the
names of the children.
-/
namespace DirectoryTree

inductive Entry where
  | file
  | directory (children : List (String × Entry))

mutual

def Entry.files : Entry → List (List String)
  | .file => [[]]
  | .directory children => filesOf children

def filesOf : List (String × Entry) → List (List String)
  | [] => []
  | (name, entry) :: rest => entry.files.map (name :: ·) ++ filesOf rest

end

mutual

def Entry.size : Entry → Nat
  | .file => 1
  | .directory children => sizeOfChildren children + 1

def sizeOfChildren : List (String × Entry) → Nat
  | [] => 0
  | (_, entry) :: rest => entry.size + sizeOfChildren rest

end

def child (children : List (String × Entry)) (name : String) : Option Entry :=
  (children.find? fun child => child.1 = name).map (·.2)

def Entry.lookup : Entry → List String → Option Entry
  | entry, [] => some entry
  | .file, _ :: _ => none
  | .directory children, name :: path => (child children name).bind fun entry => entry.lookup path

/-- Different children have different names, all of them valid. -/
inductive Entry.Lawful (valid : String → Prop) : Entry → Prop
  | file : Lawful valid .file
  | directory {children : List (String × Entry)} (distinct : (children.map Prod.fst).Nodup)
    (names : ∀ child ∈ children, valid child.1)
    (inner : ∀ child ∈ children, Lawful valid child.2) : Lawful valid (.directory children)

variable {valid : String → Prop} {entry : Entry} {children : List (String × Entry)}

theorem filesOf_eq (children : List (String × Entry)) :
    filesOf children = children.flatMap fun child => child.2.files.map (child.1 :: ·) := by
  induction children with
  | nil => rfl
  | cons first rest ih => rw [filesOf, ih, List.flatMap_cons]

theorem size_pos (entry : Entry) : 0 < entry.size := by
  cases entry with
  | file => exact Nat.one_pos
  | directory children => exact Nat.succ_pos _

theorem sizeOfChildren_eq (children : List (String × Entry)) :
    sizeOfChildren children = (children.map fun child => child.2.size).sum := by
  induction children with
  | nil => rfl
  | cons first rest ih => rw [sizeOfChildren, ih, List.map_cons, List.sum_cons]

theorem child_eq_some (distinct : (children.map Prod.fst).Nodup) {name : String} :
    child children name = some entry ↔ (name, entry) ∈ children := by
  unfold child
  rw [Option.map_eq_some_iff]
  constructor
  · rintro ⟨found, first, rfl⟩
    obtain rfl : found.1 = name := by simpa using List.find?_some first
    exact List.mem_of_find?_eq_some first
  · intro mem
    cases first : children.find? fun child => child.1 = name with
    | none => simpa using List.find?_eq_none.mp first _ mem
    | some found =>
      have same : found.1 = name := by simpa using List.find?_some first
      have own := List.inj_on_of_nodup_map distinct (List.mem_of_find?_eq_some first) mem same
      exact ⟨found, rfl, by rw [own]⟩

theorem lookup_append (entry : Entry) (path rest : List String) :
    entry.lookup (path ++ rest) = (entry.lookup path).bind fun inner => inner.lookup rest := by
  induction path generalizing entry with
  | nil => rfl
  | cons name path ih =>
    cases entry with
    | file => rfl
    | directory children =>
      rw [List.cons_append, Entry.lookup, Entry.lookup, Option.bind_assoc]
      congr 1
      funext inner
      exact ih inner

theorem size_le_of_mem {name : String} (mem : (name, entry) ∈ children) :
    entry.size ≤ sizeOfChildren children := by
  induction children with
  | nil => cases mem
  | cons first rest ih =>
    rw [sizeOfChildren]
    rcases List.mem_cons.mp mem with rfl | later
    · exact Nat.le_add_right _ _
    · exact Nat.le_add_left_of_le (ih later)

theorem lookup_size_le {inner : Entry} {path : List String}
    (found : entry.lookup path = some inner) : inner.size ≤ entry.size := by
  induction path generalizing entry with
  | nil =>
    cases found
    exact Nat.le_refl _
  | cons name path ih =>
    cases entry with
    | file => cases found
    | directory children =>
      obtain ⟨next, here, later⟩ := Option.bind_eq_some_iff.mp found
      obtain ⟨place, first, rfl⟩ := Option.map_eq_some_iff.mp here
      have below := size_le_of_mem (List.mem_of_find?_eq_some first)
      exact (ih later).trans (Nat.le_succ_of_le below)

theorem Entry.Lawful.lookup {inner : Entry} {path : List String} (lawful : entry.Lawful valid)
    (found : entry.lookup path = some inner) : inner.Lawful valid ∧ ∀ name ∈ path, valid name := by
  induction path generalizing entry with
  | nil =>
    cases found
    exact ⟨lawful, nofun⟩
  | cons name path ih =>
    cases lawful with
    | file => cases found
    | directory distinct names below =>
      obtain ⟨next, here, later⟩ := Option.bind_eq_some_iff.mp found
      have mem := (child_eq_some distinct).mp here
      obtain ⟨reached, rest⟩ := ih (below _ mem) later
      exact ⟨reached, List.forall_mem_cons.mpr ⟨names _ mem, rest⟩⟩

theorem Entry.Lawful.files_valid (lawful : entry.Lawful valid) :
    ∀ file ∈ entry.files, ∀ name ∈ file, valid name := by
  induction lawful with
  | file =>
    intro file mem
    rw [List.mem_singleton.mp mem]
    exact nofun
  | directory _ names _ ih =>
    intro file mem
    rw [Entry.files, filesOf_eq, List.mem_flatMap] at mem
    obtain ⟨first, among, mem⟩ := mem
    obtain ⟨rest, below, rfl⟩ := List.mem_map.mp mem
    exact List.forall_mem_cons.mpr ⟨names first among, ih first among rest below⟩

/-! ### The files below a path -/

theorem filter_cons_files {name other : String} (path : List String) (entry : Entry) :
    (entry.files.map (other :: ·)).filter (fun file => (name :: path).isPrefixOf file) =
      if other = name then (entry.files.filter fun file => path.isPrefixOf file).map (other :: ·)
      else [] := by
  rw [List.filter_map]
  split
  next same =>
    congr 1
    refine List.filter_congr fun file _ => ?_
    simp [List.isPrefixOf, same]
  next different =>
    rw [List.map_eq_nil_iff, List.filter_eq_nil_iff]
    intro file _
    simp [List.isPrefixOf, Ne.symm different]

theorem flatMap_child {β : Type} (distinct : (children.map Prod.fst).Nodup) (name : String)
    (part : String × Entry → List β) :
    children.flatMap (fun child => if child.1 = name then part child else []) =
      (child children name).elim [] fun entry => part (name, entry) := by
  induction children with
  | nil => rfl
  | cons first rest ih =>
    rw [List.map_cons, List.nodup_cons] at distinct
    rw [List.flatMap_cons]
    unfold child
    by_cases here : first.1 = name
    · have others : rest.flatMap (fun child => if child.1 = name then part child else []) = [] := by
        rw [List.flatMap_eq_nil_iff]
        intro other mem
        rw [if_neg]
        intro same
        exact distinct.1 (here.trans same.symm ▸ List.mem_map_of_mem mem)
      rw [if_pos here, others, List.append_nil, List.find?_cons_of_pos (by simpa using here), ← here]
      rfl
    · rw [if_neg here, List.nil_append, List.find?_cons_of_neg (by simpa using here)]
      exact ih distinct.2

/-- The files below a path are those of the entry that it leads to. -/
theorem Entry.Lawful.files_below (lawful : entry.Lawful valid) (path : List String) :
    entry.files.filter (fun file => path.isPrefixOf file) =
      (entry.lookup path).elim [] fun inner => inner.files.map (path ++ ·) := by
  induction path generalizing entry with
  | nil =>
    rw [Entry.lookup]
    simp
  | cons name path ih =>
    cases lawful with
    | file => rfl
    | @directory children distinct names below =>
      rw [Entry.files, filesOf_eq, List.filter_flatMap]
      simp only [filter_cons_files]
      rw [flatMap_child distinct name fun child =>
        (child.2.files.filter fun file => path.isPrefixOf file).map (child.1 :: ·), Entry.lookup]
      cases here : child children name with
      | none => rfl
      | some next =>
        rw [Option.elim_some, Option.bind_some, ih (below _ ((child_eq_some distinct).mp here))]
        cases next.lookup path with
        | none => rfl
        | some inner =>
          rw [Option.elim_some, Option.elim_some, List.map_map]
          rfl

/-! ### The order of the files -/

def Entry.sortedFiles (entry : Entry) : List (List String) := sortBy id entry.files

theorem Entry.Lawful.files_nodup (lawful : entry.Lawful valid) : entry.files.Nodup := by
  induction lawful with
  | file => exact List.nodup_singleton _
  | @directory children distinct _ _ ih =>
    rw [Entry.files, filesOf_eq, List.nodup_flatMap]
    refine ⟨fun child mem => (ih child mem).map (List.cons_injective), ?_⟩
    rw [List.Nodup, List.pairwise_map] at distinct
    refine distinct.imp fun {first second} different => ?_
    intro file left right
    obtain ⟨_, _, rfl⟩ := List.mem_map.mp left
    obtain ⟨_, _, same⟩ := List.mem_map.mp right
    exact different (List.cons.inj same).1.symm

theorem sortedFiles_file : Entry.file.sortedFiles = [[]] := rfl

/-- The files of a directory come child by child. -/
theorem sortedFiles_directory (lawful : (Entry.directory children).Lawful valid) :
    (Entry.directory children).sortedFiles =
      (sortBy Prod.fst children).flatMap fun child => child.2.sortedFiles.map (child.1 :: ·) := by
  obtain ⟨⟩ | ⟨distinct, _, below⟩ := lawful
  have perm : (Entry.directory children).sortedFiles.Perm
      ((sortBy Prod.fst children).flatMap fun child => child.2.sortedFiles.map (child.1 :: ·)) := by
    refine (sortBy_perm id _).trans ?_
    rw [Entry.files, filesOf_eq]
    refine List.Perm.flatMap (sortBy_perm Prod.fst children).symm fun child _ => ?_
    exact ((sortBy_perm id child.2.files).map _).symm
  have ordered : ((sortBy Prod.fst children).flatMap fun child =>
      child.2.sortedFiles.map (child.1 :: ·)).Pairwise (· ≤ ·) := by
    rw [List.pairwise_flatMap]
    constructor
    · intro child _
      rw [List.pairwise_map]
      exact (sortBy_ordered id child.2.files).imp fun below => List.cons_le_cons _ below
    · have names : (sortBy Prod.fst children).Pairwise fun a b => a.1 ≠ b.1 := by
        rw [List.Nodup, List.pairwise_map] at distinct
        exact ((sortBy_perm Prod.fst children).pairwise_iff fun different => different.symm).mpr
          distinct
      refine ((sortBy_ordered Prod.fst children).and names).imp fun both => ?_
      intro file left other right
      obtain ⟨_, _, rfl⟩ := List.mem_map.mp left
      obtain ⟨_, _, rfl⟩ := List.mem_map.mp right
      exact le_of_lt (List.cons_lt_cons_iff.mpr (.inl (lt_of_le_of_ne both.1 both.2)))
  exact perm.eq_of_pairwise (fun _ _ _ _ => le_antisymm) (sortBy_ordered id _) ordered

theorem append_le_append_iff (names file other : List String) :
    names ++ file ≤ names ++ other ↔ file ≤ other := by
  induction names with
  | nil => rfl
  | cons name names ih =>
    rw [← ih, ← not_lt, ← not_lt, List.cons_append, List.cons_append, List.cons_lt_cons_iff]
    simp

theorem sortBy_below (names : List String) (entry : Entry) :
    sortBy id (entry.files.map (names ++ ·)) = entry.sortedFiles.map (names ++ ·) :=
  sortBy_map fun file _ other _ => (append_le_append_iff names file other).symm

/-- Files of a directory have names. -/
theorem files_ne_nil : ∀ file ∈ (Entry.directory children).files, file ≠ [] := by
  intro file mem
  rw [Entry.files, filesOf_eq, List.mem_flatMap] at mem
  obtain ⟨child, _, below⟩ := mem
  obtain ⟨rest, _, rfl⟩ := List.mem_map.mp below
  exact List.cons_ne_nil _ _

end DirectoryTree
