import Mathlib.Data.List.Nodup
import Mathlib.Order.Lattice

/-!
# Ordered maps

`BTreeMap` as a strictly sorted association list. Collecting a list keeps the
last value of every key, and iteration goes through the keys in order. The
lemmas below reduce iteration to lookups, so that a result about a map never
depends on how it was built.
-/

/-- A finite map whose entries are strictly sorted by key. -/
structure OrderedMap (κ α : Type) [LinearOrder κ] where
  entries : List (κ × α)
  sorted : entries.Pairwise fun a b => a.1 < b.1

namespace OrderedMap

variable {κ α β : Type} [LinearOrder κ]

/-! ### Operations -/

def lookup (k : κ) : List (κ × α) → Option α
  | [] => none
  | (k', v) :: rest => if k = k' then some v else lookup k rest

def place (k : κ) (v : α) : List (κ × α) → List (κ × α)
  | [] => [(k, v)]
  | (k', v') :: rest =>
    if k < k' then (k, v) :: (k', v') :: rest
    else if k = k' then (k, v) :: rest
    else (k', v') :: place k v rest

attribute [local simp] place

variable {k : κ} {v : α} {xs : List (κ × α)}

theorem mem_place {e : κ × α} (mem : e ∈ place k v xs) :
    e = (k, v) ∨ e ∈ xs := by
  induction xs with
  | nil => simpa [place] using mem
  | cons x rest ih =>
    simp only [place] at mem
    split at mem
    · simpa using mem
    split at mem
    · rcases List.mem_cons.mp mem with here | there
      · exact .inl here
      · exact .inr (.tail _ there)
    · rcases List.mem_cons.mp mem with here | there
      · exact .inr (here ▸ .head _)
      · exact (ih there).imp_right (.tail _)

theorem place_sorted (sorted : xs.Pairwise fun a b => a.1 < b.1) :
    (place k v xs).Pairwise fun a b => a.1 < b.1 := by
  induction xs with
  | nil => simp [place]
  | cons x rest ih =>
    obtain ⟨above, below⟩ := List.pairwise_cons.mp sorted
    simp only [place]
    split
    next less =>
      refine List.pairwise_cons.mpr ⟨fun e mem => ?_, sorted⟩
      rcases List.mem_cons.mp mem with rfl | there
      · exact less
      · exact lt_trans less (above e there)
    split
    next same => exact List.pairwise_cons.mpr ⟨fun e mem => same ▸ above e mem, below⟩
    next notLess different =>
      refine List.pairwise_cons.mpr ⟨fun e mem => ?_, ih below⟩
      rcases mem_place mem with rfl | there
      · exact lt_of_le_of_ne (not_lt.mp notLess) (Ne.symm different)
      · exact above e there

/-- The entries of a list as a map has them; the last value of a key wins. -/
def collectEntries (es : List (κ × α)) : List (κ × α) := es.foldl (fun xs e => place e.1 e.2 xs) []

theorem place_last (last : ∀ e ∈ xs, e.1 < k) :
    place k v xs = xs ++ [(k, v)] := by
  induction xs with
  | nil => rfl
  | cons x rest ih =>
    have below := last x (.head _)
    rw [place, if_neg (not_lt_of_gt below), if_neg below.ne', ih fun e mem =>
      last e (.tail _ mem)]
    rfl

variable {es : List (κ × α)}

theorem foldl_place_sorted (sorted : (xs ++ es).Pairwise fun a b => a.1 < b.1) :
    es.foldl (fun xs e => place e.1 e.2 xs) xs = xs ++ es := by
  induction es generalizing xs with
  | nil => simp
  | cons e rest ih =>
    have ⟨_, _, apart⟩ := List.pairwise_append.mp sorted
    rw [List.foldl_cons, place_last fun x mem => apart x mem e (.head _),
      ih (by rwa [List.append_assoc]), List.append_assoc]
    rfl

theorem collectEntries_sorted (sorted : es.Pairwise fun a b => a.1 < b.1) :
    collectEntries es = es := by
  have built := @foldl_place_sorted _ _ _ [] es sorted
  rwa [List.nil_append] at built

theorem pairwise_collectEntries (es : List (κ × α)) :
    (collectEntries es).Pairwise fun a b => a.1 < b.1 := by
  have step (es xs : List (κ × α)) (sorted : xs.Pairwise fun a b => a.1 < b.1) :
      (es.foldl (fun xs e => place e.1 e.2 xs) xs).Pairwise fun a b => a.1 < b.1 := by
    induction es generalizing xs with
    | nil => exact sorted
    | cons e rest ih => exact ih _ (place_sorted sorted)
  exact step es [] .nil

theorem mem_place_self (k : κ) (v : α) (xs : List (κ × α)) : (k, v) ∈ place k v xs := by
  induction xs with
  | nil => exact .head _
  | cons x rest ih =>
    simp only [place]
    split
    · exact .head _
    split
    · exact .head _
    · exact List.mem_cons_of_mem _ ih

theorem mem_place_of_ne {e : κ × α} (mem : e ∈ xs) (other : e.1 ≠ k) : e ∈ place k v xs := by
  induction xs with
  | nil => cases mem
  | cons x rest ih =>
    simp only [place]
    split
    · exact List.mem_cons_of_mem _ mem
    split
    next same =>
      rcases List.mem_cons.mp mem with rfl | mem
      · exact absurd same.symm other
      · exact List.mem_cons_of_mem _ mem
    · rcases List.mem_cons.mp mem with rfl | mem
      · exact .head _
      · exact List.mem_cons_of_mem _ (ih mem)

theorem mem_of_mem_collectEntries {e : κ × α} (mem : e ∈ collectEntries es) : e ∈ es := by
  have origin (es xs : List (κ × α)) (held : e ∈ es.foldl (fun xs e => place e.1 e.2 xs) xs) :
      e ∈ xs ∨ e ∈ es := by
    induction es generalizing xs with
    | nil => exact .inl held
    | cons d rest ih =>
      rcases ih _ held with here | later
      · rcases mem_place here with rfl | before
        · exact .inr (.head _)
        · exact .inl before
      · exact .inr (.tail _ later)
  exact (origin es [] mem).resolve_left List.not_mem_nil

/-- Where no key is repeated nothing is lost. -/
theorem mem_collectEntries (unique : (es.map Prod.fst).Nodup) {e : κ × α} (mem : e ∈ es) :
    e ∈ collectEntries es := by
  have kept (es xs : List (κ × α)) (absent : ∀ d ∈ es, d.1 ≠ e.1) (held : e ∈ xs) :
      e ∈ es.foldl (fun xs e => place e.1 e.2 xs) xs := by
    induction es generalizing xs with
    | nil => exact held
    | cons d rest ih =>
      exact ih _ (fun d mem => absent d (.tail _ mem))
        (mem_place_of_ne held (absent d (.head _)).symm)
  have found (es xs : List (κ × α)) (unique : (es.map Prod.fst).Nodup) (mem : e ∈ es) :
      e ∈ es.foldl (fun xs e => place e.1 e.2 xs) xs := by
    induction es generalizing xs with
    | nil => cases mem
    | cons d rest ih =>
      rw [List.map_cons, List.nodup_cons] at unique
      rcases List.mem_cons.mp mem with rfl | mem
      · apply kept rest _ _ (mem_place_self _ _ _)
        intro d later same
        exact unique.1 (same ▸ List.mem_map_of_mem later)
      · exact ih _ unique.2 mem
  exact found es [] unique mem

def empty : OrderedMap κ α := ⟨[], .nil⟩

/-- `BTreeMap::insert`. -/
def insert (m : OrderedMap κ α) (k : κ) (v : α) : OrderedMap κ α :=
  ⟨place k v m.entries, place_sorted m.sorted⟩

/-- `BTreeMap::remove`. -/
def erase (m : OrderedMap κ α) (k : κ) : OrderedMap κ α :=
  ⟨m.entries.filter fun e => e.1 ≠ k, m.sorted.filter _⟩

/-- Change every value, as a pass over `iter_mut` does. -/
def mapValues {β : Type} (m : OrderedMap κ α) (f : κ → α → β) : OrderedMap κ β where
  entries := m.entries.map fun e => (e.1, f e.1 e.2)
  sorted := List.pairwise_map.mpr m.sorted

/-- `BTreeMap::get`. -/
def get? (m : OrderedMap κ α) (k : κ) : Option α := lookup k m.entries

/-- `BTreeMap::contains_key`. -/
def contains (m : OrderedMap κ α) (k : κ) : Bool := (m.get? k).isSome

def keys (m : OrderedMap κ α) : List κ := m.entries.map Prod.fst

def values (m : OrderedMap κ α) : List α := m.entries.map Prod.snd

def collectBy (key : α → κ) (xs : List α) : OrderedMap κ α :=
  xs.foldl (fun m x => m.insert (key x) x) empty

/-- Group a list under a key function, keeping the order inside a group. -/
def groupBy (key : α → κ) (xs : List α) : OrderedMap κ (List α) :=
  xs.foldl (fun m x => m.insert (key x) ((m.get? (key x)).getD [] ++ [x])) empty

/-! ### Lookups -/

theorem lookup_place (k q : κ) (v : α) (xs : List (κ × α)) :
    lookup q (place k v xs) = if q = k then some v else lookup q xs := by
  induction xs with
  | nil => rfl
  | cons x rest ih =>
    simp only [place]
    split
    · rfl
    split
    next same =>
      subst same
      simp only [lookup]
      split <;> rfl
    next _ different =>
      simp only [lookup, ih]
      split
      next here =>
        rw [if_neg]
        rintro rfl
        exact different here
      · rfl

theorem get?_insert (m : OrderedMap κ α) (k q : κ) (v : α) :
    (m.insert k v).get? q = if q = k then some v else m.get? q :=
  lookup_place k q v m.entries

theorem lookup_filter_ne (k q : κ) (xs : List (κ × α)) :
    lookup q (xs.filter fun e => e.1 ≠ k) = if q = k then none else lookup q xs := by
  induction xs with
  | nil => simp [lookup]
  | cons x rest ih =>
    obtain ⟨k', v⟩ := x
    by_cases same : k' = k
    · simp only [List.filter_cons, same, ne_eq, not_true_eq_false, decide_false,
        Bool.false_eq_true, if_false]
      simp only [ne_eq] at ih
      rw [ih]
      split
      · rfl
      next other => simp [lookup, other]
    · simp only [List.filter_cons, ne_eq, same, not_false_eq_true, decide_true, if_true, lookup]
      simp only [ne_eq] at ih
      rw [ih]
      by_cases here : q = k'
      · simp [here, same]
      · simp [here]

theorem get?_erase (m : OrderedMap κ α) (k q : κ) :
    (m.erase k).get? q = if q = k then none else m.get? q :=
  lookup_filter_ne k q m.entries

theorem get?_mapValues (m : OrderedMap κ α) (f : κ → α → β) (k : κ) :
    (m.mapValues f).get? k = (m.get? k).map (f k) := by
  obtain ⟨xs, sorted⟩ := m
  simp only [mapValues, get?]
  clear sorted
  induction xs with
  | nil => rfl
  | cons x rest ih =>
    obtain ⟨k', v⟩ := x
    simp only [List.map_cons, lookup, ih]
    split
    next same => rw [same, Option.map_some]
    next => rfl

variable {m : OrderedMap κ α}

theorem mem_entries :
    (k, v) ∈ m.entries ↔ m.get? k = some v := by
  obtain ⟨xs, sorted⟩ := m
  simp only [get?]
  induction xs with
  | nil => simp [lookup]
  | cons x rest ih =>
    obtain ⟨k', v'⟩ := x
    obtain ⟨above, below⟩ := List.pairwise_cons.mp sorted
    simp only [lookup, List.mem_cons, Prod.mk.injEq, ih below]
    split
    next same =>
      subst same
      -- A second entry of the head's key would break the strict order.
      have absent : lookup k rest ≠ some v := by
        intro found
        exact lt_irrefl k (above (k, v) ((ih below).mpr found))
      constructor
      · rintro (⟨_, rfl⟩ | found)
        · rfl
        · exact absurd found absent
      · rintro ⟨⟩
        exact .inl ⟨rfl, rfl⟩
    next different => simp [different]

theorem contains_iff : m.contains k = true ↔ ∃ v, m.get? k = some v :=
  Option.isSome_iff_exists

theorem contains_eq_false :
    m.contains k = false ↔ m.get? k = none := by
  rw [contains, Option.isSome_eq_false_iff, Option.isNone_iff_eq_none]

theorem mem_keys : k ∈ m.keys ↔ m.contains k = true := by
  rw [contains_iff, keys, List.mem_map]
  constructor
  · rintro ⟨⟨k, v⟩, mem, rfl⟩
    exact ⟨v, mem_entries.mp mem⟩
  · rintro ⟨v, found⟩
    exact ⟨(k, v), mem_entries.mpr found, rfl⟩

theorem keys_nodup (m : OrderedMap κ α) : m.keys.Nodup := by
  have strict : m.keys.Pairwise (· < ·) := List.pairwise_map.mpr m.sorted
  exact strict.imp ne_of_lt

/-- Iterating emits nothing exactly when no entry emits anything. -/
theorem flatMap_eq_nil {f : κ × α → List β} :
    m.entries.flatMap f = [] ↔ ∀ k v, m.get? k = some v → f (k, v) = [] := by
  rw [List.flatMap_eq_nil_iff]
  constructor
  · intro silent k v found
    exact silent (k, v) (mem_entries.mpr found)
  · rintro silent ⟨k, v⟩ mem
    exact silent k v (mem_entries.mp mem)

theorem mem_flatMap {f : κ × α → List β} {b : β} :
    b ∈ m.entries.flatMap f ↔ ∃ k v, m.get? k = some v ∧ b ∈ f (k, v) := by
  rw [List.mem_flatMap]
  constructor
  · rintro ⟨⟨k, v⟩, mem, emitted⟩
    exact ⟨k, v, mem_entries.mp mem, emitted⟩
  · rintro ⟨k, v, found, emitted⟩
    exact ⟨(k, v), mem_entries.mpr found, emitted⟩

/-! ### Collecting -/

theorem get?_foldl_value {ι : Type} (key : ι → κ) (value : ι → α) (xs : List ι)
    (m : OrderedMap κ α) (k : κ) :
    (xs.foldl (fun m x => m.insert (key x) (value x)) m).get? k =
      ((xs.reverse.find? fun x => key x = k).map value).or (m.get? k) := by
  induction xs generalizing m with
  | nil => rfl
  | cons x rest ih =>
    rw [List.foldl_cons, ih, get?_insert, List.reverse_cons, List.find?_append]
    cases rest.reverse.find? fun y => key y = k with
    | some y => rfl
    | none =>
      rcases eq_or_ne k (key x) with rfl | different
      · simp
      · simp [different, different.symm]

/-- Where elements with the same key have the same value, every element's value is found. -/
theorem get?_foldl_consistent {ι : Type} {key : ι → κ} {value : ι → α} {xs : List ι}
    (consistent : ∀ x ∈ xs, ∀ y ∈ xs, key x = key y → value x = value y) {x : ι} (mem : x ∈ xs) :
    (xs.foldl (fun m x => m.insert (key x) (value x)) m).get? (key x) = some (value x) := by
  rw [get?_foldl_value]
  cases found : xs.reverse.find? fun y => key y = key x with
  | none =>
    have absent := List.find?_eq_none.mp found x (List.mem_reverse.mpr mem)
    simp at absent
  | some y =>
    have same : key y = key x := by simpa using List.find?_some found
    have among := List.mem_reverse.mp (List.mem_of_find?_eq_some found)
    rw [Option.map_some, Option.some_or, consistent y among x mem same]

/-- Inserting entries with distinct keys one after the other gives a map with just these entries. -/
theorem get?_foldl_entries (unique : (xs.map Prod.fst).Nodup) :
    (xs.foldl (fun m x => m.insert x.1 x.2) empty).get? k = some v ↔ (k, v) ∈ xs := by
  constructor
  · intro found
    rw [get?_foldl_value] at found
    obtain ⟨x, here, rfl⟩ := Option.map_eq_some_iff.mp (found.symm.trans Option.or_none).symm
    have same : x.1 = k := by simpa using List.find?_some here
    subst same
    exact List.mem_reverse.mp (List.mem_of_find?_eq_some here)
  · intro mem
    have consistent : ∀ x ∈ xs, ∀ y ∈ xs, x.1 = y.1 → x.2 = y.2 := fun x here y there same =>
      congrArg Prod.snd (List.inj_on_of_nodup_map unique here there same)
    exact get?_foldl_consistent consistent mem

/-- A map is what can be looked up in it. -/
theorem eq_of_get? {n : OrderedMap κ α} (same : ∀ k, m.get? k = n.get? k) : m = n := by
  obtain ⟨xs, sorted⟩ := m
  obtain ⟨ys, sorted'⟩ := n
  have perm : xs.Perm ys := by
    refine (List.perm_ext_iff_of_nodup (sorted.imp fun less same => ?_)
      (sorted'.imp fun less same => ?_)).mpr fun ⟨k, v⟩ => ?_
    · exact absurd (same ▸ less) (lt_irrefl _)
    · exact absurd (same ▸ less) (lt_irrefl _)
    · exact (mem_entries (m := ⟨xs, sorted⟩)).trans
        ((same k).symm ▸ (mem_entries (m := ⟨ys, sorted'⟩)).symm)
  congr
  refine perm.eq_of_pairwise ?_ sorted sorted'
  intro a b _ _ below above
  exact absurd (lt_trans below above) (lt_irrefl _)

theorem get?_foldl_insert (key : α → κ) (xs : List α) (m : OrderedMap κ α) (k : κ) :
    (xs.foldl (fun m x => m.insert (key x) x) m).get? k =
      (xs.reverse.find? fun x => key x = k).or (m.get? k) := by
  rw [get?_foldl_value key fun x => x, Option.map_id']

/-- The last element with the key. -/
theorem get?_collectBy (key : α → κ) (xs : List α) (k : κ) :
    (collectBy key xs).get? k = xs.reverse.find? fun x => key x = k := by
  rw [collectBy, get?_foldl_insert]
  exact Option.or_none

variable {key : α → κ}

theorem get?_collectBy_some {xs : List α} {x : α} (found : (collectBy key xs).get? k = some x) :
    x ∈ xs ∧ key x = k := by
  rw [get?_collectBy] at found
  exact ⟨List.mem_reverse.mp (List.mem_of_find?_eq_some found), by
    simpa using List.find?_some found⟩

theorem contains_collectBy {xs : List α} :
    (collectBy key xs).contains k = true ↔ ∃ x ∈ xs, key x = k := by
  rw [contains, get?_collectBy, List.find?_isSome]
  simp

/-- With distinct keys every element is found under its own key. -/
theorem get?_collectBy_iff {xs : List α} (unique : (xs.map key).Nodup) {x : α} :
    (collectBy key xs).get? k = some x ↔ x ∈ xs ∧ key x = k := by
  refine ⟨get?_collectBy_some, ?_⟩
  rintro ⟨mem, rfl⟩
  have present : (collectBy key xs).contains (key x) = true :=
    contains_collectBy.mpr ⟨x, mem, rfl⟩
  obtain ⟨y, found⟩ := contains_iff.mp present
  obtain ⟨mem', same⟩ := get?_collectBy_some found
  rw [found, List.inj_on_of_nodup_map unique mem' mem same]

/-! ### Grouping -/

theorem getD_foldl_group (key : α → κ) (xs : List α) (m : OrderedMap κ (List α)) (k : κ) :
    ((xs.foldl (fun m x => m.insert (key x) ((m.get? (key x)).getD [] ++ [x])) m).get? k).getD [] =
      (m.get? k).getD [] ++ xs.filter fun x => key x = k := by
  induction xs generalizing m with
  | nil => simp
  | cons x rest ih =>
    rw [List.foldl_cons, ih, get?_insert]
    rcases eq_or_ne k (key x) with rfl | different
    · simp
    · rw [if_neg different, List.filter_cons_of_neg (by simpa using different.symm)]

/-- A group holds the elements of its key, in order. -/
theorem getD_groupBy (key : α → κ) (xs : List α) (k : κ) :
    ((groupBy key xs).get? k).getD [] = xs.filter fun x => key x = k := by
  rw [groupBy, getD_foldl_group]
  rfl

theorem contains_foldl_group (key : α → κ) (xs : List α) (m : OrderedMap κ (List α)) (k : κ) :
    (xs.foldl (fun m x => m.insert (key x) ((m.get? (key x)).getD [] ++ [x])) m).contains k = true ↔
      (∃ x ∈ xs, key x = k) ∨ m.contains k = true := by
  induction xs generalizing m with
  | nil => simp
  | cons x rest ih =>
    rw [List.foldl_cons, ih]
    simp only [contains, get?_insert, List.mem_cons, exists_eq_or_imp]
    rcases eq_or_ne k (key x) with rfl | different
    · simp
    · simp [different, different.symm]

theorem contains_groupBy {xs : List α} :
    (groupBy key xs).contains k = true ↔ ∃ x ∈ xs, key x = k := by
  rw [groupBy, contains_foldl_group]
  simp [contains, get?, empty, lookup]

/-! ### Editing the collected list -/

/-- Collecting two lists: what the second one lacks comes from the first. -/
theorem get?_collectBy_or (key : α → κ) (xs ys : List α) (k : κ) :
    (collectBy key (xs ++ ys)).get? k =
      ((collectBy key ys).get? k).or ((collectBy key xs).get? k) := by
  simp only [get?_collectBy, List.reverse_append, List.find?_append]

theorem get?_collectBy_append (key : α → κ) (xs : List α) (x : α) (k : κ) :
    (collectBy key (xs ++ [x])).get? k =
      if key x = k then some x else (collectBy key xs).get? k := by
  simp only [collectBy, List.foldl_append, List.foldl_cons, List.foldl_nil, get?_insert,
    eq_comm (b := key x)]

theorem get?_collectBy_filter (key : α → κ) (xs : List α) (n k : κ) :
    (collectBy key (xs.filter fun x => key x ≠ n)).get? k =
      if n = k then none else (collectBy key xs).get? k := by
  rw [get?_collectBy, get?_collectBy, ← List.filter_reverse]
  split
  next same =>
    rw [List.find?_eq_none]
    intro x mem
    have differs := (List.mem_filter.mp mem).2
    simpa [same] using differs
  next different =>
    rw [List.find?_filter]
    congr 1
    funext x
    by_cases here : key x = k <;> simp [here, Ne.symm different]

/-- A rewriting that keeps the keys rewrites the values found under them. -/
theorem get?_collectBy_map (key : α → κ) (g : α → α) (keeps : ∀ x, key (g x) = key x)
    (xs : List α) (k : κ) :
    (collectBy key (xs.map g)).get? k = ((collectBy key xs).get? k).map g := by
  rw [get?_collectBy, get?_collectBy, ← List.map_reverse, List.find?_map]
  congr 2
  funext x
  simp [keeps]

/-- Replacing the elements of one key by another element of that key. -/
theorem get?_collectBy_replace (key : α → κ) (xs : List α) {n : κ} {z : α} (own : key z = n)
    (k : κ) : (collectBy key (xs.map fun x => if key x = n then z else x)).get? k =
      if n = k then ((collectBy key xs).get? k).map fun _ => z else (collectBy key xs).get? k := by
  have keeps : ∀ x, key (if key x = n then z else x) = key x := by
    intro x
    split <;> simp_all
  rw [get?_collectBy_map key _ keeps]
  cases found : (collectBy key xs).get? k with
  | none => simp
  | some x =>
    have under := (get?_collectBy_some found).2
    simp only [Option.map_some, under, eq_comm (a := k)]
    split <;> rfl

theorem find?_entries (m : OrderedMap κ α) (k : κ) :
    m.entries.find? (fun e => e.1 = k) = (m.get? k).map fun v => (k, v) := by
  obtain ⟨xs, sorted⟩ := m
  simp only [get?]
  clear sorted
  induction xs with
  | nil => rfl
  | cons x rest ih =>
    obtain ⟨k', v⟩ := x
    rcases eq_or_ne k' k with rfl | different
    · simp [lookup]
    · simp [lookup, different, different.symm, ih]

/-- When every action touches the view at its own key only, a whole list of
actions with distinct keys acts at each key at most once. -/
theorem foldl_touch {σ ι β : Type} (view : σ → κ → β) (key : ι → κ) (act : σ → ι → σ)
    (effect : ι → β → β) (is : List ι)
    (touches : ∀ i ∈ is, ∀ s k, view (act s i) k = if key i = k then effect i (view s k) else view s k)
    (distinct : (is.map key).Nodup) (s : σ) (k : κ) :
    view (is.foldl act s) k =
      ((is.find? fun i => key i = k).map fun i => effect i (view s k)).getD (view s k) := by
  induction is generalizing s with
  | nil => rfl
  | cons i rest ih =>
    rw [List.map_cons, List.nodup_cons] at distinct
    have first := touches i (.head _) s k
    rw [List.foldl_cons, ih (fun j later => touches j (.tail _ later)) distinct.2]
    rcases eq_or_ne (key i) k with rfl | different
    · -- No later action has this key, so the view stays as the first one left it.
      have none : (rest.find? fun j => key j = key i) = none := by
        rw [List.find?_eq_none]
        intro j later same
        exact distinct.1 (List.mem_map.mpr ⟨j, later, by simpa using same⟩)
      simp [none, first]
    · simp [first, different]

/-- Emitting a list per entry and running it: every key is acted on at most once. -/
theorem foldl_flatMap_touch {σ γ δ : Type} (view : σ → κ → γ) (act : σ → δ → σ)
    (emit : κ × α → List δ) (effect : κ × α → γ → γ) (m : OrderedMap κ α)
    (touches : ∀ k v, m.get? k = some v → ∀ s q, view ((emit (k, v)).foldl act s) q =
      if k = q then effect (k, v) (view s q) else view s q) (s : σ) (q : κ) :
    view ((m.entries.flatMap emit).foldl act s) q =
      ((m.get? q).map fun v => effect (q, v) (view s q)).getD (view s q) := by
  rw [List.foldl_flatMap]
  have pointwise := foldl_touch view Prod.fst (fun s e => (emit e).foldl act s) effect m.entries
    (fun e mem => touches e.1 e.2 (mem_entries.mp mem)) m.keys_nodup s q
  rw [pointwise, find?_entries, Option.map_map]
  rfl

/-! ### Repeated changes -/

section Repeated

variable (map : OrderedMap κ α) (name : κ) (value other : α)

theorem insert_insert : (map.insert name value).insert name other = map.insert name other := by
  refine eq_of_get? fun q => ?_
  simp only [get?_insert]
  split <;> rfl

theorem insert_erase : (map.erase name).insert name value = map.insert name value := by
  refine eq_of_get? fun q => ?_
  simp only [get?_insert, get?_erase]
  split <;> rfl

theorem erase_insert : (map.insert name value).erase name = map.erase name := by
  refine eq_of_get? fun q => ?_
  simp only [get?_insert, get?_erase]
  split <;> rfl

theorem erase_erase : (map.erase name).erase name = map.erase name := by
  refine eq_of_get? fun q => ?_
  simp only [get?_erase]
  split <;> rfl

/-- The other entries stay when one is placed. -/
theorem erase_sublist_insert :
    (map.erase name).entries.Sublist (map.insert name value).entries := by
  simp only [erase, insert]
  induction map.entries with
  | nil => exact List.nil_sublist _
  | cons entry rest ih =>
    rw [List.filter_cons, place]
    split
    next other =>
      split
      · exact ((List.filter_sublist.cons_cons entry).cons _)
      split
      next same => simp [same] at other
      next => exact ih.cons_cons _
    next same =>
      split
      · exact (List.filter_sublist.cons entry).cons _
      split
      · exact List.filter_sublist.cons _
      · exact ih.cons _

end Repeated

end OrderedMap
