import GraphqlOrm.Foundation.OrderedMap
import Mathlib.Data.List.Sort

/-!
# Sorting and grouping lists

`sort_by` with a key comparison. Elements of one key keep their order, so sorting
neither changes what a map collects nor, for a known sequence of keys, loses the
original list.
-/

/-- Of elements of one kind, all or none are selected by a kind. -/
theorem filter_kind {α κ : Type} [DecidableEq κ] {kind : α → κ} {xs : List α} {k : κ}
    (all : ∀ x ∈ xs, kind x = k) (other : κ) :
    xs.filter (fun x => kind x = other) = if k = other then xs else [] := by
  split
  next same =>
    rw [List.filter_eq_self]
    intro x mem
    simp [all x mem, same]
  next different =>
    rw [List.filter_eq_nil_iff]
    intro x mem
    simp [all x mem, different]

variable {κ α : Type} [LinearOrder κ]

def sortBy (key : α → κ) (xs : List α) : List α := xs.insertionSort fun a b => key a ≤ key b

theorem sortBy_nil (key : α → κ) : sortBy key [] = [] := rfl

theorem sortBy_singleton (key : α → κ) (x : α) : sortBy key [x] = [x] := rfl

theorem sortBy_perm (key : α → κ) (xs : List α) : (sortBy key xs).Perm xs :=
  List.perm_insertionSort _ xs

variable {key : α → κ} {xs : List α}

theorem mem_sortBy {x : α} : x ∈ sortBy key xs ↔ x ∈ xs :=
  (sortBy_perm key xs).mem_iff

theorem sortBy_ordered (key : α → κ) (xs : List α) :
    (sortBy key xs).Pairwise fun a b => key a ≤ key b := by
  have total : Std.Total fun a b : α => key a ≤ key b := ⟨fun a b => le_total (key a) (key b)⟩
  have trans : IsTrans α fun a b => key a ≤ key b := ⟨fun _ _ _ => le_trans⟩
  exact List.pairwise_insertionSort _ xs

/-- The elements of one key, before and after. -/
theorem filter_sortBy (key : α → κ) (xs : List α) (k : κ) :
    (sortBy key xs).filter (fun x => key x = k) = xs.filter fun x => key x = k := by
  have ordered : (xs.filter fun x => key x = k).Pairwise fun a b => key a ≤ key b := by
    rw [List.pairwise_iff_forall_sublist]
    intro a b pair
    have own : ∀ x ∈ [a, b], key x = k := fun x mem => by
      simpa using (List.mem_filter.mp (pair.subset mem)).2
    rw [own a (by simp), own b (by simp)]
  have kept := List.sublist_insertionSort ordered List.filter_sublist
  have inside := kept.filter fun x => key x = k
  rw [List.filter_filter] at inside
  simp only [Bool.and_self] at inside
  -- A sublist of the same length is the whole list.
  exact (inside.eq_of_length ((sortBy_perm key xs).filter _).length_eq.symm).symm

theorem get?_collectBy_sortBy (key : α → κ) (xs : List α) (k : κ) :
    (OrderedMap.collectBy key (sortBy key xs)).get? k = (OrderedMap.collectBy key xs).get? k := by
  have last (ys : List α) : ys.reverse.find? (fun x => key x = k) =
      (ys.filter fun x => key x = k).getLast? := by
    rw [← List.head?_filter, List.filter_reverse, List.head?_reverse]
  rw [OrderedMap.get?_collectBy, OrderedMap.get?_collectBy, last, last, filter_sortBy]

variable {ys : List α}

/-- Lists with equal keys and related elements collect related values. -/
theorem get?_collectBy_forall₂ {R : α → α → Prop}
    (related : List.Forall₂ (fun x y => key x = key y ∧ R x y) xs ys) (k : κ) :
    Option.Rel R ((OrderedMap.collectBy key xs).get? k) ((OrderedMap.collectBy key ys).get? k) := by
  rw [OrderedMap.get?_collectBy, OrderedMap.get?_collectBy]
  have reversed := List.rel_reverse related
  generalize xs.reverse = us, ys.reverse = vs at reversed
  induction reversed with
  | nil => exact .none
  | @cons a b as bs here _ ih =>
    rcases eq_or_ne (key b) k with found | other
    · rw [List.find?_cons_of_pos (by simpa [here.1] using found),
        List.find?_cons_of_pos (by simpa using found)]
      exact .some here.2
    · rw [List.find?_cons_of_neg (by simpa [here.1] using other),
        List.find?_cons_of_neg (by simpa using other)]
      exact ih

theorem get?_collectBy_sorted {R : α → α → Prop}
    (related : List.Forall₂ (fun x y => key x = key y ∧ R x y) (sortBy key xs) (sortBy key ys))
    (k : κ) :
    Option.Rel R ((OrderedMap.collectBy key xs).get? k) ((OrderedMap.collectBy key ys).get? k) := by
  rw [← get?_collectBy_sortBy, ← get?_collectBy_sortBy key ys]
  exact get?_collectBy_forall₂ related k

/-- Equal groups of lists whose heads have one key: the heads are equal, and the rests have
equal groups. -/
theorem groups_cons {x y : α} (heads : key x = key y)
    (groups : ∀ k, (x :: xs).filter (fun z => key z = k) = (y :: ys).filter fun z => key z = k) :
    x = y ∧ ∀ k, xs.filter (fun z => key z = k) = ys.filter fun z => key z = k := by
  have here := groups (key x)
  rw [List.filter_cons_of_pos (by simp), List.filter_cons_of_pos (by simp [heads])] at here
  obtain ⟨rfl, _⟩ := List.cons.inj here
  refine ⟨rfl, fun k => ?_⟩
  have group := groups k
  rcases eq_or_ne (key x) k with same | other
  · rwa [List.filter_cons_of_pos (by simpa using same),
      List.filter_cons_of_pos (by simpa using same), List.cons.injEq, and_iff_right rfl] at group
  · rwa [List.filter_cons_of_neg (by simpa using other),
      List.filter_cons_of_neg (by simpa using other)] at group

/-- With a known sequence of keys the sorted list determines the original. -/
theorem sortBy_injective (keys : xs.map key = ys.map key) (sorted : sortBy key xs = sortBy key ys) :
    xs = ys := by
  have groups (k : κ) : xs.filter (fun x => key x = k) = ys.filter fun x => key x = k := by
    rw [← filter_sortBy, sorted, filter_sortBy]
  clear sorted
  induction xs generalizing ys with
  | nil => simpa using keys.symm
  | cons x rest ih =>
    cases ys with
    | nil => cases keys
    | cons y others =>
      simp only [List.map_cons, List.cons.injEq] at keys
      -- Both heads come first in the group of their common key.
      obtain ⟨rfl, rests⟩ := groups_cons keys.1 groups
      rw [ih keys.2 rests]

/-! ### The order of the input -/

/-- Where a key determines its element, the sorted list depends on the elements only. -/
theorem sortBy_eq_of_perm (perm : xs.Perm ys)
    (determined : ∀ x ∈ xs, ∀ y ∈ xs, key x = key y → x = y) : sortBy key xs = sortBy key ys := by
  have whole : (sortBy key xs).Perm (sortBy key ys) :=
    (sortBy_perm key xs).trans (perm.trans (sortBy_perm key ys).symm)
  refine whole.eq_of_pairwise ?_ (sortBy_ordered key xs) (sortBy_ordered key ys)
  intro a b left right below above
  exact determined a (mem_sortBy.mp left) b (perm.mem_iff.mpr (mem_sortBy.mp right))
    (le_antisymm below above)

/-- What is written of sorted elements depends on their keys and texts only. -/
theorem map_sortBy_eq {β : Type} {text : α → β}
    (perm : (xs.map fun x => (key x, text x)).Perm (ys.map fun y => (key y, text y)))
    (determined : ∀ x ∈ xs, ∀ y ∈ xs, key x = key y → text x = text y) :
    (sortBy key xs).map text = (sortBy key ys).map text := by
  have texts (zs : List α) : (sortBy key zs).map text =
      (sortBy Prod.fst (zs.map fun z => (key z, text z))).map Prod.snd := by
    unfold sortBy
    rw [← List.map_insertionSort (fun a b => key a ≤ key b) (fun a b : κ × β => a.1 ≤ b.1)
      (fun z => (key z, text z)) zs fun _ _ _ _ => Iff.rfl, List.map_map]
    rfl
  rw [texts xs, texts ys, sortBy_eq_of_perm perm]
  rintro a left b right same
  obtain ⟨x, inside, rfl⟩ := List.mem_map.mp left
  obtain ⟨y, among, rfl⟩ := List.mem_map.mp right
  exact Prod.ext same (determined x inside y among same)

/-- Sorting commutes with a map that keeps the order. -/
theorem sortBy_map {κ' β : Type} [LinearOrder κ'] {key' : β → κ'} {f : α → β}
    (same : ∀ a ∈ xs, ∀ b ∈ xs, key a ≤ key b ↔ key' (f a) ≤ key' (f b)) :
    sortBy key' (xs.map f) = (sortBy key xs).map f :=
  (List.map_insertionSort (fun a b => key a ≤ key b) (fun a b => key' a ≤ key' b) f xs same).symm

/-! ### Inserting one at a time -/

/-- Sorted lists with the same groups are equal. -/
theorem eq_of_ordered_groups (first : xs.Pairwise fun a b => key a ≤ key b)
    (second : ys.Pairwise fun a b => key a ≤ key b)
    (groups : ∀ k, xs.filter (fun x => key x = k) = ys.filter fun x => key x = k) : xs = ys := by
  have inside {as bs : List α} (same : ∀ k, as.filter (fun x => key x = k) =
      bs.filter fun x => key x = k) {x : α} (mem : x ∈ as) : x ∈ bs := by
    have own : x ∈ as.filter fun y => key y = key x := List.mem_filter.mpr ⟨mem, by simp⟩
    rw [same] at own
    exact (List.mem_filter.mp own).1
  induction xs generalizing ys with
  | nil =>
    symm
    rw [List.eq_nil_iff_forall_not_mem]
    exact fun y mem => absurd (inside (fun k => (groups k).symm) mem) List.not_mem_nil
  | cons x rest ih =>
    cases ys with
    | nil => exact absurd (inside groups (.head _)) List.not_mem_nil
    | cons y others =>
      rw [List.pairwise_cons] at first second
      have below : key x ≤ key y := by
        rcases List.mem_cons.mp (inside (fun k => (groups k).symm) (.head _)) with
          rfl | later
        · exact le_rfl
        · exact first.1 y later
      have above : key y ≤ key x := by
        rcases List.mem_cons.mp (inside groups (.head _)) with rfl | later
        · exact le_rfl
        · exact second.1 x later
      have heads : key x = key y := le_antisymm below above
      obtain ⟨rfl, rests⟩ := groups_cons heads groups
      rw [ih first.2 second.2 rests]

theorem sortBy_of_ordered (ordered : xs.Pairwise fun a b => key a ≤ key b) : sortBy key xs = xs :=
  eq_of_ordered_groups (sortBy_ordered key xs) ordered (filter_sortBy key xs)

theorem sortBy_filter (key : α → κ) (p : α → Bool) (xs : List α) :
    sortBy key (xs.filter p) = (sortBy key xs).filter p := by
  refine eq_of_ordered_groups (sortBy_ordered _ _) ((sortBy_ordered key xs).filter p) fun k => ?_
  rw [filter_sortBy, List.filter_filter, List.filter_filter]
  simp only [Bool.and_comm _ (p _)]
  rw [← List.filter_filter, ← List.filter_filter, filter_sortBy]

/-- A part that is sorted beforehand makes no difference. -/
theorem sortBy_append_sortBy (key : α → κ) (xs ys : List α) :
    sortBy key (xs ++ sortBy key ys) = sortBy key (xs ++ ys) := by
  refine eq_of_ordered_groups (sortBy_ordered _ _) (sortBy_ordered _ _) fun k => ?_
  rw [filter_sortBy, filter_sortBy, List.filter_append, List.filter_append, filter_sortBy]

def insertAfter (key : α → κ) (x : α) : List α → List α
  | [] => [x]
  | y :: ys => if key y ≤ key x then y :: insertAfter key x ys else x :: y :: ys

/-- A new last element and a new first one find their places independently. -/
theorem insertAfter_orderedInsert (key : α → κ) (x y : α) (xs : List α) :
    insertAfter key x (xs.orderedInsert (fun a b => key a ≤ key b) y) =
      (insertAfter key x xs).orderedInsert (fun a b => key a ≤ key b) y := by
  induction xs with
  | nil => simp only [List.orderedInsert, insertAfter]
  | cons z zs ih =>
    rcases le_or_gt (key y) (key z) with first | later
    · rcases le_or_gt (key z) (key x) with behind | before
      · simp only [List.orderedInsert, insertAfter, if_pos first, if_pos behind,
          if_pos (first.trans behind)]
      · simp only [List.orderedInsert, insertAfter, if_pos first, if_neg before.not_ge]
    · rcases le_or_gt (key z) (key x) with behind | before
      · simp only [List.orderedInsert, insertAfter, if_neg later.not_ge, if_pos behind, ih]
      · simp only [List.orderedInsert, insertAfter, if_neg later.not_ge, if_neg before.not_ge,
          if_neg (before.trans later).not_ge]

/-- A sorted list grows by one element. -/
theorem insertAfter_sortBy (key : α → κ) (x : α) (xs : List α) :
    insertAfter key x (sortBy key xs) = sortBy key (xs ++ [x]) := by
  induction xs with
  | nil => rfl
  | cons y ys ih =>
    rw [List.cons_append, sortBy, List.insertionSort_cons, insertAfter_orderedInsert, ← sortBy, ih]
    rfl

/-- The first elements of a list decide the first elements of the grown one. -/
theorem take_insertAfter (key : α → κ) (x : α) (window : Nat) (xs : List α) :
    (insertAfter key x (xs.take window)).take window = (insertAfter key x xs).take window := by
  induction xs generalizing window with
  | nil => rw [List.take_nil]
  | cons y ys ih =>
    cases window with
    | zero => rw [List.take_zero, List.take_zero]
    | succ window =>
      rw [List.take_succ_cons]
      unfold insertAfter
      split
      · rw [List.take_succ_cons, List.take_succ_cons, ih]
      · rw [List.take_succ_cons, List.take_succ_cons]
        cases window with
        | zero => rw [List.take_zero, List.take_zero]
        | succ window =>
          rw [List.take_succ_cons, List.take_succ_cons, List.take_take,
            Nat.min_eq_left (Nat.le_succ window)]

/-- Insertion splits a list at the first greater element. -/
theorem insertAfter_eq (key : α → κ) (x : α) (xs : List α) :
    insertAfter key x xs = xs.takeWhile (fun y => key y ≤ key x) ++
      x :: xs.dropWhile fun y => key y ≤ key x := by
  induction xs with
  | nil => rfl
  | cons y ys ih =>
    unfold insertAfter
    split
    next behind =>
      rw [List.takeWhile_cons_of_pos (by simpa using behind),
        List.dropWhile_cons_of_pos (by simpa using behind), ih]
      rfl
    next before =>
      rw [List.takeWhile_cons_of_neg (by simpa using before),
        List.dropWhile_cons_of_neg (by simpa using before)]
      rfl
