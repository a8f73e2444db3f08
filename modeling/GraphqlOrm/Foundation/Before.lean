import Mathlib.Data.List.Basic

/-!
# Order of two elements in a list

An element comes before another when the two form a sublist. Concatenation and
iteration split such a pair into the places where its members can stand.
-/

/-- `x` occurs somewhere before an occurrence of `y`. -/
def Before {α : Type} (xs : List α) (x y : α) : Prop := [x, y].Sublist xs

namespace Before

variable {α β : Type}

variable {xs : List α} {x y : α}

theorem left_mem (before : Before xs x y) : x ∈ xs :=
  before.subset (.head _)

theorem right_mem (before : Before xs x y) : y ∈ xs :=
  before.subset (.tail _ (.head _))

theorem append_iff {ys : List α} :
    Before (xs ++ ys) x y ↔ Before xs x y ∨ (x ∈ xs ∧ y ∈ ys) ∨ Before ys x y := by
  constructor
  · intro before
    obtain ⟨left, right, split, inLeft, inRight⟩ := List.sublist_append_iff.mp before
    match left, split with
    | [], split =>
      rw [List.nil_append] at split
      subst split
      exact .inr (.inr inRight)
    | [a], split =>
      simp only [List.cons_append, List.nil_append, List.cons.injEq] at split
      obtain ⟨rfl, rfl⟩ := split
      exact .inr (.inl ⟨List.singleton_sublist.mp inLeft, List.singleton_sublist.mp inRight⟩)
    | a :: b :: rest, split =>
      simp only [List.cons_append, List.cons.injEq, List.nil_eq, List.append_eq_nil_iff] at split
      obtain ⟨rfl, rfl, rfl, rfl⟩ := split
      exact .inl inLeft
  · rintro (both | ⟨here, there⟩ | both)
    · exact both.trans (List.sublist_append_left xs ys)
    · exact (List.singleton_sublist.mpr here).append (List.singleton_sublist.mpr there)
    · exact both.trans (List.sublist_append_right xs ys)

theorem cons_iff {a : α} :
    Before (a :: xs) x y ↔ (x = a ∧ y ∈ xs) ∨ Before xs x y := by
  rw [← List.singleton_append, append_iff, List.mem_singleton]
  constructor
  · rintro (both | rest)
    · have short := both.length_le
      simp at short
    · exact rest
  · exact .inr

/-- In an iteration the pair stems from one element, or from two in order. -/
theorem flatMap_iff {f : α → List β} {x y : β} :
    Before (xs.flatMap f) x y ↔
      (∃ a ∈ xs, Before (f a) x y) ∨ ∃ a b, Before xs a b ∧ x ∈ f a ∧ y ∈ f b := by
  induction xs with
  | nil =>
    constructor
    · intro before
      have short := before.length_le
      simp at short
    · rintro (⟨_, mem, _⟩ | ⟨_, _, before, _⟩)
      · cases mem
      · exact absurd before.left_mem List.not_mem_nil
  | cons first rest ih =>
    rw [List.flatMap_cons, append_iff, ih]
    constructor
    · rintro (inside | ⟨here, later⟩ | ⟨a, mem, inside⟩ | ⟨a, b, before, here, there⟩)
      · exact .inl ⟨first, .head _, inside⟩
      · obtain ⟨b, mem, there⟩ := List.mem_flatMap.mp later
        exact .inr ⟨first, b, cons_iff.mpr (.inl ⟨rfl, mem⟩), here, there⟩
      · exact .inl ⟨a, List.mem_cons_of_mem _ mem, inside⟩
      · exact .inr ⟨a, b, cons_iff.mpr (.inr before), here, there⟩
    · rintro (⟨a, mem, inside⟩ | ⟨a, b, before, here, there⟩)
      · rcases List.mem_cons.mp mem with rfl | mem
        · exact .inl inside
        · exact .inr (.inr (.inl ⟨a, mem, inside⟩))
      · rcases cons_iff.mp before with ⟨rfl, mem⟩ | before
        · exact .inr (.inl ⟨here, List.mem_flatMap.mpr ⟨b, mem, there⟩⟩)
        · exact .inr (.inr (.inr ⟨a, b, before, here, there⟩))

theorem map_iff {f : α → β} {x y : β} :
    Before (xs.map f) x y ↔ ∃ a b, Before xs a b ∧ f a = x ∧ f b = y := by
  unfold Before
  rw [List.sublist_map_iff]
  constructor
  · rintro ⟨parts, inside, split⟩
    match parts, split with
    | [a, b], rfl => exact ⟨a, b, inside, rfl, rfl⟩
  · rintro ⟨a, b, inside, rfl, rfl⟩
    exact ⟨[a, b], inside, rfl⟩

theorem reverse_iff : Before xs.reverse x y ↔ Before xs y x := by
  unfold Before
  rw [← List.reverse_sublist, List.reverse_reverse]
  rfl

/-- Elements with distinct keys never come before one of their own key. -/
theorem ne_of_nodup {κ : Type} {key : α → κ} (distinct : (xs.map key).Nodup)
    (before : Before xs x y) : key x ≠ key y := by
  have pair := (before.map key).nodup distinct
  simpa using pair

theorem total (left : x ∈ xs) (right : y ∈ xs) (other : x ≠ y) :
    Before xs x y ∨ Before xs y x := by
  induction xs with
  | nil => cases left
  | cons a rest ih =>
    rcases List.mem_cons.mp left with rfl | first
    · have later := (List.mem_cons.mp right).resolve_left other.symm
      exact .inl (cons_iff.mpr (.inl ⟨rfl, later⟩))
    rcases List.mem_cons.mp right with rfl | second
    · exact .inr (cons_iff.mpr (.inl ⟨rfl, first⟩))
    · exact (ih first second).imp (fun before => cons_iff.mpr (.inr before))
        fun before => cons_iff.mpr (.inr before)

theorem asymm (distinct : xs.Nodup) (before : Before xs x y) :
    ¬ Before xs y x := by
  intro back
  induction xs with
  | nil => exact absurd before.left_mem List.not_mem_nil
  | cons a rest ih =>
    obtain ⟨fresh, others⟩ := List.nodup_cons.mp distinct
    rcases cons_iff.mp before with ⟨rfl, _⟩ | inside
    · rcases cons_iff.mp back with ⟨rfl, twice⟩ | later
      · exact fresh twice
      · exact fresh later.right_mem
    · rcases cons_iff.mp back with ⟨rfl, _⟩ | later
      · exact fresh inside.right_mem
      · exact ih others inside later

/-- Where nothing is repeated, what comes before has the smaller index. -/
theorem idxOf_lt [DecidableEq α] (distinct : xs.Nodup) (before : Before xs x y) :
    xs.idxOf x < xs.idxOf y := by
  induction xs with
  | nil => exact absurd before.left_mem List.not_mem_nil
  | cons a rest ih =>
    obtain ⟨fresh, others⟩ := List.nodup_cons.mp distinct
    rcases cons_iff.mp before with ⟨rfl, later⟩ | inside
    · rw [List.idxOf_cons_self, List.idxOf_cons_ne _ (ne_of_mem_of_not_mem later fresh).symm]
      exact Nat.succ_pos _
    · rw [List.idxOf_cons_ne _ (ne_of_mem_of_not_mem inside.left_mem fresh).symm,
        List.idxOf_cons_ne _ (ne_of_mem_of_not_mem inside.right_mem fresh).symm]
      exact Nat.succ_lt_succ (ih others inside)

theorem of_pairwise {R : α → α → Prop} {xs : List α} (ordered : xs.Pairwise R) {x y : α}
    (before : Before xs x y) : R x y :=
  List.pairwise_iff_forall_sublist.mp ordered before

end Before
