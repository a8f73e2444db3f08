import GraphqlOrm.Foundation.Outcome
import Mathlib.Data.List.Sort
import Mathlib.Order.Compare

/-!
# Reading a sorted list page by page

A list is read in pages by a comparison of keys: what lies after and before a key, how
a strictly sorted list is cut there, and what a reader sees that follows the cursor of
one page to the next.
-/
namespace Paging

/-! ### Sorting by a key -/

section Sorted

variable {α κ : Type}

def sortOn (cmp : κ → κ → Ordering) (key : α → κ) (xs : List α) : List α :=
  xs.insertionSort fun a b => (cmp (key a) (key b)).isLE = true

def Increasing (cmp : κ → κ → Ordering) (key : α → κ) (xs : List α) : Prop :=
  xs.Pairwise fun a b => cmp (key a) (key b) = .lt

def Distinct (key : α → κ) (xs : List α) : Prop := xs.Pairwise fun a b => key a ≠ key b

/-- The elements whose key has the given place relative to `k`. -/
def beyond (cmp : κ → κ → Ordering) (key : α → κ) (place : Ordering) (k : κ) (xs : List α) :
    List α :=
  xs.filter fun a => cmp (key a) k = place

def along (backward : Bool) (cmp : κ → κ → Ordering) (a b : κ) : Ordering :=
  if backward then cmp b a else cmp a b

variable {cmp : κ → κ → Ordering} {key : α → κ}

theorem sortOn_perm (xs : List α) : (sortOn cmp key xs).Perm xs := List.perm_insertionSort _ xs

variable {xs : List α}

theorem Distinct.filter (distinct : Distinct key xs) (p : α → Bool) :
    Distinct key (xs.filter p) :=
  List.Pairwise.filter p distinct

/-- A comparison is an order if it is antisymmetric, tells different keys apart and is
transitive where it is strict. -/
theorem transCmp_of_lt [Std.OrientedCmp cmp] (same : ∀ a b, cmp a b = .eq → a = b)
    (trans : ∀ a b c, cmp a b = .lt → cmp b c = .lt → cmp a c = .lt) : Std.TransCmp cmp where
  isLE_trans {a b c} first second := by
    cases left : cmp a b with
    | gt => rw [left] at first; cases first
    | eq => rw [same a b left]; exact second
    | lt =>
      cases right : cmp b c with
      | gt => rw [right] at second; cases second
      | eq => rw [← same b c right, left]; rfl
      | lt => rw [trans a b c left right]; rfl

instance [Std.TransCmp cmp] (backward : Bool) : Std.TransCmp (along backward cmp) := by
  cases backward
  · exact inferInstanceAs (Std.TransCmp cmp)
  · exact inferInstanceAs (Std.TransCmp fun a b => cmp b a)

instance [Std.OrientedCmp cmp] [Std.LawfulEqCmp cmp] (backward : Bool) :
    Std.LawfulEqCmp (along backward cmp) := by
  cases backward
  · exact inferInstanceAs (Std.LawfulEqCmp cmp)
  · exact inferInstanceAs (Std.LawfulEqCmp fun a b => cmp b a)

/-! ### Cutting a sorted list -/

theorem Increasing.split (increasing : Increasing cmp key xs) {p : α → Bool}
    (closed : ∀ a b, cmp (key a) (key b) = .lt → p b = true → p a = true) :
    xs = xs.filter p ++ xs.filter fun a => !p a := by
  induction xs with
  | nil => rfl
  | cons x xs ih =>
    obtain ⟨first, rest⟩ := List.pairwise_cons.mp increasing
    by_cases here : p x = true
    · rw [List.filter_cons_of_pos here, List.filter_cons_of_neg (by simp [here]), List.cons_append,
        ← ih rest]
    · have none : xs.filter p = [] := by
        rw [List.filter_eq_nil_iff]
        exact fun y mem there => here (closed x y (first y mem) there)
      rw [List.filter_cons_of_neg here, List.filter_cons_of_pos (by simpa using here), none,
        List.nil_append]
      nth_rewrite 1 [ih rest]
      rw [none, List.nil_append]

section Laws

variable [Std.TransCmp cmp]

theorem Increasing.split_after (increasing : Increasing cmp key xs) (k : κ) :
    xs = xs.filter (fun a => cmp (key a) k ≠ .gt) ++ beyond cmp key .gt k xs := by
  have closed (a b : α) (below : cmp (key a) (key b) = .lt)
      (here : decide (cmp (key b) k ≠ .gt) = true) : decide (cmp (key a) k ≠ .gt) = true := by
    simp only [decide_eq_true_eq] at here ⊢
    exact fun above => here (Std.TransCmp.gt_trans (Std.OrientedCmp.gt_of_lt below) above)
  simpa [beyond] using increasing.split closed

/-- After an element come those that follow it in the list, before it those that precede it. -/
theorem Increasing.beyond_mid {ys : List α} {a : α} (increasing : Increasing cmp key (xs ++ a :: ys)) :
    beyond cmp key .gt (key a) (xs ++ a :: ys) = ys ∧
      beyond cmp key .lt (key a) (xs ++ a :: ys) = xs := by
  obtain ⟨_, tail, cross⟩ := List.pairwise_append.mp increasing
  have below (x : α) (mem : x ∈ xs) : cmp (key x) (key a) = .lt := cross x mem a (.head _)
  have above (y : α) (mem : y ∈ ys) : cmp (key y) (key a) = .gt :=
    Std.OrientedCmp.gt_of_lt ((List.pairwise_cons.mp tail).1 y mem)
  unfold beyond
  constructor <;>
    rw [List.filter_append, List.filter_cons_of_neg (by simp [Std.ReflCmp.compare_self])]
  · rw [List.filter_eq_nil_iff.mpr fun x mem => by simp [below x mem],
      List.filter_eq_self.mpr fun y mem => by simp [above y mem], List.nil_append]
  · rw [List.filter_eq_self.mpr fun x mem => by simp [below x mem],
      List.filter_eq_nil_iff.mpr fun y mem => by simp [above y mem], List.append_nil]

/-- There is only one way to sort elements with distinct keys. -/
theorem Increasing.eq_of_perm {ys : List α} (left : Increasing cmp key xs)
    (right : Increasing cmp key ys) (perm : xs.Perm ys) : xs = ys := by
  refine List.Perm.eq_of_pairwise ?_ left right perm
  intro a b _ _ forward back
  have loop : cmp (key a) (key a) = .lt := Std.TransCmp.lt_trans forward back
  have same : cmp (key a) (key a) = .eq := Std.ReflCmp.compare_self
  rw [same] at loop
  cases loop

variable [Std.LawfulEqCmp cmp]

theorem increasing_sortOn (distinct : Distinct key xs) :
    Increasing cmp key (sortOn cmp key xs) := by
  have total : Std.Total fun a b : α => (cmp (key a) (key b)).isLE = true :=
    ⟨fun a b => by
      have swapped : cmp (key b) (key a) = (cmp (key a) (key b)).swap := Std.OrientedCmp.eq_swap
      rw [swapped]
      cases cmp (key a) (key b) <;> simp⟩
  have trans : IsTrans α fun a b => (cmp (key a) (key b)).isLE = true :=
    ⟨fun _ _ _ => Std.TransCmp.isLE_trans⟩
  have ordered := List.pairwise_insertionSort (fun a b : α => (cmp (key a) (key b)).isLE = true) xs
  have apart : Distinct key (sortOn cmp key xs) :=
    (List.Perm.pairwise_iff (fun different => Ne.symm different) (sortOn_perm xs)).mpr distinct
  refine (ordered.and apart).imp ?_
  rintro a b ⟨below, different⟩
  cases order : cmp (key a) (key b) with
  | lt => rfl
  | eq => exact absurd (Std.LawfulEqCmp.eq_of_compare order) different
  | gt => rw [order] at below; cases below

theorem sortOn_filter (distinct : Distinct key xs) (p : α → Bool) :
    sortOn cmp key (xs.filter p) = (sortOn cmp key xs).filter p := by
  refine (increasing_sortOn (distinct.filter p)).eq_of_perm
    (List.Pairwise.filter p (increasing_sortOn distinct)) ?_
  exact (sortOn_perm _).trans ((sortOn_perm xs).filter p).symm

/-- Sorting by the opposite comparison reverses. -/
theorem sortOn_swap (distinct : Distinct key xs) {opposite : κ → κ → Ordering}
    [Std.TransCmp opposite] [Std.LawfulEqCmp opposite] (swapped : ∀ a b, opposite a b = cmp b a) :
    sortOn opposite key xs = (sortOn cmp key xs).reverse := by
  refine (increasing_sortOn distinct).eq_of_perm ?_ ?_
  · have increasing : Increasing cmp key (sortOn cmp key xs) := increasing_sortOn distinct
    rw [Increasing, List.pairwise_reverse]
    simp only [swapped]
    exact increasing
  · exact (sortOn_perm xs).trans ((sortOn_perm xs).symm.trans (List.reverse_perm _).symm)

end Laws

end Sorted

/-! ### Following cursors -/

section Walk

variable {α γ π ε : Type}

/-- Call until there is no next cursor; `none` when the calls run out. A call knows how
many are left, so that no two need behave alike. -/
def walk (fetch : Nat → Option γ → Except ε π) (next : π → Option (Option γ)) :
    Nat → Option γ → Except ε (Option (List π))
  | 0, _ => .ok none
  | calls + 1, cursor => do
    let page ← fetch calls cursor
    match next page with
    | none => return some [page]
    | some cursor' => return (← walk fetch next calls cursor').map (page :: ·)

variable {fetch : Nat → Option γ → Except ε π} {next : π → Option (Option γ)} {items : π → List α}
  {At : Option γ → List α → Prop} {Good : π → Prop} {whole : List α}

variable (At) in
/-- If every call returns the next items and either a cursor behind them or nothing is
left, then the calls return all items, each once and in order. -/
theorem walk_covers
    (advance : ∀ call cursor past rest, past ++ rest = whole → At cursor past →
      ∃ page rest', fetch call cursor = .ok page ∧ Good page ∧ rest = items page ++ rest' ∧
        (next page = none ∧ rest' = [] ∨
          ∃ cursor', next page = some cursor' ∧ items page ≠ [] ∧
            At cursor' (past ++ items page)))
    {cursor : Option γ} {past rest : List α} (position : past ++ rest = whole)
    (here : At cursor past) {calls : Nat} (enough : rest.length < calls) :
    ∃ pages, walk fetch next calls cursor = .ok (some pages) ∧ pages.flatMap items = rest ∧
      ∀ page ∈ pages, Good page := by
  induction calls generalizing cursor past rest with
  | zero => omega
  | succ calls ih =>
    obtain ⟨page, rest', fetched, good, rfl, last | ⟨cursor', more, filled, there⟩⟩ :=
      advance calls cursor past rest position here
    · refine ⟨[page], ?_, by simp [last.2], by simpa using good⟩
      simp [walk, fetched, last.1, bind, Except.bind, pure, Except.pure]
    · have shorter : rest'.length < calls := by
        have := List.length_pos_of_ne_nil filled
        rw [List.length_append] at enough
        omega
      obtain ⟨pages, walked, covered, all⟩ := ih (by rw [List.append_assoc, position]) there shorter
      refine ⟨page :: pages, ?_, by rw [List.flatMap_cons, covered], ?_⟩
      · simp [walk, fetched, more, walked, bind, Except.bind, pure, Except.pure]
      · rintro p (_ | ⟨_, mem⟩)
        · exact good
        · exact all p mem

/-- Every page of a walk is the result of some call. -/
theorem walk_fetched {cursor : Option γ} {calls : Nat} {pages : List π}
    (walked : walk fetch next calls cursor = .ok (some pages)) {page : π} (mem : page ∈ pages) :
    ∃ call cursor, fetch call cursor = .ok page := by
  induction calls generalizing cursor pages with
  | zero => cases walked
  | succ calls ih =>
    obtain ⟨first, fetched, walked⟩ := Outcome.bind_eq_ok.mp walked
    split at walked
    next =>
      cases walked
      obtain rfl := List.mem_singleton.mp mem
      exact ⟨calls, cursor, fetched⟩
    next cursor' =>
      obtain ⟨later, rest, walked⟩ := Outcome.bind_eq_ok.mp walked
      cases later with
      | none => cases walked
      | some later =>
        cases walked
        rcases List.mem_cons.mp mem with rfl | behind
        · exact ⟨calls, cursor, fetched⟩
        · exact ih rest behind

end Walk

end Paging
