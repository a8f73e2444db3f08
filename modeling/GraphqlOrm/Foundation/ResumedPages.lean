import Mathlib

/-!
# Pages resumed behind a token

A list is read in pages. Every call goes through the whole list again and skips what is not
greater than the last element of the page before. The order of the list and the order of the
comparison need not agree, so elements can be lost or read twice.

## Main result

`follow_perm_iff`: every element is read exactly once if and only if the two orders agree at
the end of each page.
-/
namespace ResumedPages

variable {α : Type} [LinearOrder α]

def behind (xs : List α) (token : Option α) : List α := xs.filter fun x => token.all (· < x)

structure Page (α : Type) where
  keys : List α
  next : Option α

def cut (found : List α) (limit : Nat) : Page α :=
  if limit < found.length then ⟨found.take limit, (found.take limit).getLast?⟩ else ⟨found, none⟩

def page (xs : List α) (limit : Nat) (token : Option α) : Page α :=
  cut ((behind xs token).take (limit + 1)) limit

/-- Follow the tokens until there is none; `none` when the calls run out. -/
def follow (xs : List α) (limit : Nat) : Nat → Option α → List α → Option (List α)
  | 0, _, _ => none
  | calls + 1, token, seen =>
    match (page xs limit token).next with
    | none => some (seen ++ (page xs limit token).keys)
    | some next => follow xs limit calls (some next) (seen ++ (page xs limit token).keys)

/-- Both orders put the same elements before a place of the list. -/
structure Boundary (xs : List α) (n : Nat) : Prop where
  before : ∀ t ∈ xs[n - 1]?, ∀ x ∈ xs.take n, x ≤ t
  after : ∀ t ∈ xs[n - 1]?, ∀ x ∈ xs.drop n, t < x

def Aligned (xs : List α) (limit : Nat) : Prop :=
  ∀ pages, 0 < pages → pages * limit < xs.length → Boundary xs (pages * limit)

variable {xs : List α} {limit calls : Nat} {token : Option α} {seen keys : List α}

theorem behind_none (xs : List α) : behind xs none = xs := List.filter_eq_self.mpr fun _ _ => rfl

theorem mem_behind {t x : α} : x ∈ behind xs (some t) ↔ x ∈ xs ∧ t < x := by
  unfold behind
  rw [List.mem_filter, Option.all_some, decide_eq_true_eq]

/-! ### One page -/

theorem page_last (short : (behind xs token).length ≤ limit) :
    page xs limit token = ⟨behind xs token, none⟩ := by
  unfold page cut
  rw [List.take_of_length_le (Nat.le_succ_of_le short), if_neg (Nat.not_lt.mpr short)]

theorem page_more (positive : 0 < limit) (long : limit < (behind xs token).length) :
    ∃ t, (behind xs token)[limit - 1]? = some t ∧
      page xs limit token = ⟨(behind xs token).take limit, some t⟩ := by
  have inside : limit - 1 < (behind xs token).length := by omega
  refine ⟨(behind xs token)[limit - 1], List.getElem?_eq_getElem inside, ?_⟩
  unfold page cut
  rw [if_pos (by rw [List.length_take]; omega), List.take_take, Nat.min_eq_left (Nat.le_succ limit),
    List.getLast?_take, if_neg (by omega), List.getElem?_eq_getElem inside]
  rfl

/-! ### A run -/

/-- A run returns elements behind its token, and the first of them first. -/
theorem follow_spec (positive : 0 < limit) (run : follow xs limit calls token seen = some keys) :
    ∃ rest, keys = seen ++ rest ∧ (∀ x ∈ rest, x ∈ behind xs token) ∧
      rest.head? = (behind xs token).head? := by
  induction calls generalizing token seen with
  | zero => cases run
  | succ calls ih =>
    unfold follow at run
    rcases Nat.lt_or_ge limit (behind xs token).length with long | short
    · obtain ⟨t, place, whole⟩ := page_more positive long
      rw [whole] at run
      obtain ⟨rest, rfl, inside, _⟩ := ih run
      refine ⟨(behind xs token).take limit ++ rest, by rw [List.append_assoc], ?_, ?_⟩
      · intro x mem
        rcases List.mem_append.mp mem with first | later
        · exact List.mem_of_mem_take first
        · -- The token is itself behind the token before it.
          have own : t ∈ behind xs token := List.mem_of_getElem? place
          have greater := mem_behind.mp (inside x later)
          cases token with
          | none =>
            rw [behind_none]
            exact greater.1
          | some u => exact mem_behind.mpr ⟨greater.1, lt_trans (mem_behind.mp own).2 greater.2⟩
      · cases found : behind xs token with
        | nil =>
          rw [found] at long
          cases long
        | cons x rest =>
          obtain ⟨size, rfl⟩ := Nat.exists_eq_succ_of_ne_zero (Nat.ne_of_gt positive)
          rfl
    · rw [page_last short] at run
      cases run
      exact ⟨_, rfl, fun _ mem => mem, rfl⟩

/-- Tokens increase, so a run ends. -/
theorem follow_total (positive : 0 < limit) (enough : (behind xs token).length < calls) :
    ∃ keys, follow xs limit calls token seen = some keys := by
  induction calls generalizing token seen with
  | zero => cases enough
  | succ calls ih =>
    unfold follow
    rcases Nat.lt_or_ge limit (behind xs token).length with long | short
    · obtain ⟨t, place, whole⟩ := page_more positive long
      rw [whole]
      refine ih ?_
      have own : t ∈ behind xs token := List.mem_of_getElem? place
      -- The new token is no longer behind itself.
      have fewer : behind xs (some t) = (behind xs token).filter fun x => t < x := by
        unfold behind
        rw [List.filter_filter]
        refine List.filter_congr fun x _ => ?_
        cases token with
        | none => simp
        | some u =>
          have order : t < x → u < x := lt_trans (mem_behind.mp own).2
          simpa using order
      have less : ((behind xs token).filter fun x => t < x).length < (behind xs token).length :=
        List.length_filter_lt_length_iff_exists.mpr ⟨t, own, by simp⟩
      rw [fewer]
      omega
    · rw [page_last short]
      exact ⟨_, rfl⟩

/-! ### The end of a page -/

theorem Boundary.behind {n : Nat} {t : α} (boundary : Boundary xs n) (place : xs[n - 1]? = some t) :
    behind xs (some t) = xs.drop n := by
  unfold ResumedPages.behind
  conv_lhs => rw [← List.take_append_drop n xs]
  rw [List.filter_append, List.filter_eq_nil_iff.mpr, List.nil_append, List.filter_eq_self.mpr]
  · exact fun x mem => by simpa using boundary.after t place x mem
  · exact fun x mem => by simpa using boundary.before t place x mem

/-- A run that reads what is left of the list, each element once, shows the boundary. -/
theorem boundary_of_perm {n : Nat} {t : α} {rest : List α} (distinct : xs.Nodup)
    (place : xs[n - 1]? = some t) (inside : ∀ x ∈ rest, x ∈ behind xs (some t))
    (first : rest.head? = (behind xs (some t)).head?) (all : rest.Perm (xs.drop n)) :
    Boundary xs n := by
  refine ⟨fun u same x mem => ?_, fun u same x mem => ?_⟩
  · obtain rfl := Option.some.inj (place.symm.trans same)
    -- Otherwise the next page starts with an element of an earlier one.
    by_contra skipped
    have here : x ∈ (xs.take n).filter fun y => t < y :=
      List.mem_filter.mpr ⟨mem, by simpa using skipped⟩
    cases early : (xs.take n).filter fun y => t < y with
    | nil =>
      rw [early] at here
      cases here
    | cons z others =>
      have start : (behind xs (some t)).head? = some z := by
        unfold behind
        conv_lhs => rw [← List.take_append_drop n xs]
        rw [List.filter_append]
        simp only [Option.all_some]
        rw [early]
        rfl
      have again : z ∈ xs.drop n := all.mem_iff.mp (List.mem_of_mem_head? (first.trans start))
      have once : z ∈ xs.take n := List.mem_of_mem_filter (early ▸ List.mem_cons_self)
      exact List.disjoint_take_drop distinct (Nat.le_refl n) once again
  · obtain rfl := Option.some.inj (place.symm.trans same)
    exact (mem_behind.mp (inside x (all.mem_iff.mpr mem))).2

theorem follow_perm_iff_from (distinct : xs.Nodup) (positive : 0 < limit) {pages : Nat}
    (here : behind xs token = xs.drop (pages * limit)) {rest : List α}
    (run : follow xs limit calls token seen = some (seen ++ rest)) :
    rest.Perm (xs.drop (pages * limit)) ↔
      ∀ later, pages < later → later * limit < xs.length → Boundary xs (later * limit) := by
  induction calls generalizing token seen pages rest with
  | zero => cases run
  | succ calls ih =>
    unfold follow at run
    rcases Nat.lt_or_ge limit (behind xs token).length with long | short
    · obtain ⟨t, place, whole⟩ := page_more positive long
      rw [whole] at run
      dsimp only at run
      obtain ⟨others, same, inside, first⟩ := follow_spec positive run
      rw [List.append_assoc] at same
      obtain rfl := List.append_cancel_left same
      have next : (pages + 1) * limit = pages * limit + limit := Nat.succ_mul pages limit
      rw [here, List.getElem?_drop] at place
      rw [here, List.length_drop] at long
      have last : xs[(pages + 1) * limit - 1]? = some t := by
        rw [← place]
        congr 1
        omega
      have parts : xs.drop (pages * limit) =
          (xs.drop (pages * limit)).take limit ++ xs.drop ((pages + 1) * limit) := by
        rw [next, ← List.drop_drop, List.take_append_drop]
      rw [← List.append_assoc] at run
      rw [here] at run ⊢
      have split : ((xs.drop (pages * limit)).take limit ++ others).Perm
          (xs.drop (pages * limit)) ↔ others.Perm (xs.drop ((pages + 1) * limit)) := by
        conv_lhs => rhs; rw [parts]
        exact List.perm_append_left_iff _
      rw [split]
      constructor
      · intro all later greater inner
        have boundary := boundary_of_perm distinct last inside first all
        rcases Nat.lt_or_ge (pages + 1) later with beyond | same
        · exact (ih (boundary.behind last) run).mp all later beyond inner
        · obtain rfl : later = pages + 1 := by omega
          exact boundary
      · intro every
        have boundary := every (pages + 1) (Nat.lt_succ_self pages) (by omega)
        exact (ih (boundary.behind last) run).mpr fun later greater =>
          every later (Nat.lt_of_succ_lt greater)
    · rw [page_last short] at run
      have same := List.append_cancel_left (Option.some.inj run)
      rw [← same, here]
      refine iff_of_true (List.Perm.refl _) fun later greater inner => ?_
      rw [here, List.length_drop] at short
      have next : (pages + 1) * limit ≤ later * limit := Nat.mul_le_mul_right limit greater
      rw [Nat.succ_mul] at next
      omega

/-- A run from the start ends, and reads every element once exactly where the orders agree at
the end of each page. -/
theorem follow_perm_iff (distinct : xs.Nodup) (positive : 0 < limit) :
    (∃ calls keys, follow xs limit calls none [] = some keys) ∧
      ∀ calls keys, follow xs limit calls none [] = some keys →
        (keys.Perm xs ↔ Aligned xs limit) := by
  refine ⟨⟨_, follow_total positive (Nat.lt_succ_self _)⟩, fun calls keys run => ?_⟩
  have start : behind xs none = xs.drop (0 * limit) := by
    rw [behind_none, Nat.zero_mul, List.drop_zero]
  have whole : keys.Perm (xs.drop (0 * limit)) ↔ _ :=
    follow_perm_iff_from distinct positive start run
  rwa [Nat.zero_mul, List.drop_zero] at whole

end ResumedPages
