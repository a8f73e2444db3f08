import Mathlib.Data.List.Forall2

/-!
# Fallible computations

Peeling a monadic computation apart: what a success says about every part, and
which part a failure came from.
-/
namespace Outcome

variable {ε α β : Type}

/-- Continue when the condition holds, and stop with the given error otherwise. -/
def require (condition : Bool) (error : ε) : Except ε Unit :=
  if condition then .ok () else .error error

/-- `Option::ok_or`. -/
def okOr (error : ε) : Option α → Except ε α
  | some value => .ok value
  | none => .error error

variable {x : Except ε α} {f : α → Except ε β}

theorem bind_eq_ok {b : β} :
    (x >>= f) = .ok b ↔ ∃ a, x = .ok a ∧ f a = .ok b := by
  cases x <;> simp [bind, Except.bind]

variable {e : ε}

theorem bind_eq_error :
    (x >>= f) = .error e ↔ x = .error e ∨ ∃ a, x = .ok a ∧ f a = .error e := by
  cases x <;> simp [bind, Except.bind]

theorem require_eq_ok {condition : Bool} {error : ε} {u : Unit} :
    require condition error = .ok u ↔ condition = true := by
  unfold require
  split <;> simp_all

theorem require_eq_error {condition : Bool} {error : ε} :
    require condition error = .error e ↔ condition = false ∧ error = e := by
  unfold require
  split <;> simp_all

theorem okOr_eq_ok {error : ε} {x : Option α} {a : α} : okOr error x = .ok a ↔ x = some a := by
  cases x <;> simp [okOr]

theorem okOr_eq_error {error : ε} {x : Option α} :
    okOr error x = .error e ↔ x = none ∧ error = e := by
  cases x <;> simp [okOr]

theorem mapError_eq_ok {ε' : Type} {f : ε → ε'} {a : α} :
    x.mapError f = .ok a ↔ x = .ok a := by
  cases x with
  | error e => exact ⟨nofun, nofun⟩
  | ok b =>
    constructor
    · rintro ⟨⟩
      rfl
    · rintro ⟨⟩
      rfl

/-! ### Fallible steps over a list -/

variable {xs : List α} {ys : List β}

theorem mem_of_mapM_ok (mapped : xs.mapM f = .ok ys) {y : β} (mem : y ∈ ys) :
    ∃ x ∈ xs, f x = .ok y := by
  induction xs generalizing ys with
  | nil =>
    cases mapped
    cases mem
  | cons x xs ih =>
    rw [List.mapM_cons] at mapped
    obtain ⟨first, here, rest⟩ := bind_eq_ok.mp mapped
    obtain ⟨others, later, made⟩ := bind_eq_ok.mp rest
    cases made
    rcases List.mem_cons.mp mem with rfl | among
    · exact ⟨x, by simp, here⟩
    · obtain ⟨z, inside, back⟩ := ih later among
      exact ⟨z, List.mem_cons_of_mem _ inside, back⟩

/-- A fallible map pairs each element with its image. -/
theorem forall₂_of_mapM (mapped : xs.mapM f = .ok ys) :
    List.Forall₂ (fun x y => f x = .ok y) xs ys := by
  induction xs generalizing ys with
  | nil =>
    cases mapped
    exact .nil
  | cons x xs ih =>
    rw [List.mapM_cons] at mapped
    obtain ⟨first, here, rest⟩ := bind_eq_ok.mp mapped
    obtain ⟨others, later, made⟩ := bind_eq_ok.mp rest
    cases made
    exact .cons here (ih later)

theorem exists_of_mem_right {R : α → β → Prop} (paired : List.Forall₂ R xs ys) {y : β}
    (mem : y ∈ ys) : ∃ x ∈ xs, R x y := by
  induction paired with
  | nil => cases mem
  | cons here _ ih =>
    rcases List.mem_cons.mp mem with rfl | later
    · exact ⟨_, .head _, here⟩
    · obtain ⟨x, inside, rest⟩ := ih later
      exact ⟨x, List.mem_cons_of_mem _ inside, rest⟩

theorem exists_of_mem_left {R : α → β → Prop} (paired : List.Forall₂ R xs ys) {x : α}
    (mem : x ∈ xs) : ∃ y ∈ ys, R x y := exists_of_mem_right paired.flip mem

theorem mapM_ok {g : α → β} (all : ∀ x ∈ xs, f x = .ok (g x)) : xs.mapM f = .ok (xs.map g) := by
  induction xs with
  | nil => rfl
  | cons x xs ih =>
    have here := all x (.head _)
    have rest := ih fun y mem => all y (List.mem_cons_of_mem x mem)
    simp [here, rest, bind, Except.bind, pure, Except.pure]

theorem forM_each {f : α → Except ε Unit} {u : Unit} (all : xs.forM f = .ok u) :
    ∀ x ∈ xs, f x = .ok () := by
  induction xs with
  | nil => simp
  | cons x xs ih =>
    obtain ⟨_, here, later⟩ := bind_eq_ok.mp all
    intro y mem
    rcases List.mem_cons.mp mem with rfl | among
    · exact here
    · exact ih later y among

theorem forM_ok {f : α → Except ε Unit} (all : ∀ x ∈ xs, f x = .ok ()) :
    xs.forM f = .ok () := by
  induction xs with
  | nil => rfl
  | cons x xs ih =>
    have here := all x (.head _)
    have rest := ih fun y mem => all y (List.mem_cons_of_mem x mem)
    simp only [List.forM, here, bind, Except.bind, rest]

/-! ### Runs of fallible steps -/

section Runs

variable {σ ι κ γ : Type}

def Succeeds (x : Except ε α) : Prop := ∃ a, x = .ok a

theorem succeeds_bind :
    Succeeds (x >>= f) ↔ ∃ a, x = .ok a ∧ Succeeds (f a) := by
  unfold Succeeds
  simp only [bind_eq_ok]
  constructor
  · rintro ⟨b, a, first, second⟩
    exact ⟨a, first, b, second⟩
  · rintro ⟨a, first, b, second⟩
    exact ⟨b, a, first, second⟩

theorem succeeds_mapM (all : ∀ x ∈ xs, Succeeds (f x)) :
    Succeeds (xs.mapM f) := by
  induction xs with
  | nil => exact ⟨[], rfl⟩
  | cons x xs ih =>
    obtain ⟨first, here⟩ := all x (.head _)
    obtain ⟨others, later⟩ := ih fun y mem => all y (List.mem_cons_of_mem x mem)
    refine ⟨first :: others, ?_⟩
    rw [List.mapM_cons, here, later]
    rfl

/-- Successful steps that go through a list of steps end inside it or go on behind it. -/
theorem prefix_append_cases {statements : List β} {left right : List (Except ε β)}
    (inside : statements.map .ok <+: left ++ right) : (∃ rest, left = statements.map .ok ++ rest) ∨
      ∃ first second, statements = first ++ second ∧ left = first.map .ok ∧
        second.map .ok <+: right := by
  rcases List.prefix_or_prefix_of_prefix inside (List.prefix_append left right) with short | long
  · obtain ⟨rest, split⟩ := short
    exact .inl ⟨rest, split.symm⟩
  · obtain ⟨rest, split⟩ := long
    obtain ⟨first, second, rfl, here, later⟩ := List.map_eq_append_iff.mp split.symm
    refine .inr ⟨first, second, rfl, here.symm, ?_⟩
    rw [List.map_append, here] at inside
    exact (List.prefix_append_right_inj left).mp inside

/-- Steps that all succeed, one for each element of a list. -/
theorem eq_map_of_ok {g : α → β} (same : ys.map .ok = xs.map f)
    (made : ∀ x ∈ xs, ∀ y, f x = .ok y → y = g x) :
    ys = xs.map g := by
  have all : ∀ x ∈ xs, f x = .ok (g x) := by
    intro x mem
    obtain ⟨y, _, step⟩ := List.mem_map.mp (same ▸ List.mem_map_of_mem mem)
    rw [← made x mem y step.symm]
    exact step.symm
  have mapped : ys.map (.ok : β → Except ε β) = (xs.map g).map .ok := by
    rw [same, List.map_map]
    exact List.map_congr_left all
  exact List.map_injective_iff.mpr (fun _ _ => Except.ok.inj) mapped

theorem exists_of_map_ok (same : ys.map .ok = xs.map f) {x : α} (mem : x ∈ xs) :
    ∃ y, f x = .ok y := by
  obtain ⟨y, _, step⟩ := List.mem_map.mp (same ▸ List.mem_map_of_mem mem)
  exact ⟨y, step.symm⟩

theorem exists_eq_map_ok {xs : List (Except ε β)} (all : ∀ x ∈ xs, Succeeds x) :
    ∃ ys : List β, xs = ys.map .ok := by
  induction xs with
  | nil => exact ⟨[], rfl⟩
  | cons x xs ih =>
    obtain ⟨first, rfl⟩ := all x (.head _)
    obtain ⟨others, rfl⟩ := ih fun y mem => all y (.tail _ mem)
    exact ⟨first :: others, rfl⟩

theorem succeeds_map {f : α → β} :
    Succeeds (x >>= fun a => .ok (f a)) ↔ Succeeds x := by
  rw [succeeds_bind]
  exact ⟨fun ⟨a, done, _⟩ => ⟨a, done⟩, fun ⟨a, done⟩ => ⟨a, done, f a, rfl⟩⟩

section

variable {act : σ → β → Except ε σ} (edit : σ → β → σ)
include edit

/-- A run of steps none of which fails. -/
theorem foldlM_total {steps : List β}
    (total : ∀ step ∈ steps, ∀ s, act s step = .ok (edit s step)) (s : σ) :
    steps.foldlM act s = .ok (steps.foldl edit s) := by
  induction steps generalizing s with
  | nil => rfl
  | cons step rest ih =>
    rw [List.foldlM_cons, total step (.head _), List.foldl_cons]
    exact ih (fun later mem => total later (.tail _ mem)) _

/-- Steps that never fail do not decide whether the steps after them succeed. -/
theorem succeeds_total_append {xs : List β}
    (total : ∀ step ∈ xs, ∀ s, act s step = .ok (edit s step)) (s : σ) :
    Succeeds ((xs ++ ys).foldlM act s) ↔ Succeeds (ys.foldlM act (xs.foldl edit s)) := by
  rw [List.foldlM_append, foldlM_total edit total]
  rfl

theorem succeeds_append_total {xs : List β}
    (total : ∀ step ∈ ys, ∀ s, act s step = .ok (edit s step)) (s : σ) :
    Succeeds ((xs ++ ys).foldlM act s) ↔ Succeeds (xs.foldlM act s) := by
  rw [List.foldlM_append]
  simp only [foldlM_total edit total]
  exact succeeds_map

end

theorem foldlM_flatMap (act : σ → β → Except ε σ) (f : ι → List β) (is : List ι) (s : σ) :
    (is.flatMap f).foldlM act s = is.foldlM (fun s i => (f i).foldlM act s) s := by
  induction is generalizing s with
  | nil => rfl
  | cons i rest ih =>
    rw [List.flatMap_cons, List.foldlM_append, List.foldlM_cons]
    congr 1
    funext s
    exact ih s

variable (Inv : σ → Prop) (view : σ → κ → γ) (key : ι → κ) {act : σ → ι → Except ε σ}
  {is : List ι}

/-- A run of steps that leave other keys alone keeps what no step is keyed by. -/
theorem foldlM_frame
    (keeps : ∀ i ∈ is, ∀ s s', Inv s → act s i = .ok s' →
      Inv s' ∧ ∀ k, k ≠ key i → view s' k = view s k)
    {s s' : σ} (inv : Inv s) (done : is.foldlM act s = .ok s') :
    Inv s' ∧ ∀ k, (∀ i ∈ is, key i ≠ k) → view s' k = view s k := by
  induction is generalizing s with
  | nil =>
    cases done
    exact ⟨inv, fun _ _ => rfl⟩
  | cons i rest ih =>
    rw [List.foldlM_cons, bind_eq_ok] at done
    obtain ⟨next, first, others⟩ := done
    obtain ⟨inv', kept⟩ := keeps i (.head _) s next inv first
    obtain ⟨final, frame⟩ := ih (fun j mem => keeps j (.tail _ mem)) inv' others
    refine ⟨final, fun k absent => ?_⟩
    rw [frame k fun j mem => absent j (.tail _ mem)]
    exact kept k (absent i (.head _)).symm

/-- When a step's success depends on its own key only, a run with distinct keys
succeeds exactly when every step would succeed at the start. -/
theorem foldlM_succeeds (good : ι → γ → Prop)
    (succeeds : ∀ i ∈ is, ∀ s, Inv s → (Succeeds (act s i) ↔ good i (view s (key i))))
    (keeps : ∀ i ∈ is, ∀ s s', Inv s → act s i = .ok s' →
      Inv s' ∧ ∀ k, k ≠ key i → view s' k = view s k)
    (distinct : (is.map key).Nodup) {s : σ} (inv : Inv s) :
    Succeeds (is.foldlM act s) ↔ ∀ i ∈ is, good i (view s (key i)) := by
  induction is generalizing s with
  | nil => exact ⟨fun _ _ mem => absurd mem List.not_mem_nil, fun _ => ⟨s, rfl⟩⟩
  | cons i rest ih =>
    rw [List.map_cons, List.nodup_cons] at distinct
    rw [List.foldlM_cons, succeeds_bind, List.forall_mem_cons]
    have later : ∀ j ∈ rest, key j ≠ key i := fun j mem same =>
      distinct.1 (List.mem_map.mpr ⟨j, mem, same⟩)
    have inner (next : σ) (first : act s i = .ok next) : Succeeds (rest.foldlM act next) ↔
        ∀ j ∈ rest, good j (view s (key j)) := by
      obtain ⟨inv', kept⟩ := keeps i (.head _) s next inv first
      rw [ih (fun j mem => succeeds j (.tail _ mem))
        (fun j mem => keeps j (.tail _ mem)) distinct.2 inv']
      constructor <;> intro all j mem
      · rw [← kept _ (later j mem)]
        exact all j mem
      · rw [kept _ (later j mem)]
        exact all j mem
    constructor
    · rintro ⟨next, first, others⟩
      exact ⟨(succeeds i (.head _) s inv).mp ⟨next, first⟩, (inner next first).mp others⟩
    · rintro ⟨here, others⟩
      obtain ⟨next, first⟩ := (succeeds i (.head _) s inv).mpr here
      exact ⟨next, first, (inner next first).mpr others⟩

end Runs

/-! ### Computations with one way to fail -/

/-- The computation stops with this error, or its result has the property. -/
def Unless (e : ε) (x : Except ε α) (P : α → Prop) : Prop := x = .error e ∨ ∃ a, x = .ok a ∧ P a

theorem unless_ok {P : α → Prop} {a : α} (holds : P a) : Unless e (.ok a) P :=
  .inr ⟨a, rfl, holds⟩

theorem Unless.bind {P : α → Prop} {Q : β → Prop} (first : Unless e x P)
    (next : ∀ a, P a → Unless e (f a) Q) : Unless e (x >>= f) Q := by
  rcases first with rfl | ⟨a, rfl, holds⟩
  · exact .inl rfl
  · exact next a holds

theorem Unless.mono {P Q : α → Prop} (first : Unless e x P) (weaker : ∀ a, P a → Q a) :
    Unless e x Q :=
  first.imp_right fun ⟨a, same, holds⟩ => ⟨a, same, weaker a holds⟩

end Outcome
