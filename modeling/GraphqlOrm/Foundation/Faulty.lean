import Mathlib.Data.List.Basic

/-!
# Operations whose calls may fail

An operation makes calls on a state, one after another, and every call may fail.
Which calls fail is an input of the run: a schedule gives each call in turn its
fault or none, and calls past its end work. A run keeps the states it passes through,
so that the rules below speak about every point of a run and not only about its
end.
-/
namespace Faulty

variable {σ φ ε α β : Type}

/-- What a run returns, the schedule that is left, the state it ends in and the
states after each of its calls, oldest first. -/
structure Run (σ φ ε α : Type) where
  value : Except ε α
  faults : List (Option φ)
  state : σ
  passed : List σ

def Action (σ φ ε α : Type) : Type := List (Option φ) → σ → Run σ φ ε α

namespace Action

def pure (a : α) : Action σ φ ε α := fun faults s => ⟨.ok a, faults, s, []⟩

def throw (e : ε) : Action σ φ ε α := fun faults s => ⟨.error e, faults, s, []⟩

/-- The first error ends the operation. -/
def bind (x : Action σ φ ε α) (f : α → Action σ φ ε β) : Action σ φ ε β := fun faults s =>
  let first := x faults s
  match first.value with
  | .error e => ⟨.error e, first.faults, first.state, first.passed⟩
  | .ok a =>
    let rest := f a first.faults first.state
    ⟨rest.value, rest.faults, rest.state, first.passed ++ rest.passed⟩

instance : Monad (Action σ φ ε) where
  pure := Action.pure
  bind := Action.bind

def call (step : Option φ → σ → Except ε α × σ) : Action σ φ ε α := fun faults s =>
  let done := step (faults.headD none) s
  ⟨done.1, faults.tail, done.2, [done.2]⟩

/-- Go on with the outcome, error or not. -/
def attempt {ε' : Type} (x : Action σ φ ε α) : Action σ φ ε' (Except ε α) := fun faults s =>
  let first := x faults s
  ⟨.ok first.value, first.faults, first.state, first.passed⟩

def lift (x : Except ε α) : Action σ φ ε α := fun faults s => ⟨x, faults, s, []⟩

def mapError {ε' : Type} (g : ε → ε') (x : Action σ φ ε α) : Action σ φ ε' α := fun faults s =>
  let done := x faults s
  match done.value with
  | .ok a => ⟨.ok a, done.faults, done.state, done.passed⟩
  | .error e => ⟨.error (g e), done.faults, done.state, done.passed⟩

def each (f : β → Action σ φ ε Unit) : List β → Action σ φ ε Unit
  | [] => pure ()
  | b :: rest => bind (f b) fun _ => each f rest

def collect (f : β → Action σ φ ε α) : List β → Action σ φ ε (List α)
  | [] => pure []
  | b :: rest => bind (f b) fun a => bind (collect f rest) fun others => pure (a :: others)

end Action

open Faulty.Action

/-! ### Rules -/

/-- From a state in `pre` the operation returns in `post` or fails in `fail`, and every
state that it passes through is in `point`. -/
structure Triple (pre : σ → Prop) (x : Action σ φ ε α) (post : α → σ → Prop) (fail : ε → σ → Prop)
    (point : σ → Prop) : Prop where
  returns : ∀ faults s, pre s → ∀ a, (x faults s).value = .ok a → post a (x faults s).state
  fails : ∀ faults s, pre s → ∀ e, (x faults s).value = .error e → fail e (x faults s).state
  passes : ∀ faults s, pre s → ∀ t ∈ (x faults s).passed, point t

variable {pre pre' : σ → Prop} {post post' : α → σ → Prop} {fail fail' : ε → σ → Prop}
  {point point' : σ → Prop} {x : Action σ φ ε α} {f : α → Action σ φ ε β}

theorem Triple.weaken (triple : Triple pre x post fail point) (before : ∀ s, pre' s → pre s)
    (after : ∀ a s, post a s → post' a s) (failed : ∀ e s, fail e s → fail' e s)
    (between : ∀ s, point s → point' s) : Triple pre' x post' fail' point' where
  returns faults s start a done := after _ _ (triple.returns faults s (before s start) a done)
  fails faults s start e done := failed _ _ (triple.fails faults s (before s start) e done)
  passes faults s start t mem := between _ (triple.passes faults s (before s start) t mem)

theorem Triple.pure {a : α} (holds : ∀ s, pre s → post a s) :
    Triple pre (Action.pure a : Action σ φ ε α) post fail point where
  returns faults s start b done := by
    cases done
    exact holds s start
  fails faults s start e done := by cases done
  passes faults s start t mem := by cases mem

theorem Triple.throw {e : ε} (holds : ∀ s, pre s → fail e s) :
    Triple pre (Action.throw e : Action σ φ ε α) post fail point where
  returns faults s start b done := by cases done
  fails faults s start e' done := by
    cases done
    exact holds s start
  passes faults s start t mem := by cases mem

variable {y : Except ε α}

theorem Triple.lift (ok : ∀ a, y = .ok a → ∀ s, pre s → post a s)
    (error : ∀ e, y = .error e → ∀ s, pre s → fail e s) :
    Triple pre (Action.lift y : Action σ φ ε α) post fail point where
  returns faults s start a done := ok a done s start
  fails faults s start e done := error e done s start
  passes faults s start t mem := by cases mem

theorem Triple.bind {middle : α → σ → Prop} {post : β → σ → Prop}
    (first : Triple pre x middle fail point) (rest : ∀ a, Triple (middle a) (f a) post fail point) :
    Triple pre (x.bind f) post fail point where
  returns faults s start b done := by
    unfold Action.bind at done ⊢
    cases value : (x faults s).value with
    | error e => simp [value] at done
    | ok a =>
      simp only [value] at done ⊢
      exact (rest a).returns _ _ (first.returns faults s start a value) b done
  fails faults s start e done := by
    unfold Action.bind at done ⊢
    cases value : (x faults s).value with
    | error e' =>
      simp only [value, Except.error.injEq] at done ⊢
      exact done ▸ first.fails faults s start e' value
    | ok a =>
      simp only [value] at done ⊢
      exact (rest a).fails _ _ (first.returns faults s start a value) e done
  passes faults s start t mem := by
    unfold Action.bind at mem
    cases value : (x faults s).value with
    | error e =>
      simp only [value] at mem
      exact first.passes faults s start t mem
    | ok a =>
      simp only [value, List.mem_append] at mem
      rcases mem with early | late
      · exact first.passes faults s start t early
      · exact (rest a).passes _ _ (first.returns faults s start a value) t late

/-- The rule of sequence with the middle assertion written out. -/
theorem Triple.through (middle : α → σ → Prop) {post : β → σ → Prop}
    (first : Triple pre x middle fail point) (rest : ∀ a, Triple (middle a) (f a) post fail point) :
    Triple pre (x.bind f) post fail point :=
  first.bind rest

theorem Triple.assuming {fact : Prop} (holds : fact → Triple pre x post fail point) :
    Triple (fun s => fact ∧ pre s) x post fail point where
  returns faults s start := (holds start.1).returns faults s start.2
  fails faults s start := (holds start.1).fails faults s start.2
  passes faults s start := (holds start.1).passes faults s start.2

/-- What was computed before the calls is known to the calls. -/
theorem Triple.lift_bind {post : β → σ → Prop} (error : ∀ e, y = .error e → ∀ s, pre s → fail e s)
    (rest : ∀ a, y = .ok a → Triple pre (f a) post fail point) :
    Triple pre ((Action.lift y).bind f) post fail point :=
  (Triple.lift (fun _ value _ start => ⟨value, start⟩) error).bind fun a => .assuming (rest a)

variable {step : Option φ → σ → Except ε α × σ}

/-- The outcome of a step satisfies the condition for its kind. -/
def Settled (post : α → σ → Prop) (fail : ε → σ → Prop) : Except ε α × σ → Prop
  | (.ok a, s) => post a s
  | (.error e, s) => fail e s

theorem Triple.call
    (each : ∀ fault s, pre s → Settled post fail (step fault s) ∧ point (step fault s).2) :
    Triple pre (Action.call step) post fail point where
  returns faults s start a done := by
    have settled := (each (faults.headD none) s start).1
    rwa [← Prod.eta (step _ _), show (step (faults.headD none) s).1 = .ok a from done] at settled
  fails faults s start e done := by
    have settled := (each (faults.headD none) s start).1
    rwa [← Prod.eta (step _ _), show (step (faults.headD none) s).1 = .error e from done] at settled
  passes faults s start t mem := List.mem_singleton.mp mem ▸ (each (faults.headD none) s start).2

variable {ε' : Type}

theorem Triple.attempt (triple : Triple pre x post fail point) (post' : Except ε α → σ → Prop)
    {fail' : ε' → σ → Prop} (ok : ∀ a s, post a s → post' (.ok a) s)
    (error : ∀ e s, fail e s → post' (.error e) s) :
    Triple pre x.attempt post' fail' point where
  returns faults s start a done := by
    cases done
    change post' (x faults s).value (x faults s).state
    cases value : (x faults s).value with
    | ok a => exact ok a _ (triple.returns faults s start a value)
    | error e => exact error e _ (triple.fails faults s start e value)
  fails faults s start e done := by cases done
  passes := triple.passes

theorem Triple.mapError {g : ε → ε'} {fail' : ε' → σ → Prop} (triple : Triple pre x post fail point)
    (failed : ∀ e s, fail e s → fail' (g e) s) :
    Triple pre (x.mapError g) post fail' point where
  returns faults s start a done := by
    unfold Action.mapError at done ⊢
    cases value : (x faults s).value with
    | ok b =>
      simp only [value, Except.ok.injEq] at done ⊢
      exact done ▸ triple.returns faults s start b value
    | error e => simp [value] at done
  fails faults s start e done := by
    unfold Action.mapError at done ⊢
    cases value : (x faults s).value with
    | ok b => simp [value] at done
    | error e' =>
      simp only [value, Except.error.injEq] at done ⊢
      exact done ▸ failed _ _ (triple.fails faults s start e' value)
  passes faults s start t mem := by
    unfold Action.mapError at mem
    cases value : (x faults s).value with
    | ok b | error e =>
      simp only [value] at mem
      exact triple.passes faults s start t mem

/-- An invariant of every round is one of the loop. -/
theorem Triple.each {items : List β} {round : β → Action σ φ ε Unit} (inv : List β → σ → Prop)
    (step : ∀ b rest, (∃ front, items = front ++ b :: rest) →
      Triple (inv (b :: rest)) (round b) (fun _ => inv rest) fail point) :
    Triple (inv items) (Action.each round items) (fun _ => inv []) fail point := by
  induction items with
  | nil => exact Triple.pure fun _ holds => holds
  | cons b rest ih =>
    refine (step b rest ⟨[], rfl⟩).bind fun _ => ih fun c later split => ?_
    obtain ⟨front, rfl⟩ := split
    exact step c later ⟨b :: front, rfl⟩

/-- The outcomes of the rounds so far belong to the invariant of a collection. -/
theorem Triple.collect {round : β → Action σ φ ε α} {items : List β}
    (inv : List β → List α → σ → Prop)
    (step : ∀ front b outs, (∃ rest, items = front ++ b :: rest) →
      Triple (inv front outs) (round b) (fun a => inv (front ++ [b]) (outs ++ [a])) fail point) :
    Triple (inv [] []) (Action.collect round items) (inv items) fail point := by
  -- The rounds made so far are the front of the items.
  have from_ (rest front : List β) (outs : List α) (split : items = front ++ rest) :
      Triple (inv front outs) (Action.collect round rest)
        (fun later => inv items (outs ++ later)) fail point := by
    induction rest generalizing front outs with
    | nil =>
      rw [List.append_nil] at split
      subst split
      exact Triple.pure fun _ holds => by rwa [List.append_nil]
    | cons b rest ih =>
      refine Triple.bind (step front b outs ⟨rest, split⟩) fun a => ?_
      refine Triple.bind (ih (front ++ [b]) (outs ++ [a]) (by rw [split]; simp)) fun later => ?_
      exact Triple.pure fun _ holds => by simpa using holds
  simpa using from_ items [] [] rfl

/-- A triple for each single state is one for all of them. -/
theorem Triple.pinned
    (each : ∀ s, pre s → Triple (fun t => t = s) x post fail point) :
    Triple pre x post fail point where
  returns faults s start := (each s start).returns faults s rfl
  fails faults s start := (each s start).fails faults s rfl
  passes faults s start := (each s start).passes faults s rfl

/-! ### Invariants -/

/-- Every call of the operation keeps the property, whatever fails. -/
def Keeps (inv : σ → Prop) (x : Action σ φ ε α) : Prop :=
  Triple inv x (fun _ => inv) (fun _ => inv) inv

variable {inv : σ → Prop}

theorem Keeps.pure {a : α} : Keeps inv (Action.pure a : Action σ φ ε α) :=
  Triple.pure fun _ holds => holds

theorem Keeps.throw {e : ε} : Keeps inv (Action.throw e : Action σ φ ε α) :=
  Triple.throw fun _ holds => holds

theorem Keeps.bind (first : Keeps inv x) (rest : ∀ a, Keeps inv (f a)) : Keeps inv (x.bind f) :=
  Triple.bind first rest

theorem Keeps.lift_bind (rest : ∀ a, y = .ok a → Keeps inv (f a)) :
    Keeps inv ((Action.lift y).bind f) :=
  Triple.lift_bind (fun _ _ _ holds => holds) rest

theorem Keeps.call (kept : ∀ fault s, inv s → inv (step fault s).2) :
    Keeps inv (Action.call step) :=
  Triple.call fun fault s holds => by
    have next := kept fault s holds
    revert next
    rcases step fault s with ⟨_ | _, _⟩ <;> exact fun next => ⟨next, next⟩

theorem Keeps.mapError {g : ε → ε'} (kept : Keeps inv x) : Keeps inv (x.mapError g) :=
  Triple.mapError kept fun _ _ holds => holds

theorem Keeps.attempt (kept : Keeps inv x) :
    Keeps inv (x.attempt : Action σ φ ε' (Except ε α)) :=
  Triple.attempt kept (fun _ => inv) (fun _ _ holds => holds) fun _ _ holds => holds

theorem Keeps.each {round : β → Action σ φ ε Unit} {items : List β}
    (kept : ∀ b ∈ items, Keeps inv (round b)) : Keeps inv (Action.each round items) := by
  refine Triple.each (fun _ => inv) fun b rest split => ?_
  obtain ⟨front, rfl⟩ := split
  exact kept b (by simp)

theorem Keeps.state (kept : Keeps inv x) (faults : List (Option φ)) {s : σ} (start : inv s) :
    inv (x faults s).state := by
  cases value : (x faults s).value with
  | ok a => exact kept.returns faults s start a value
  | error e => exact kept.fails faults s start e value

/-! ### Where a run fails -/

variable {faults : List (Option φ)}

theorem bind_of_ok {s : σ} {a : α} (returned : (x faults s).value = .ok a) :
    (x.bind f faults s).value = (f a (x faults s).faults (x faults s).state).value ∧
      (x.bind f faults s).faults = (f a (x faults s).faults (x faults s).state).faults ∧
      (x.bind f faults s).state = (f a (x faults s).faults (x faults s).state).state := by
  simp only [Action.bind, returned, and_self]

theorem bind_of_error {s : σ} {e : ε} (failed : (x faults s).value = .error e) :
    (x.bind f faults s).value = .error e ∧ (x.bind f faults s).state = (x faults s).state := by
  simp only [Action.bind, failed, and_self]

theorem attempt_bind (x : Action σ φ ε α) (y : Except ε α → Action σ φ ε' β)
    (faults : List (Option φ)) (s : σ) :
    (x.attempt.bind y faults s).value =
        (y (x faults s).value (x faults s).faults (x faults s).state).value ∧
      (x.attempt.bind y faults s).faults =
        (y (x faults s).value (x faults s).faults (x faults s).state).faults ∧
      (x.attempt.bind y faults s).state =
        (y (x faults s).value (x faults s).faults (x faults s).state).state :=
  ⟨rfl, rfl, rfl⟩

/-- The operation never returns. -/
def Fails (x : Action σ φ ε α) : Prop := ∀ faults s a, (x faults s).value ≠ .ok a

theorem Fails.throw {e : ε} : Fails (Action.throw e : Action σ φ ε α) :=
  fun _ _ _ done => by cases done

theorem Fails.bind (rest : ∀ a, Fails (f a)) : Fails (x.bind f) := by
  intro faults s b done
  cases value : (x faults s).value with
  | error e =>
    rw [(bind_of_error value).1] at done
    cases done
  | ok a =>
    rw [(bind_of_ok value).1] at done
    exact rest a _ _ b done

/-- The call at position `n` fails, and no call before it does. -/
def FirstFault (n : Nat) (faults : List (Option φ)) : Prop :=
  (∀ i < n, faults.getD i none = none) ∧ faults.getD n none ≠ none

/-- A run that returns has made `n` calls, none of them with a fault. -/
def Straight (n : Nat) (x : Action σ φ ε α) : Prop :=
  ∀ faults s a, (x faults s).value = .ok a →
    (∀ i < n, faults.getD i none = none) ∧ (x faults s).faults = faults.drop n

theorem Straight.pure {a : α} : Straight 0 (Action.pure a : Action σ φ ε α) :=
  fun _ _ _ _ => ⟨fun _ impossible => absurd impossible (Nat.not_lt_zero _), rfl⟩

theorem Fails.straight (fails : Fails x) (n : Nat) : Straight n x :=
  fun faults s a done => absurd done (fails faults s a)

theorem Straight.lift : Straight 0 (Action.lift y : Action σ φ ε α) :=
  fun _ _ _ _ => ⟨fun _ impossible => absurd impossible (Nat.not_lt_zero _), rfl⟩

theorem Straight.call (fails : ∀ fault s a, (step (some fault) s).1 ≠ .ok a) :
    Straight 1 (Action.call step) := by
  intro faults s a done
  have first : faults.headD none = none := by
    cases fault : faults.headD none with
    | none => rfl
    | some fault' =>
      have value : (step (faults.headD none) s).1 = .ok a := done
      rw [fault] at value
      exact absurd value (fails fault' s a)
  refine ⟨fun i below => ?_, (List.drop_one (l := faults)).symm⟩
  obtain rfl : i = 0 := by omega
  cases faults with
  | nil => rfl
  | cons fault rest => exact first

variable {n : Nat}

/-- The schedule of the second part is what the first has left. -/
private theorem none_append {m : Nat} (early : ∀ i < n, faults.getD i none = none)
    (late : ∀ i < m, (faults.drop n).getD i none = none) :
    ∀ i < n + m, faults.getD i none = none := by
  intro i below
  rcases Nat.lt_or_ge i n with before | after
  · exact early i before
  · have shifted := late (i - n) (by omega)
    rw [List.getD_eq_getElem?_getD, List.getElem?_drop] at shifted
    rw [List.getD_eq_getElem?_getD, ← Nat.add_sub_cancel' after]
    exact shifted

theorem Straight.bind {m : Nat} (first : Straight n x) (rest : ∀ a, Straight m (f a)) :
    Straight (n + m) (x.bind f) := by
  intro faults s b done
  cases value : (x faults s).value with
  | error e =>
    rw [(bind_of_error value).1] at done
    cases done
  | ok a =>
    obtain ⟨same, left, _⟩ := bind_of_ok (f := f) value
    rw [same] at done
    obtain ⟨early, dropped⟩ := first faults s a value
    obtain ⟨late, spent⟩ := rest a _ _ b done
    rw [dropped] at late
    exact ⟨none_append early late, by rw [left, spent, dropped, List.drop_drop]⟩

theorem Straight.mapError {g : ε → ε'} (straight : Straight n x) :
    Straight n (x.mapError g) := by
  intro faults s a done
  unfold Action.mapError at done ⊢
  cases value : (x faults s).value with
  | ok b =>
    simp only [value]
    exact straight faults s b value
  | error e => simp [value] at done

/-- An attempt whose failure is passed on. -/
theorem Straight.attempt {m : Nat} {y : Except ε α → Action σ φ ε' β} (first : Straight n x)
    (good : ∀ a, Straight m (y (.ok a))) (bad : ∀ e, Fails (y (.error e))) :
    Straight (n + m) (x.attempt.bind y) := by
  intro faults s b done
  obtain ⟨same, left, _⟩ := attempt_bind x y faults s
  rw [same] at done
  rw [left]
  cases value : (x faults s).value with
  | error e =>
    rw [value] at done
    exact absurd done (bad e _ _ b)
  | ok a =>
    rw [value] at done
    obtain ⟨early, dropped⟩ := first faults s a value
    obtain ⟨late, spent⟩ := good a _ _ b done
    rw [dropped] at late
    exact ⟨none_append early late, by rw [spent, dropped, List.drop_drop]⟩

theorem FirstFault.shift {m : Nat} (early : ∀ i < n, faults.getD i none = none)
    (first : FirstFault m (faults.drop n)) :
    FirstFault (n + m) faults := by
  refine ⟨none_append early first.1, fun absent => first.2 ?_⟩
  rw [List.getD_eq_getElem?_getD, List.getElem?_drop, ← List.getD_eq_getElem?_getD]
  exact absent

/-- Past a run that returns, the first fault of the schedule is the next one. -/
theorem Straight.next (straight : Straight n x) {s : σ} {a : α} (done : (x faults s).value = .ok a)
    (allowed : ¬ FirstFault n faults) :
    (x faults s).faults.headD none = none := by
  obtain ⟨early, dropped⟩ := straight faults s a done
  rw [dropped]
  by_contra refused
  refine allowed ⟨early, fun absent => refused ?_⟩
  rw [List.headD_eq_head?_getD, List.head?_drop]
  rw [List.getD_eq_getElem?_getD] at absent
  exact absent

end Faulty
