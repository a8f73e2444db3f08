import GraphqlOrm.Foundation.Before
import Mathlib.Logic.Relation
import Mathlib.Order.WellFounded
import Mathlib.Data.Set.Finite.List
import Mathlib.Data.Fintype.Card

/-!
# Orders by a ready queue

Every node waits for the nodes that refer to it. Nodes that wait for none are ready; the queue gives
them out one by one, and a node that is given out no longer keeps its targets waiting. The queue
chooses among the ready nodes by any rule.

## Main results

- `order_before`: a node is given out after all nodes that refer to it.
- `mem_order_iff`: a node is given out unless one that refers to itself leads to it.
-/
namespace ReadyOrder

variable {α : Type} [DecidableEq α]

/-- How many nodes each node waits for, the ready nodes, and those given out. -/
structure State (α : Type) where
  waiting : α → Nat
  ready : List α
  order : List α

/-- One node less to wait for; a node that waits for none joins the queue. -/
def release (enqueue : α → List α → List α) (state : State α) (node : α) : State α :=
  let left := state.waiting node - 1
  { state with
    waiting := fun other => if other = node then left else state.waiting other
    ready := if left = 0 then enqueue node state.ready else state.ready }

def targets (edges : List (α × α)) (node : α) : List α := (edges.filter (·.1 = node)).map (·.2)

def run (enqueue : α → List α → List α) (edges : List (α × α)) : Nat → State α → State α
  | 0, state => state
  | fuel + 1, state =>
    match state.ready with
    | [] => state
    | node :: rest =>
      run enqueue edges fuel ((targets edges node).foldl (release enqueue)
        { state with ready := rest, order := state.order ++ [node] })

def sources (edges : List (α × α)) (node : α) : List α := (edges.filter (·.2 = node)).map (·.1)

def start (enqueue : α → List α → List α) (nodes : List α) (edges : List (α × α)) : State α where
  waiting node := (sources edges node).length
  ready := (nodes.filter fun node => (sources edges node).length = 0).foldl
    (fun ready node => enqueue node ready) []
  order := []

def order (enqueue : α → List α → List α) (nodes : List α) (edges : List (α × α)) : List α :=
  (run enqueue edges (nodes.length + 1) (start enqueue nodes edges)).order

/-- Edges without repetition between nodes without repetition, and a queue that keeps what enters. -/
structure Lawful (enqueue : α → List α → List α) (nodes : List α) (edges : List (α × α)) : Prop where
  nodup : nodes.Nodup
  simple : edges.Nodup
  inside : ∀ e ∈ edges, e.1 ∈ nodes ∧ e.2 ∈ nodes
  keeps : ∀ node ready, (enqueue node ready).Perm (node :: ready)

variable {enqueue : α → List α → List α} {nodes : List α} {edges : List (α × α)} {state : State α}

/-! ### Edges -/

variable {node : α}

theorem mem_targets {other : α} : other ∈ targets edges node ↔ (node, other) ∈ edges := by
  simp [targets]

theorem mem_sources {other : α} : other ∈ sources edges node ↔ (other, node) ∈ edges := by
  simp [sources]

theorem targets_nodup (single : edges.Nodup) (node : α) : (targets edges node).Nodup := by
  apply List.Nodup.map_on _ (single.filter _)
  intro x left y right same
  have first := (List.mem_filter.mp left).2
  have second := (List.mem_filter.mp right).2
  rw [decide_eq_true_eq] at first second
  exact Prod.ext (first.trans second.symm) same

theorem sources_nodup (single : edges.Nodup) (node : α) : (sources edges node).Nodup := by
  apply List.Nodup.map_on _ (single.filter _)
  intro x left y right same
  have first := (List.mem_filter.mp left).2
  have second := (List.mem_filter.mp right).2
  rw [decide_eq_true_eq] at first second
  exact Prod.ext same (first.trans second.symm)

/-! ### Releasing the targets of a node -/

theorem foldl_release (lawful : Lawful enqueue nodes edges) {released : List α}
    (single : released.Nodup) (state : State α) :
    (released.foldl (release enqueue) state).order = state.order ∧
      (∀ node, (released.foldl (release enqueue) state).waiting node =
        if node ∈ released then state.waiting node - 1 else state.waiting node) ∧
      ((released.foldl (release enqueue) state).ready).Perm
        (released.filter (fun node => state.waiting node - 1 = 0) ++ state.ready) := by
  induction released generalizing state with
  | nil => exact ⟨rfl, fun _ => rfl, .refl _⟩
  | cons first rest ih =>
    obtain ⟨fresh, others⟩ := List.nodup_cons.mp single
    obtain ⟨order, waiting, ready⟩ := ih others (release enqueue state first)
    -- The later releases are of other nodes, which the first one left as they were.
    have kept {node : α} (mem : node ∈ rest) :
        (release enqueue state first).waiting node = state.waiting node := by
      simp [release, ne_of_mem_of_not_mem mem fresh]
    refine ⟨order, fun node => ?_, ?_⟩
    · rw [List.foldl_cons, waiting node]
      by_cases own : node = first
      · subst own
        simp [release, fresh]
      · simp [release, own]
    · have filtered : rest.filter (fun node =>
            (release enqueue state first).waiting node - 1 = 0) =
          rest.filter fun node => state.waiting node - 1 = 0 := by
        apply List.filter_congr
        intro node mem
        rw [kept mem]
      rw [List.foldl_cons]
      refine ready.trans ?_
      rw [filtered, List.filter_cons]
      by_cases done : state.waiting first - 1 = 0
      · have joined : (release enqueue state first).ready = enqueue first state.ready := by
          simp [release, done]
        rw [joined, if_pos (by simpa using done)]
        exact ((lawful.keeps first state.ready).append_left _).trans List.perm_middle
      · have same : (release enqueue state first).ready = state.ready := by
          simp [release, done]
        rw [same, if_neg (by simpa using done)]

/-! ### The invariant of the loop -/

section

variable (lawful : Lawful enqueue nodes edges)
include lawful

/-- The nodes given out are distinct and come after all nodes that refer to them; each node waits for
the referring nodes that are not given out; the queue holds the others that wait for none. -/
structure Sound (nodes : List α) (edges : List (α × α)) (state : State α) : Prop where
  order : state.order.Nodup
  inside : ∀ node ∈ state.order, node ∈ nodes
  after : ∀ e ∈ edges, e.2 ∈ state.order → Before state.order e.1 e.2
  waiting : ∀ node, state.waiting node =
    ((sources edges node).filter (· ∉ state.order)).length
  single : state.ready.Nodup
  ready : ∀ node, node ∈ state.ready ↔
    node ∈ nodes ∧ node ∉ state.order ∧ state.waiting node = 0

omit [DecidableEq α] in
theorem foldl_enqueue (entering ready : List α) :
    (entering.foldl (fun ready node => enqueue node ready) ready).Perm (entering ++ ready) := by
  induction entering generalizing ready with
  | nil => exact .refl _
  | cons node rest ih =>
    exact (ih _).trans (((lawful.keeps node ready).append_left rest).trans List.perm_middle)

theorem start_sound :
    Sound nodes edges (start enqueue nodes edges) := by
  have queue := foldl_enqueue lawful
    (nodes.filter fun node => (sources edges node).length = 0) []
  rw [List.append_nil] at queue
  refine ⟨.nil, by simp [start], by simp [start], fun node => ?_, ?_, fun node => ?_⟩
  · simp [start]
  · exact queue.nodup_iff.mpr (lawful.nodup.filter _)
  · rw [start, queue.mem_iff, List.mem_filter]
    simp

/-- What the node at the head of the queue leaves behind. -/
theorem step_sound (sound : Sound nodes edges state)
    {rest : List α} (head : state.ready = node :: rest) :
    Sound nodes edges ((targets edges node).foldl (release enqueue)
      { state with ready := rest, order := state.order ++ [node] }) := by
  obtain ⟨stored, unplaced, free⟩ := (sound.ready node).mp (by rw [head]; exact .head _)
  have single := sound.single
  rw [head, List.nodup_cons] at single
  obtain ⟨order, waiting, ready⟩ := foldl_release lawful (targets_nodup lawful.simple node)
    { state with ready := rest, order := state.order ++ [node] }
  -- All nodes that refer to this one are given out, so it does not refer to itself.
  have placed {source : α} (edge : (source, node) ∈ edges) : source ∈ state.order := by
    have none := sound.waiting node
    rw [free, eq_comm, List.length_eq_zero_iff, List.filter_eq_nil_iff] at none
    simpa using none source (mem_sources.mpr edge)
  have other {target : α} (edge : (node, target) ∈ edges) : target ≠ node := by
    rintro rfl
    exact unplaced (placed edge)
  have later {target : α} (edge : (node, target) ∈ edges) : target ∉ state.order := fun mem =>
    unplaced (sound.after _ edge mem).left_mem
  have counted (target : α) : ((sources edges target).filter (· ∉ state.order ++ [node])).length =
      if target ∈ targets edges node then state.waiting target - 1 else state.waiting target := by
    have split : (sources edges target).filter (· ∉ state.order ++ [node]) =
        ((sources edges target).filter (· ∉ state.order)).filter (· ≠ node) := by
      rw [List.filter_filter]
      apply List.filter_congr
      intro source _
      rw [← Bool.decide_and]
      apply decide_eq_decide.mpr
      rw [List.mem_append, List.mem_singleton, not_or]
      exact and_comm
    rw [split, sound.waiting target]
    have distinct := (sources_nodup lawful.simple target).filter (fun source => source ∉ state.order)
    have erased := distinct.erase_eq_filter node
    split
    next edge =>
      have mem : node ∈ (sources edges target).filter fun source => source ∉ state.order :=
        List.mem_filter.mpr ⟨mem_sources.mpr (mem_targets.mp edge), by simpa using unplaced⟩
      rw [← List.length_erase_of_mem mem, erased]
      congr 1
      apply List.filter_congr
      intro source _
      rw [Bool.eq_iff_iff]
      simp
    next noEdge =>
      congr 1
      rw [List.filter_eq_self]
      intro source mem
      have own := mem_sources.mp (List.mem_filter.mp mem).1
      have differs : source ≠ node := by
        rintro rfl
        exact noEdge (mem_targets.mpr own)
      simpa using differs
  refine ⟨?_, ?_, ?_, ?_, ?_, ?_⟩
  · rw [order]
    exact List.nodup_append.mpr ⟨sound.order, List.nodup_singleton node, fun x mem y last same =>
      unplaced (List.mem_singleton.mp last ▸ same ▸ mem)⟩
  · rw [order]
    intro x mem
    rcases List.mem_append.mp mem with earlier | last
    · exact sound.inside x earlier
    · exact List.mem_singleton.mp last ▸ stored
  · rw [order]
    rintro ⟨source, target⟩ edge mem
    rcases List.mem_append.mp mem with earlier | last
    · exact Before.append_iff.mpr (.inl (sound.after _ edge earlier))
    · obtain rfl : target = node := List.mem_singleton.mp last
      exact Before.append_iff.mpr (.inr (.inl ⟨placed edge, last⟩))
  · intro target
    rw [order, waiting, counted]
  · refine ready.nodup_iff.mpr (List.nodup_append.mpr ⟨(targets_nodup lawful.simple node).filter _,
      single.2, fun x left y right same => ?_⟩)
    -- A queued node waits for none, so it is no target of this one.
    obtain ⟨edge, _⟩ := List.mem_filter.mp left
    have queued := (sound.ready y).mp (by rw [head]; exact List.mem_cons_of_mem _ right)
    have none := sound.waiting y
    rw [queued.2.2, eq_comm, List.length_eq_zero_iff, List.filter_eq_nil_iff] at none
    have given := none node (mem_sources.mpr (mem_targets.mp (same ▸ edge)))
    exact unplaced (by simpa using given)
  · intro target
    rw [ready.mem_iff, List.mem_append, List.mem_filter, order, waiting, decide_eq_true_eq]
    constructor
    · rintro (⟨edge, none⟩ | queued)
      · have mem := mem_targets.mp edge
        refine ⟨(lawful.inside _ mem).2, ?_, ?_⟩
        · rw [List.mem_append, List.mem_singleton, not_or]
          exact ⟨later mem, other mem⟩
        · rw [if_pos edge]
          exact none
      · have known := (sound.ready target).mp (by rw [head]; exact List.mem_cons_of_mem _ queued)
        refine ⟨known.1, ?_, ?_⟩
        · rw [List.mem_append, List.mem_singleton, not_or]
          exact ⟨known.2.1, fun same => single.1 (same ▸ queued)⟩
        · split
          · exact Nat.sub_eq_zero_of_le (known.2.2.le.trans (Nat.zero_le 1))
          · exact known.2.2
    · rintro ⟨inside, unordered, none⟩
      rw [List.mem_append, List.mem_singleton, not_or] at unordered
      by_cases edge : target ∈ targets edges node
      · rw [if_pos edge] at none
        exact .inl ⟨edge, none⟩
      · rw [if_neg edge] at none
        have queued := (sound.ready target).mpr ⟨inside, unordered.1, none⟩
        rw [head] at queued
        exact .inr ((List.mem_cons.mp queued).resolve_left unordered.2)

/-! ### The loop -/

theorem run_sound (fuel : Nat)
    (sound : Sound nodes edges state) : Sound nodes edges (run enqueue edges fuel state) := by
  induction fuel generalizing state with
  | zero => exact sound
  | succ fuel ih =>
    simp only [run]
    split
    · exact sound
    next node rest head => exact ih (step_sound lawful sound head)

theorem step_order (node : α) (rest : List α) :
    ((targets edges node).foldl (release enqueue)
      { state with ready := rest, order := state.order ++ [node] }).order = state.order ++ [node] :=
  (foldl_release lawful (targets_nodup lawful.simple node) _).1

end

theorem Sound.length_le (sound : Sound nodes edges state) :
    state.order.length ≤ nodes.length :=
  (sound.order.subperm sound.inside).length_le

/-- The queue is empty in the end. -/
theorem run_ready (lawful : Lawful enqueue nodes edges) (fuel : Nat)
    (sound : Sound nodes edges state) (enough : nodes.length < fuel + state.order.length) :
    (run enqueue edges fuel state).ready = [] := by
  induction fuel generalizing state with
  | zero =>
    have short := sound.length_le
    omega
  | succ fuel ih =>
    simp only [run]
    split
    next empty => exact empty
    next node rest head =>
      apply ih (step_sound lawful sound head)
      rw [step_order lawful, List.length_append, List.length_singleton]
      omega

/-! ### The order -/

section Order

variable (lawful : Lawful enqueue nodes edges)

include lawful

theorem order_sound : Sound nodes edges
    (run enqueue edges (nodes.length + 1) (start enqueue nodes edges)) :=
  run_sound lawful _ (start_sound lawful)

theorem order_nodup : (order enqueue nodes edges).Nodup := (order_sound lawful).order

theorem order_subset (mem : node ∈ order enqueue nodes edges) : node ∈ nodes :=
  (order_sound lawful).inside node mem

/-- A node is given out after all nodes that refer to it. -/
theorem order_before {source target : α} (edge : (source, target) ∈ edges)
    (mem : target ∈ order enqueue nodes edges) :
    Before (order enqueue nodes edges) source target :=
  (order_sound lawful).after _ edge mem

/-- A node that is not given out waits for another such node. -/
theorem exists_waiting (stored : node ∈ nodes) (unplaced : node ∉ order enqueue nodes edges) :
    ∃ source, (source, node) ∈ edges ∧ source ∉ order enqueue nodes edges := by
  have sound := order_sound lawful
  have empty := run_ready lawful (nodes.length + 1) (start_sound lawful) (by simp [start])
  have queued := (sound.ready node).not.mp (by rw [empty]; exact List.not_mem_nil)
  have some : (run enqueue edges (nodes.length + 1) (start enqueue nodes edges)).waiting node ≠ 0 :=
    fun none => queued ⟨stored, unplaced, none⟩
  rw [sound.waiting node] at some
  obtain ⟨source, mem⟩ := List.exists_mem_of_length_pos (Nat.pos_of_ne_zero some)
  obtain ⟨edge, absent⟩ := List.mem_filter.mp mem
  rw [decide_eq_true_eq] at absent
  exact ⟨source, mem_sources.mp edge, absent⟩

/-- What refers to a node that is given out is given out earlier. -/
theorem chain_before {x y : α} (chain : Relation.TransGen (fun x y => (x, y) ∈ edges) x y)
    (mem : y ∈ order enqueue nodes edges) : x ∈ order enqueue nodes edges ∧
      (order enqueue nodes edges).idxOf x < (order enqueue nodes edges).idxOf y := by
  induction chain with
  | single edge =>
    have before := order_before lawful edge mem
    exact ⟨before.left_mem, before.idxOf_lt (order_nodup lawful)⟩
  | tail _ edge ih =>
    have before := order_before lawful edge mem
    obtain ⟨first, less⟩ := ih before.left_mem
    exact ⟨first, Nat.lt_trans less (before.idxOf_lt (order_nodup lawful))⟩

/-- The nodes that are given out are those that no cycle leads to. -/
theorem mem_order_iff : node ∈ order enqueue nodes edges ↔ node ∈ nodes ∧
    ¬∃ other, Relation.TransGen (fun x y => (x, y) ∈ edges) other other ∧
      Relation.ReflTransGen (fun x y => (x, y) ∈ edges) other node := by
  constructor
  · intro mem
    refine ⟨order_subset lawful mem, ?_⟩
    rintro ⟨other, cycle, leads⟩
    have placed : other ∈ order enqueue nodes edges := by
      rcases Relation.reflTransGen_iff_eq_or_transGen.mp leads with rfl | chain
      · exact mem
      · exact (chain_before lawful chain mem).1
    exact Nat.lt_irrefl _ (chain_before lawful cycle placed).2
  · rintro ⟨stored, none⟩
    by_contra unplaced
    -- Among the nodes that lead here and are not given out, one has no other before it.
    let Left := { other // (other ∈ nodes ∧ other ∉ order enqueue nodes edges) ∧
      Relation.ReflTransGen (fun x y => (x, y) ∈ edges) other node }
    have finite : Finite Left := (nodes.finite_toSet.subset fun _ mem => mem.1.1).to_subtype
    let above : Left → Left → Prop := fun x y =>
      Relation.TransGen (fun x y => (x, y) ∈ edges) x.1 y.1
    have transitive : IsTrans Left above := ⟨fun _ _ _ => .trans⟩
    have irreflexive : Std.Irrefl above := ⟨fun x cycle => none ⟨x.1, cycle, x.2.2⟩⟩
    have founded : WellFounded above := Finite.wellFounded_of_trans_of_irrefl above
    obtain ⟨last, _, minimal⟩ :=
      founded.has_min Set.univ ⟨⟨node, ⟨stored, unplaced⟩, .refl⟩, trivial⟩
    obtain ⟨source, edge, absent⟩ := exists_waiting lawful last.2.1.1 last.2.1.2
    exact minimal ⟨source, ⟨(lawful.inside _ edge).1, absent⟩, .head edge last.2.2⟩ trivial
      (.single edge)

end Order

/-! ### Counters -/

/-- `release` on a counter that must not fall below zero. -/
def release? (enqueue : α → List α → List α) (state : State α) (node : α) : Option (State α) :=
  if state.waiting node = 0 then none else some (release enqueue state node)

/-- The loop with checked counters; `none` also when the fuel runs out. -/
def run? (enqueue : α → List α → List α) (edges : List (α × α)) : Nat → State α → Option (State α)
  | 0, state => if state.ready.isEmpty then some state else none
  | fuel + 1, state =>
    match state.ready with
    | [] => some state
    | node :: rest =>
      ((targets edges node).foldlM (release? enqueue)
        { state with ready := rest, order := state.order ++ [node] }).bind (run? enqueue edges fuel)

def order? (enqueue : α → List α → List α) (nodes : List α) (edges : List (α × α)) :
    Option (List α) :=
  (run? enqueue edges (nodes.length + 1) (start enqueue nodes edges)).map (·.order)

theorem foldlM_release? {released : List α} (single : released.Nodup)
    (positive : ∀ node ∈ released, state.waiting node ≠ 0) :
    released.foldlM (release? enqueue) state = some (released.foldl (release enqueue) state) := by
  induction released generalizing state with
  | nil => rfl
  | cons first rest ih =>
    obtain ⟨fresh, others⟩ := List.nodup_cons.mp single
    rw [List.foldlM_cons, release?, if_neg (positive first (.head _))]
    refine ih others fun node mem => ?_
    have other : node ≠ first := ne_of_mem_of_not_mem mem fresh
    have same : (release enqueue state first).waiting node = state.waiting node := if_neg other
    rw [same]
    exact positive node (List.mem_cons_of_mem first mem)

/-- The targets of a ready node wait for it. -/
theorem Sound.waiting_ne_zero (sound : Sound nodes edges state) (queued : node ∈ state.ready) :
    ∀ target ∈ targets edges node, state.waiting target ≠ 0 := by
  intro target mem none
  have counted := sound.waiting target
  rw [none, eq_comm, List.length_eq_zero_iff, List.filter_eq_nil_iff] at counted
  have given := counted node (mem_sources.mpr (mem_targets.mp mem))
  exact ((sound.ready node).mp queued).2.1 (by simpa using given)

theorem run?_eq (lawful : Lawful enqueue nodes edges) (fuel : Nat)
    (sound : Sound nodes edges state) (enough : nodes.length < fuel + state.order.length) :
    run? enqueue edges fuel state = some (run enqueue edges fuel state) := by
  induction fuel generalizing state with
  | zero =>
    have short := sound.length_le
    omega
  | succ fuel ih =>
    simp only [run?, run]
    split
    · rfl
    next node rest head =>
      have queued : node ∈ state.ready := by
        rw [head]
        exact .head _
      have positive : ∀ target ∈ targets edges node,
          ({ state with ready := rest, order := state.order ++ [node] } : State α).waiting target ≠
            0 := sound.waiting_ne_zero queued
      rw [foldlM_release? (targets_nodup lawful.simple node) positive, Option.bind_some]
      apply ih (step_sound lawful sound head)
      rw [step_order lawful, List.length_append, List.length_singleton]
      omega

/-- No counter falls below zero, and the loop ends. -/
theorem order?_eq (lawful : Lawful enqueue nodes edges) :
    order? enqueue nodes edges = some (order enqueue nodes edges) := by
  unfold order? order
  rw [run?_eq lawful _ (start_sound lawful) (by simp [start])]
  rfl

end ReadyOrder
