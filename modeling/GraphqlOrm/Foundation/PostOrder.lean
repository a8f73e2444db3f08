import GraphqlOrm.Foundation.Before
import Mathlib.Logic.Relation
import Mathlib.Data.List.Nodup

/-!
# Post-order of a graph

A depth-first walk lists a node after its nested calls. Nodes under way are skipped, so that the
walk ends on every graph and lists each node once; where no node refers back to itself through
others, it lists each node after all that it refers to.

## Main results

- `order_perm`: the walk lists the nodes, each once.
- `order_before`: on an acyclic graph the targets of a node come before it.
-/

namespace PostOrder

/-- Nodes, and what each of them refers to. A target need not be a node. -/
structure Graph (α : Type) where
  nodes : List α
  nodup : nodes.Nodup
  targets : α → List α

/-- The nodes under way and the finished ones, newest first. -/
structure Walk (α : Type) where
  visiting : List α := []
  visited : List α := []

variable {α : Type} {graph : Graph α}

/-! ### What one call adds -/

/-- The walk finished the named nodes, which were neither finished nor under way. -/
structure Adds (graph : Graph α) (before after : Walk α) (names : List α) : Prop where
  visiting : after.visiting = before.visiting
  visited : after.visited = names.reverse ++ before.visited
  nodup : names.Nodup
  each : ∀ name ∈ names, name ∈ graph.nodes ∧ name ∉ before.visiting ∧ name ∉ before.visited

theorem Adds.refl (walk : Walk α) : Adds graph walk walk [] := ⟨rfl, rfl, .nil, by simp⟩

theorem Adds.trans {a b c : Walk α} {names later : List α} (first : Adds graph a b names)
    (second : Adds graph b c later) : Adds graph a c (names ++ later) where
  visiting := second.visiting.trans first.visiting
  visited := by rw [second.visited, first.visited, List.reverse_append, List.append_assoc]
  nodup := by
    rw [List.nodup_append]
    refine ⟨first.nodup, second.nodup, fun name left other right same => ?_⟩
    -- The second call saw everything the first one added as visited.
    apply (second.each other right).2.2
    rw [first.visited]
    exact List.mem_append_left _ (List.mem_reverse.mpr (same ▸ left))
  each name mem := by
    rcases List.mem_append.mp mem with left | right
    · exact first.each name left
    · obtain ⟨found, underWay, fresh⟩ := second.each name right
      rw [first.visiting] at underWay
      rw [first.visited] at fresh
      exact ⟨found, underWay, fun old => fresh (List.mem_append_right _ old)⟩

theorem Adds.visited_subset {before after : Walk α} {names : List α}
    (adds : Adds graph before after names) {name : α} (seen : name ∈ before.visited) :
    name ∈ after.visited := by
  rw [adds.visited]
  exact List.mem_append_right _ seen

theorem Adds.foldl {β : Type} {f : Walk α → β → Walk α} {xs : List β}
    (each : ∀ walk x, ∃ names, Adds graph walk (f walk x) names) (walk : Walk α) :
    ∃ names, Adds graph walk (xs.foldl f walk) names := by
  induction xs generalizing walk with
  | nil => exact ⟨[], .refl walk⟩
  | cons x rest ih =>
    obtain ⟨names, first⟩ := each walk x
    obtain ⟨later, second⟩ := ih (f walk x)
    exact ⟨names ++ later, first.trans second⟩

/-! ### What a node refers to -/

def Refers (graph : Graph α) (node other : α) : Prop :=
  node ∈ graph.nodes ∧ other ∈ graph.targets node ∧ other ∈ graph.nodes ∧ node ≠ other

def Acyclic (graph : Graph α) : Prop := ∀ node, ¬Relation.TransGen (Refers graph) node node

/-- Of the visited nodes, newest first, each comes after all that it refers to. -/
def Settled (graph : Graph α) : List α → Prop
  | [] => True
  | node :: older => (∀ other, Refers graph node other → other ∈ older) ∧ Settled graph older

variable {node : α}

theorem Settled.before {visited : List α} (settled : Settled graph visited) {other : α}
    (seen : node ∈ visited) (refers : Refers graph node other) :
    Before visited.reverse other node := by
  induction visited with
  | nil => cases seen
  | cons newest older ih =>
    rw [List.reverse_cons, Before.append_iff]
    rcases List.mem_cons.mp seen with rfl | earlier
    · exact .inr (.inl ⟨List.mem_reverse.mpr (settled.1 other refers), List.mem_singleton_self _⟩)
    · exact .inl (ih settled.2 earlier)

/-! ### The walk -/

variable [DecidableEq α]

def visit (graph : Graph α) : Nat → Walk α → α → Walk α
  | 0, walk, _ => walk
  | fuel + 1, walk, node =>
    if node ∈ walk.visited ∨ node ∈ walk.visiting then walk
    else if node ∈ graph.nodes then
      let inside := (graph.targets node).foldl
        (fun walk target => if target ∈ graph.nodes then visit graph fuel walk target else walk)
        { walk with visiting := node :: walk.visiting }
      -- The node was under way while its targets were visited.
      { visiting := inside.visiting.erase node
        visited := node :: inside.visited }
    else walk

def order (graph : Graph α) : List α :=
  (graph.nodes.foldl (visit graph (graph.nodes.length + 1)) {}).visited.reverse

variable {walk : Walk α}

/-- A node whose targets added the named ones is added after them. -/
theorem Adds.finish {inside : Walk α} {names : List α}
    (adds : Adds graph { walk with visiting := node :: walk.visiting } inside names)
    (stored : node ∈ graph.nodes) (unseen : node ∉ walk.visited) (idle : node ∉ walk.visiting) :
    Adds graph walk
      { visiting := inside.visiting.erase node, visited := node :: inside.visited }
      (names ++ [node]) := by
  obtain ⟨visiting, visited, nodup, each⟩ := adds
  refine ⟨?_, ?_, ?_, ?_⟩
  · rw [visiting, List.erase_cons_head]
  · rw [visited, List.reverse_append, List.reverse_singleton, List.singleton_append,
      List.cons_append]
  · rw [List.nodup_append]
    refine ⟨nodup, List.nodup_singleton node, fun other left last right same => ?_⟩
    -- The node itself was under way while the nested calls ran.
    apply (each other left).2.1
    rw [same, List.mem_singleton.mp right]
    exact .head _
  · intro inner mem
    rcases List.mem_append.mp mem with left | right
    · obtain ⟨found, underWay, fresh⟩ := each inner left
      exact ⟨found, fun old => underWay (.tail _ old), fresh⟩
    · rw [List.mem_singleton.mp right]
      exact ⟨stored, idle, unseen⟩

attribute [local simp] visit

theorem visit_adds (graph : Graph α) (fuel : Nat) (walk : Walk α) (node : α) :
    ∃ names, Adds graph walk (visit graph fuel walk node) names := by
  induction fuel generalizing walk node with
  | zero => exact ⟨[], .refl walk⟩
  | succ fuel ih =>
    simp only [visit]
    split
    · exact ⟨[], .refl walk⟩
    next fresh =>
      split
      next stored =>
        rw [not_or] at fresh
        have targets (inner : Walk α) (target : α) : ∃ names, Adds graph inner
            (if target ∈ graph.nodes then visit graph fuel inner target else inner) names := by
          split
          · exact ih inner target
          · exact ⟨[], .refl inner⟩
        obtain ⟨names, nested⟩ := Adds.foldl targets { walk with visiting := node :: walk.visiting }
        exact ⟨names ++ [node], nested.finish stored fresh.1 fresh.2⟩
      · exact ⟨[], .refl walk⟩

theorem walk_adds (graph : Graph α) (fuel : Nat) (nodes : List α) (walk : Walk α) :
    ∃ names, Adds graph walk (nodes.foldl (visit graph fuel) walk) names :=
  Adds.foldl (visit_adds graph fuel) walk

/-- A call finishes its own node, unless the node is under way. -/
theorem visit_visited (fuel : Nat) (stored : node ∈ graph.nodes) (idle : node ∉ walk.visiting) :
    node ∈ (visit graph (fuel + 1) walk node).visited := by
  simp only [visit]
  split
  next seen => exact seen.resolve_right idle
  · exact .head _

theorem visit_underWay {fuel : Nat} (inside : node ∈ walk.visiting) :
    visit graph fuel walk node = walk := by
  cases fuel with
  | zero => rfl
  | succ fuel => rw [visit, if_pos (.inr inside)]

/-! ### The fuel never runs out -/

def idleCount (graph : Graph α) (walk : Walk α) : Nat :=
  (graph.nodes.filter (· ∉ walk.visiting)).length

theorem idleCount_le (walk : Walk α) : idleCount graph walk ≤ graph.nodes.length :=
  List.length_filter_le _ _

theorem idleCount_congr {other : Walk α} (same : walk.visiting = other.visiting) :
    idleCount graph walk = idleCount graph other := by
  unfold idleCount
  rw [same]

theorem idleCount_enter (stored : node ∈ graph.nodes) (idle : node ∉ walk.visiting) :
    idleCount graph { walk with visiting := node :: walk.visiting } < idleCount graph walk := by
  have split : graph.nodes.filter (· ∉ node :: walk.visiting) =
      (graph.nodes.filter (· ∉ walk.visiting)).filter (· ≠ node) := by
    rw [List.filter_filter]
    apply List.filter_congr
    intro other _
    simp
  unfold idleCount
  simp only [split]
  apply List.length_filter_lt_length_iff_exists.mpr
  exact ⟨node, List.mem_filter.mpr ⟨stored, by simpa using idle⟩, by simp⟩

/-- Two fuels that exceed the nodes not yet under way give the same walk, so the bound on the
recursion is not a bound on the result. -/
theorem visit_fuel (fuel fuel' : Nat) (enough : idleCount graph walk < fuel)
    (enough' : idleCount graph walk < fuel') :
    visit graph fuel walk node = visit graph fuel' walk node := by
  induction fuel generalizing fuel' walk node with
  | zero => omega
  | succ fuel ih =>
    obtain _ | fuel' := fuel'
    · omega
    simp only [visit]
    split
    · rfl
    next fresh =>
      split
      next stored =>
        rw [not_or] at fresh
        have entered := idleCount_enter stored fresh.2
        -- Nested calls leave the nodes under way alone, so the bound holds for each of them.
        have same (targets : List α) (inner : Walk α)
            (underWay : inner.visiting = node :: walk.visiting) :
            targets.foldl (fun walk target =>
              if target ∈ graph.nodes then visit graph fuel walk target else walk) inner =
            targets.foldl (fun walk target =>
              if target ∈ graph.nodes then visit graph fuel' walk target else walk) inner := by
          induction targets generalizing inner with
          | nil => rfl
          | cons target rest later =>
            have bound : idleCount graph inner < idleCount graph walk := by
              have equal : idleCount graph inner =
                  idleCount graph { walk with visiting := node :: walk.visiting } :=
                idleCount_congr underWay
              rwa [equal]
            rw [List.foldl_cons, List.foldl_cons]
            split
            · rw [ih fuel' (by omega) (by omega)]
              obtain ⟨_, step⟩ := visit_adds graph fuel' inner target
              exact later _ (step.visiting.trans underWay)
            · exact later inner underWay
        rw [same (graph.targets node) _ rfl]
      · rfl

/-- Any fuel above the number of nodes gives the same walk. -/
theorem walk_fuel {fuel : Nat} (enough : graph.nodes.length < fuel) (nodes : List α) :
    nodes.foldl (visit graph fuel) walk =
      nodes.foldl (visit graph (graph.nodes.length + 1)) walk := by
  induction nodes generalizing walk with
  | nil => rfl
  | cons node rest ih =>
    have short : idleCount graph walk ≤ graph.nodes.length := idleCount_le walk
    rw [List.foldl_cons, List.foldl_cons,
      visit_fuel fuel (graph.nodes.length + 1) (by omega) (by omega)]
    exact ih

/-! ### The whole walk -/

theorem walk_visited (fuel : Nat) (nodes : List α) (idle : walk.visiting = []) (mem : node ∈ nodes)
    (stored : node ∈ graph.nodes) :
    node ∈ (nodes.foldl (visit graph (fuel + 1)) walk).visited := by
  induction nodes generalizing walk with
  | nil => cases mem
  | cons first rest ih =>
    obtain ⟨_, step⟩ := visit_adds graph (fuel + 1) walk first
    rcases List.mem_cons.mp mem with rfl | later
    · have seen : node ∈ (visit graph (fuel + 1) walk node).visited :=
        visit_visited fuel stored (by simp [idle])
      obtain ⟨_, others⟩ := walk_adds graph (fuel + 1) rest (visit graph (fuel + 1) walk node)
      exact others.visited_subset seen
    · exact ih (step.visiting.trans idle) later

/-- The walk lists the nodes, each once. -/
theorem order_perm (graph : Graph α) : (order graph).Perm graph.nodes := by
  obtain ⟨names, adds⟩ := walk_adds graph (graph.nodes.length + 1) graph.nodes {}
  have listed : order graph = names := by
    rw [order, adds.visited, List.append_nil, List.reverse_reverse]
  rw [listed]
  refine (List.perm_ext_iff_of_nodup adds.nodup graph.nodup).mpr fun name => ?_
  constructor
  · exact fun mem => (adds.each name mem).1
  · intro stored
    have seen : name ∈ (graph.nodes.foldl (visit graph (graph.nodes.length + 1)) {}).visited :=
      walk_visited _ _ rfl stored stored
    rwa [adds.visited, List.append_nil, List.mem_reverse] at seen

theorem order_nodup (graph : Graph α) : (order graph).Nodup :=
  (order_perm graph).nodup_iff.mpr graph.nodup

theorem mem_order : node ∈ order graph ↔ node ∈ graph.nodes := (order_perm graph).mem_iff

/-! ### Targets first -/

/-- A call that only nodes referring to its own are waiting for leaves a settled walk behind. -/
theorem visit_settled (acyclic : Acyclic graph) (fuel : Nat) (enough : idleCount graph walk < fuel)
    (settled : Settled graph walk.visited)
    (path : ∀ above ∈ walk.visiting, Relation.TransGen (Refers graph) above node) :
    Settled graph (visit graph fuel walk node).visited := by
  induction fuel generalizing walk node with
  | zero => omega
  | succ fuel ih =>
    simp only [visit]
    split
    · exact settled
    next fresh =>
      split
      next stored =>
        rw [not_or] at fresh
        have entered := idleCount_enter stored fresh.2
        obtain ⟨fuel, rfl⟩ : ∃ less, fuel = less + 1 := ⟨fuel - 1, by omega⟩
        -- The nested calls visit all that the node refers to, one after another.
        have nested (targets : List α) (inner : Walk α)
            (own : ∀ target ∈ targets, target ∈ graph.targets node)
            (underWay : inner.visiting = node :: walk.visiting)
            (before : Settled graph inner.visited) :
            let after := targets.foldl (fun walk target =>
              if target ∈ graph.nodes then visit graph (fuel + 1) walk target else walk) inner
            Settled graph after.visited ∧ (∀ old ∈ inner.visited, old ∈ after.visited) ∧
              ∀ target ∈ targets, Refers graph node target → target ∈ after.visited := by
          induction targets generalizing inner with
          | nil => exact ⟨before, fun _ seen => seen, by simp⟩
          | cons target rest later =>
            have others := fun other mem => own other (List.mem_cons_of_mem target mem)
            simp only [List.foldl_cons]
            by_cases reference : Refers graph node target
            · have above : ∀ above ∈ inner.visiting,
                  Relation.TransGen (Refers graph) above target := by
                intro above mem
                rw [underWay] at mem
                rcases List.mem_cons.mp mem with rfl | outer
                · exact .single reference
                · exact (path above outer).tail reference
              have bound : idleCount graph inner < fuel + 1 := by
                have same : idleCount graph inner =
                    idleCount graph { walk with visiting := node :: walk.visiting } :=
                  idleCount_congr underWay
                omega
              obtain ⟨names, step⟩ := visit_adds graph (fuel + 1) inner target
              have inGraph := reference.2.2.1
              -- A target under way would close a cycle.
              have seen := visit_visited fuel inGraph fun inside =>
                acyclic target (above target inside)
              rw [if_pos inGraph]
              obtain ⟨whole, kept, rest⟩ := later (visit graph (fuel + 1) inner target) others
                (step.visiting.trans underWay) (ih bound before above)
              refine ⟨whole, fun old mem => kept old (step.visited_subset mem),
                fun other mem refers => ?_⟩
              rcases List.mem_cons.mp mem with rfl | among
              · exact kept _ seen
              · exact rest other among refers
            · -- A reference of the node to itself finds it under way.
              have skipped : (if target ∈ graph.nodes then visit graph (fuel + 1) inner target
                  else inner) = inner := by
                split
                next inGraph =>
                  apply visit_underWay
                  rw [underWay]
                  by_contra outside
                  refine reference ⟨stored, own target (.head _), inGraph, ?_⟩
                  exact fun same => outside (same ▸ .head _)
                · rfl
              rw [skipped]
              obtain ⟨whole, kept, rest⟩ := later inner others underWay before
              refine ⟨whole, kept, fun other mem refers => ?_⟩
              rcases List.mem_cons.mp mem with rfl | among
              · exact absurd refers reference
              · exact rest other among refers
        obtain ⟨whole, _, all⟩ := nested (graph.targets node)
          { walk with visiting := node :: walk.visiting } (fun _ mem => mem) rfl settled
        exact ⟨fun other refers => all other refers.2.1 refers, whole⟩
      · exact settled

theorem walk_settled (acyclic : Acyclic graph) {fuel : Nat} (enough : graph.nodes.length < fuel)
    (nodes : List α) (idle : walk.visiting = []) (settled : Settled graph walk.visited) :
    Settled graph (nodes.foldl (visit graph fuel) walk).visited := by
  induction nodes generalizing walk with
  | nil => exact settled
  | cons node rest ih =>
    obtain ⟨_, step⟩ := visit_adds graph fuel walk node
    refine ih (step.visiting.trans idle) (visit_settled acyclic fuel ?_ settled ?_)
    · exact Nat.lt_of_le_of_lt (idleCount_le walk) enough
    · rw [idle]
      intro above mem
      cases mem

/-- On an acyclic graph the walk lists a node after all that it refers to. -/
theorem order_before (acyclic : Acyclic graph) {other : α} (refers : Refers graph node other) :
    Before (order graph) other node := by
  have start : Settled graph (Walk.visited {}) := trivial
  have settled := walk_settled acyclic (Nat.lt_succ_self _) graph.nodes rfl start
  apply settled.before _ refers
  exact walk_visited _ graph.nodes rfl refers.1 refers.1

end PostOrder
