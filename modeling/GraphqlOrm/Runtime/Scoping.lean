import GraphqlOrm.Runtime.MutationSql
import GraphqlOrm.Runtime.RelationFilter

/-!
# The scopes of embedded predicates

Which rows the columns of a rendered predicate denote in the statements that embed it. A
predicate calls the row it is about by the name of its table, so it fits only where the
statement does so too.
-/
namespace GraphqlOrm.Runtime

open Outcome
open Schema (DatabaseBackend)
open Sql

variable {φ : Type}

/-! ### The rows that are meant -/

mutual

/-- The rows that the references of a predicate are meant to denote, by the depth of the
subquery they belong to. -/
def PredicateExpr.intended (backend : DatabaseBackend) (level : Nat) : PredicateExpr φ → List Nat
  | .constant _ => []
  | .isNull _ _ => [level]
  | .compare _ op _ => if op = .endsWith ∧ backend ≠ .postgres then [level, level] else [level]
  | .list _ _ _ => [level]
  | .between _ _ _ => [level]
  | .and children => allIntended backend level children
  | .or children => allIntended backend level children
  | .not child => child.intended backend level
  | .relation relation _ grant filter =>
    relation.keyPairs.flatMap (fun _ => [level + 1, level]) ++
      (grant.intended backend (level + 1) ++ filter.intended backend (level + 1))

def allIntended (backend : DatabaseBackend) (level : Nat) : List (PredicateExpr φ) → List Nat
  | [] => []
  | child :: rest => child.intended backend level ++ allIntended backend level rest

end

mutual

/-- The columns that a predicate reads of its own row outside of relation nodes. -/
def PredicateExpr.ownColumns : PredicateExpr φ → List String
  | .constant _ => []
  | .isNull field _ | .compare field _ _ | .list field _ _ | .between field _ _ =>
    [field.physicalColumn]
  | .and children => allOwnColumns children
  | .or children => allOwnColumns children
  | .not child => child.ownColumns
  | .relation _ _ _ _ => []

def allOwnColumns : List (PredicateExpr φ) → List String
  | [] => []
  | child :: rest => child.ownColumns ++ allOwnColumns rest

end

mutual

def PredicateExpr.ownRelations : PredicateExpr φ → List RuntimeRelationHandle
  | .constant _ | .isNull _ _ | .compare _ _ _ | .list _ _ _ | .between _ _ _ => []
  | .and children => allOwnRelations children
  | .or children => allOwnRelations children
  | .not child => child.ownRelations
  | .relation relation _ _ _ => [relation]

def allOwnRelations : List (PredicateExpr φ) → List RuntimeRelationHandle
  | [] => []
  | child :: rest => child.ownRelations ++ allOwnRelations rest

end

theorem allOwnColumns_eq (children : List (PredicateExpr φ)) :
    allOwnColumns children = children.flatMap PredicateExpr.ownColumns := by
  induction children with
  | nil => rfl
  | cons child rest ih => rw [allOwnColumns, ih, List.flatMap_cons]

theorem allOwnRelations_eq (children : List (PredicateExpr φ)) :
    allOwnRelations children = children.flatMap PredicateExpr.ownRelations := by
  induction children with
  | nil => rfl
  | cons child rest ih => rw [allOwnRelations, ih, List.flatMap_cons]

mutual

theorem hasRelationFilters_iff (expr : PredicateExpr φ) :
    expr.hasRelationFilters = true ↔ expr.ownRelations ≠ [] := by
  match expr with
  | .constant _ | .isNull _ _ | .compare _ _ _ | .list _ _ _ | .between _ _ _ =>
    simp [PredicateExpr.hasRelationFilters, PredicateExpr.ownRelations]
  | .and children =>
    rw [PredicateExpr.hasRelationFilters, PredicateExpr.ownRelations]
    exact anyRelationFilters_iff_ne_nil children
  | .or children =>
    rw [PredicateExpr.hasRelationFilters, PredicateExpr.ownRelations]
    exact anyRelationFilters_iff_ne_nil children
  | .not child =>
    rw [PredicateExpr.hasRelationFilters, PredicateExpr.ownRelations]
    exact hasRelationFilters_iff child
  | .relation _ _ _ _ => simp [PredicateExpr.hasRelationFilters, PredicateExpr.ownRelations]

theorem anyRelationFilters_iff_ne_nil (children : List (PredicateExpr φ)) :
    anyRelationFilters children = true ↔ allOwnRelations children ≠ [] := by
  match children with
  | [] => simp [anyRelationFilters, allOwnRelations]
  | child :: rest =>
    rw [anyRelationFilters, allOwnRelations, Bool.or_eq_true, hasRelationFilters_iff child,
      anyRelationFilters_iff_ne_nil rest, ne_eq, ne_eq, ne_eq, List.append_eq_nil_iff, not_and_or]

end

/-! ### The rows that are denoted -/

/-- The row source of a subquery of a relation node. -/
def relatedItem (columnsOf : String → List String) (relation : RuntimeRelationHandle) (level : Nat) :
    Item (Option Nat) :=
  ⟨relationAlias level, columnsOf relation.target.physicalTable, some (level + 1)⟩

/-- What a predicate asks of the scopes around it: its own columns and, from inside its
subqueries, the key columns of its row denote the row of its level. -/
structure Scoped (outward : Bool) (columnsOf : String → List String) (outer : String) (level : Nat)
    (scopes : Scopes (Option Nat)) (columns : List String) (relations : List RuntimeRelationHandle) :
    Prop where
  own : ∀ column ∈ columns, resolve outward scopes { column } = some (some level)
  keys : ∀ relation ∈ relations, ∀ pair ∈ relation.keyPairs,
    resolve outward ([relatedItem columnsOf relation level] :: scopes)
      ⟨some outer, pair.1.physicalColumn⟩ = some (some level)

variable {level : Nat} {scopes : Scopes (Option Nat)}

theorem Scoped.append {outward : Bool} {columnsOf : String → List String} {outer : String}
    {columns columns' : List String} {relations relations' : List RuntimeRelationHandle} :
    Scoped outward columnsOf outer level scopes (columns ++ columns') (relations ++ relations') ↔
      Scoped outward columnsOf outer level scopes columns relations ∧
        Scoped outward columnsOf outer level scopes columns' relations' := by
  constructor
  · rintro ⟨own, keys⟩
    exact ⟨⟨fun c mem => own c (List.mem_append_left _ mem),
        fun r mem => keys r (List.mem_append_left _ mem)⟩,
      fun c mem => own c (List.mem_append_right _ mem),
      fun r mem => keys r (List.mem_append_right _ mem)⟩
  · rintro ⟨left, right⟩
    exact ⟨fun c mem => (List.mem_append.mp mem).elim (left.own c) (right.own c),
      fun r mem => (List.mem_append.mp mem).elim (left.keys r) (right.keys r)⟩

theorem Scoped.nothing {outward : Bool} {columnsOf : String → List String} {outer : String} :
    Scoped outward columnsOf outer level scopes [] [] :=
  ⟨fun _ none => absurd none List.not_mem_nil, fun _ none => absurd none List.not_mem_nil⟩

section Denotations

variable {backend : DatabaseBackend} {outward : Bool} {columnsOf : String → List String}

theorem columnScalar_references (field : RuntimeFieldHandle) :
    (columnScalar backend field).references = [{ column := field.physicalColumn }] := by
  rw [columnScalar]
  split <;> rfl

/-- By position, a suffix test looks at its column twice. -/
theorem compareTree_references (field : RuntimeFieldHandle) (op : RuntimeScalarOperator) (n : Nat) :
    (compareTree backend field op n).references =
      if op = .endsWith ∧ backend ≠ .postgres then
        [{ column := field.physicalColumn }, { column := field.physicalColumn }]
      else [{ column := field.physicalColumn }] := by
  have column : (columnScalar backend field).references = [{ column := field.physicalColumn }] :=
    columnScalar_references field
  by_cases numbered : backend = .postgres
  · subst numbered
    cases op <;>
      simp [compareTree, Elementary.references, Scalar.references, column, bindScalar]
  · cases op <;>
      simp [compareTree, numbered, Elementary.references, Scalar.references, column, bindScalar]

theorem list_references (field : RuntimeFieldHandle) (negated : Bool) (n count : Nat) :
    (Elementary.member (columnScalar backend field) negated
      ((List.range count).map fun i => bindScalar backend field (n + i))).references =
        [{ column := field.physicalColumn }] := by
  have binds : ((List.range count).map fun i => bindScalar backend field (n + i)).flatMap
      Scalar.references = [] := by
    rw [List.flatMap_map]
    exact List.flatMap_eq_nil_iff.mpr fun _ _ => rfl
  rw [Elementary.references, binds, columnScalar_references, List.append_nil]

theorem between_references (field : RuntimeFieldHandle) (n : Nat) :
    (Elementary.between (columnScalar backend field) (bindScalar backend field n)
      (bindScalar backend field (n + 1))).references = [{ column := field.physicalColumn }] := by
  rw [Elementary.references, columnScalar_references]
  rfl

theorem denotations_atom (depth : Nat) (scopes : Scopes (Option Nat)) (e : Elementary) :
    (Factor.atom e).denotations outward columnsOf depth scopes =
      e.references.map (resolve outward scopes) := rfl

/-- The quantifier adds no reference. -/
theorem quantifiedTree_denotations (depth : Nat) (scopes : Scopes (Option Nat)) (source : Subquery)
    (quantifier : RuntimeRelationQuantifier) (pairs : List (Factor Elementary Empty Subquery))
    (grant filter : Condition Elementary Empty Subquery) :
    (negatedIf (quantifiedTree filter quantifier).1 (.exists source (.one (.chain
        (pairs ++ [.group grant]) (quantifiedTree filter quantifier).2)))).denotations outward
          columnsOf depth scopes =
      let inner := [⟨source.alias, columnsOf source.table, some (depth + 1)⟩] :: scopes
      (pairs.flatMap fun f => f.denotations outward columnsOf (depth + 1) inner) ++
        (grant.denotations outward columnsOf (depth + 1) inner ++
          filter.denotations outward columnsOf (depth + 1) inner) := by
  cases quantifier <;>
    simp [quantifiedTree, negatedIf, Factor.denotations, Condition.denotations, denotations_chain,
      Factor.whole, Term.denotations]

theorem correlation_denotations (depth : Nat) (scopes : Scopes (Option Nat)) («alias» outer : String)
    (pairs : List (RuntimeFieldHandle × RuntimeFieldHandle)) :
    ((correlationAtoms «alias» outer pairs).flatMap fun f =>
        f.denotations outward columnsOf depth scopes) =
      pairs.flatMap fun pair => [resolve outward scopes ⟨some «alias», pair.2.physicalColumn⟩,
        resolve outward scopes ⟨some outer, pair.1.physicalColumn⟩] := by
  rw [correlationAtoms, List.flatMap_map]
  rfl

theorem whole_denotations (f : Factor Elementary Empty Subquery) (depth : Nat)
    (scopes : Scopes (Option Nat)) :
    f.whole.denotations outward columnsOf depth scopes =
      f.denotations outward columnsOf depth scopes := by
  simp [Factor.whole, Condition.denotations, Term.denotations]

mutual

theorem length_denotations (expr : PredicateExpr φ) (outer : Option String) (level n : Nat)
    (scopes : Scopes (Option Nat)) :
    ((factor backend outer level n expr).denotations outward columnsOf level scopes).length =
      (expr.intended backend level).length := by
  match expr with
  | .constant _ => rfl
  | .isNull _ _ => rfl
  | .compare field op value =>
    rw [factor, denotations_atom, compareTree_references, PredicateExpr.intended]
    split <;> rfl
  | .list field op operands =>
    rw [factor, denotations_atom, list_references]
    rfl
  | .between field low high =>
    rw [factor, denotations_atom, between_references]
    rfl
  | .and children =>
    rw [factor, Factor.denotations, Condition.denotations, denotations_conjunction]
    exact lengths_denotations children outer level n scopes
  | .or children =>
    rw [factor, Factor.denotations, denotations_disjunction]
    exact lengths_denotations children outer level n scopes
  | .not child =>
    rw [factor, Factor.denotations, Factor.denotations, whole_denotations]
    exact length_denotations child outer level n scopes
  | .relation relation quantifier grant filter =>
    rw [factor_relation, quantifiedTree_denotations]
    simp only [List.length_append, correlation_denotations, whole_denotations,
      length_denotations grant, length_denotations filter, PredicateExpr.intended]
    simp [List.length_flatMap]

theorem lengths_denotations (children : List (PredicateExpr φ)) (outer : Option String)
    (level n : Nat) (scopes : Scopes (Option Nat)) :
    ((factors backend outer level n children).flatMap fun f =>
      f.denotations outward columnsOf level scopes).length =
      (allIntended backend level children).length := by
  match children with
  | [] => rfl
  | child :: rest =>
    rw [factors, List.flatMap_cons, List.length_append, allIntended, List.length_append,
      length_denotations child, lengths_denotations rest]

end

/-! ### Denoted as meant -/

def Knows (schema : RuntimeSchema) (columnsOf : String → List String) : Prop :=
  ∀ collection ∈ schema.collections, ∀ field ∈ collection.fields,
    field.physicalColumn ∈ columnsOf collection.physicalTable

variable {expr : PredicateExpr φ}

section Proper

variable {schema : RuntimeSchema} {collection target : RuntimeCollection}

theorem Knows.field {field : RuntimeFieldHandle} (knows : Knows schema columnsOf)
    (own : IsFieldOf collection field) (mem : collection ∈ schema.collections) :
    field.physicalColumn ∈ columnsOf collection.physicalTable := by
  obtain ⟨_, declared, found, column, _⟩ := own
  rw [column]
  exact knows collection mem declared (List.mem_of_find?_eq_some found)

/-- The own columns of a predicate are fields of its collection. -/
theorem Proper.ownColumns (proper : Proper schema collection expr) :
    ∀ column ∈ expr.ownColumns, ∃ field, IsFieldOf collection field ∧
      field.physicalColumn = column := by
  induction proper with
  | constant => simp [PredicateExpr.ownColumns]
  | isNull own | compare own | list own | between own =>
    intro column mem
    rw [PredicateExpr.ownColumns, List.mem_singleton] at mem
    exact ⟨_, own, mem.symm⟩
  | and _ _ ih | or _ _ ih =>
    intro column mem
    rw [PredicateExpr.ownColumns, allOwnColumns_eq, List.mem_flatMap] at mem
    obtain ⟨child, among, inside⟩ := mem
    exact ih child among column inside
  | not _ ih => exact ih
  | relation => simp [PredicateExpr.ownColumns]

theorem Proper.ownRelations (proper : Proper schema collection expr) :
    ∀ relation ∈ expr.ownRelations, ∃ target ∈ schema.collections, Joins collection target relation := by
  induction proper with
  | constant | isNull | compare | list | between => simp [PredicateExpr.ownRelations]
  | and _ _ ih | or _ _ ih =>
    intro relation mem
    rw [PredicateExpr.ownRelations, allOwnRelations_eq, List.mem_flatMap] at mem
    obtain ⟨child, among, inside⟩ := mem
    exact ih child among relation inside
  | not _ ih => exact ih
  | @relation _ target _ _ _ _ known joins =>
    intro relation mem
    rw [PredicateExpr.ownRelations, List.mem_singleton] at mem
    rw [mem]
    exact ⟨target, List.mem_of_find?_eq_some known, joins⟩

/-- Inside a relation node the subquery's own row is the innermost one. -/
theorem scoped_inside (knows : Knows schema columnsOf) (mem : target ∈ schema.collections)
    (proper : Proper schema target expr) {relation : RuntimeRelationHandle}
    (joins : Joins collection target relation) (level : Nat) (scopes : Scopes (Option Nat)) :
    Scoped outward columnsOf (relationAlias level) (level + 1)
      ([relatedItem columnsOf relation level] :: scopes) expr.ownColumns expr.ownRelations where
  own column among := by
    obtain ⟨field, own, rfl⟩ := proper.ownColumns column among
    refine resolve_own outward ?_
    rw [relatedItem, joins.toTable]
    exact knows.field own mem
  keys inner among pair key := by
    obtain ⟨_, _, further⟩ := proper.ownRelations inner among
    have apart : relationAlias (level + 1) ≠ relationAlias level := fun same => by
      have := relationAlias_injective same
      omega
    have own : pair.1.physicalColumn ∈ (relatedItem columnsOf relation level).columns := by
      rw [relatedItem, joins.toTable]
      exact knows.field (further.pairs pair key).1 mem
    rw [resolve_past outward apart]
    exact resolve_named outward own

end Proper

/-- The references of a list of conditions denote what is meant exactly if those of each do. -/
theorem denotations_factors {outer : Option String} {n : Nat} {name : String}
    {children : List (PredicateExpr φ)} (each : ∀ child ∈ children, ∀ n,
      (factor backend outer level n child).denotations outward columnsOf level scopes =
          (child.intended backend level).map (fun l => some (some l)) ↔
        Scoped outward columnsOf name level scopes child.ownColumns child.ownRelations) :
    ((factors backend outer level n children).flatMap fun f =>
        f.denotations outward columnsOf level scopes) =
        (allIntended backend level children).map (fun l => some (some l)) ↔
      Scoped outward columnsOf name level scopes (allOwnColumns children)
        (allOwnRelations children) := by
  induction children generalizing n with
  | nil => exact ⟨fun _ => .nothing, fun _ => rfl⟩
  | cons child rest ih =>
    rw [factors, List.flatMap_cons, allIntended, List.map_append,
      List.append_eq_append_iff_of_size_eq_left (by rw [length_denotations, List.length_map]),
      allOwnColumns, allOwnRelations, Scoped.append, each child (.head _),
      ih fun c among => each c (.tail _ among)]

/-- A leaf reads one column, once or twice. -/
theorem scoped_column {name : String} {column : String} :
    Scoped outward columnsOf name level scopes [column] [] ↔
      resolve outward scopes { column } = some (some level) :=
  ⟨fun fit => fit.own column (.head _),
    fun here => ⟨fun c mem => by rw [List.mem_singleton.mp mem]; exact here,
      fun _ none => absurd none List.not_mem_nil⟩⟩

/-- In the subquery of a relation node only the outer sides of the pairs can go astray. -/
theorem correlation_iff {relation : RuntimeRelationHandle} {name : String}
    (own : ∀ pair ∈ relation.keyPairs, resolve outward
      ([relatedItem columnsOf relation level] :: scopes)
        ⟨some (relationAlias level), pair.2.physicalColumn⟩ = some (some (level + 1))) :
    (relation.keyPairs.flatMap fun pair =>
        [resolve outward ([relatedItem columnsOf relation level] :: scopes)
          ⟨some (relationAlias level), pair.2.physicalColumn⟩,
        resolve outward ([relatedItem columnsOf relation level] :: scopes)
          ⟨some name, pair.1.physicalColumn⟩]) =
        (relation.keyPairs.flatMap fun _ => [level + 1, level]).map (fun l => some (some l)) ↔
      Scoped outward columnsOf name level scopes [] [relation] := by
  refine @Iff.trans _ (∀ pair ∈ relation.keyPairs, resolve outward
    ([relatedItem columnsOf relation level] :: scopes) ⟨some name, pair.1.physicalColumn⟩ =
      some (some level)) _ ?_ ?_
  · generalize relation.keyPairs = pairs at own
    induction pairs with
    | nil => simp
    | cons pair rest ih =>
      rw [List.forall_mem_cons] at own ⊢
      rw [← ih own.2]
      simp [own.1]
  constructor
  · intro outer
    refine ⟨fun _ none => absurd none List.not_mem_nil, fun r mem => ?_⟩
    rw [List.mem_singleton.mp mem]
    exact outer
  · intro fit
    exact fit.keys relation (.head _)

/-- The references of a rendered predicate denote the rows that are meant exactly if the
scopes around it serve the references that lead out of it. -/
theorem denotations_iff {schema : RuntimeSchema} (knows : Knows schema columnsOf)
    {collection : RuntimeCollection} (mem : collection ∈ schema.collections)
    (proper : Proper schema collection expr) (outer : Option String) (level n : Nat)
    (scopes : Scopes (Option Nat)) :
    (factor backend outer level n expr).denotations outward columnsOf level scopes =
        (expr.intended backend level).map (fun l => some (some l)) ↔
      Scoped outward columnsOf (outer.getD collection.physicalTable) level scopes expr.ownColumns
        expr.ownRelations := by
  induction proper generalizing outer level n scopes with
  | constant => exact ⟨fun _ => .nothing, fun _ => rfl⟩
  | isNull own =>
    rw [PredicateExpr.ownColumns, PredicateExpr.ownRelations, scoped_column, factor, denotations_atom]
    simp [Elementary.references, Scalar.references, PredicateExpr.intended]
  | compare own fits supported =>
    rw [PredicateExpr.ownColumns, PredicateExpr.ownRelations, scoped_column, factor, denotations_atom,
      compareTree_references, PredicateExpr.intended]
    split <;> simp
  | list own filled fits scalar =>
    rw [PredicateExpr.ownColumns, PredicateExpr.ownRelations, scoped_column, factor, denotations_atom,
      list_references, PredicateExpr.intended]
    simp
  | between own low high ranged =>
    rw [PredicateExpr.ownColumns, PredicateExpr.ownRelations, scoped_column, factor, denotations_atom,
      between_references, PredicateExpr.intended]
    simp
  | and filled each ih =>
    rw [factor, Factor.denotations, Condition.denotations, denotations_conjunction]
    exact denotations_factors fun child among n => ih child among mem outer level n scopes
  | or filled each ih =>
    rw [factor, Factor.denotations, denotations_disjunction]
    exact denotations_factors fun child among n => ih child among mem outer level n scopes
  | not part ih =>
    rw [factor, Factor.denotations, Factor.denotations, whole_denotations]
    exact ih mem outer level n scopes
  | @relation collection target relation quantifier grant filter known joins grantPart filterPart
      grantIh filterIh =>
    have among : target ∈ schema.collections := List.mem_of_find?_eq_some known
    have granted := (grantIh among (some (relationAlias level)) (level + 1) n
      ([relatedItem columnsOf relation level] :: scopes)).mpr
        (scoped_inside knows among grantPart joins level scopes)
    have filtered := (filterIh among (some (relationAlias level)) (level + 1)
      (n + (emitted backend grant).length) ([relatedItem columnsOf relation level] :: scopes)).mpr
        (scoped_inside knows among filterPart joins level scopes)
    have own : ∀ pair ∈ relation.keyPairs, resolve outward
        ([relatedItem columnsOf relation level] :: scopes)
          ⟨some (relationAlias level), pair.2.physicalColumn⟩ = some (some (level + 1)) := by
      intro pair key
      refine resolve_named outward ?_
      rw [relatedItem, joins.toTable]
      exact knows.field (joins.pairs pair key).2 among
    rw [factor_relation, quantifiedTree_denotations]
    change (List.flatMap (fun f => Factor.denotations outward columnsOf (level + 1)
        ([relatedItem columnsOf relation level] :: scopes) f) _ ++
      (Condition.denotations outward columnsOf (level + 1)
          ([relatedItem columnsOf relation level] :: scopes) _ ++
        Condition.denotations outward columnsOf (level + 1)
          ([relatedItem columnsOf relation level] :: scopes) _)) = _ ↔ _
    rw [correlation_denotations, whole_denotations, whole_denotations, granted, filtered,
      PredicateExpr.ownColumns, PredicateExpr.ownRelations, joins.fromTable,
      PredicateExpr.intended, List.map_append, List.map_append]
    -- The grant and the filter stand on the subquery's own row; what is left are the keys.
    rw [List.append_eq_append_iff_of_size_eq_left (by simp [List.length_flatMap]), and_iff_left rfl]
    exact correlation_iff own

end Denotations

end GraphqlOrm.Runtime
