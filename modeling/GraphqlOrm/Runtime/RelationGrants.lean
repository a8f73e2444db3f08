import GraphqlOrm.Runtime.RelationFilter

/-!
# Relation filters respect grants

A predicate is rendered to a condition that sees only the related rows its grants admit.
The exception are predicates over a table that has the name of the first alias: there a
relation node takes its own row for the enclosing one.
-/
namespace GraphqlOrm.Runtime

open Outcome
open Schema (DatabaseBackend)
open Sql

variable {φ δ : Type}

/-! ### Placeholders -/

section Numbering

variable {backend : DatabaseBackend} {schema : RuntimeSchema}

/-- A prefix or suffix test names its only parameter twice where parameters are numbered. -/
theorem compareTree_parameters (field : RuntimeFieldHandle) (op : RuntimeScalarOperator) (n : Nat) :
    (compareTree backend field op n).parameters =
      if backend = .postgres then
        if op = .startsWith ∨ op = .endsWith then [n + 1, n + 1] else [n + 1]
      else if op = .endsWith then [n + 1, n + 2] else [n + 1] := by
  have column : (columnScalar backend field).parameters = [] := columnScalar_parameters
  by_cases numbered : backend = .postgres
  · subst numbered
    cases op <;>
      simp [compareTree, Elementary.parameters, Scalar.parameters, column, bindScalar]
  · cases op <;>
      simp [compareTree, numbered, Elementary.parameters, Scalar.parameters, column, bindScalar]

theorem compareTree_numbered {field : RuntimeFieldHandle} {value : RuntimeValue φ}
    (fits : Fits field value) (op : RuntimeScalarOperator) (n : Nat) :
    Numbered (backend = .postgres) (n + 1) (compareTree backend field op n).parameters
      (n + 1 + (compareBinds backend op value).length) := by
  have one := length_bind fits
  rw [compareTree_parameters]
  split
  next numbered =>
    have count : (compareBinds backend op value).length = 1 := by simp [compareBinds, numbered, one]
    rw [count]
    split
    · exact .fresh (.repeated (by simp [numbered]) (.nil _))
    · exact .one _
  next positional =>
    by_cases suffix : op = .endsWith
    · have count : (compareBinds backend op value).length = 2 := by
        simp [compareBinds, suffix, positional, one]
      rw [if_pos suffix, count]
      exact .fresh (.fresh (.nil _))
    · rw [if_neg suffix, compareBinds_once suffix, one]
      exact .one _

theorem length_operands {field : RuntimeFieldHandle} {operands : List (RuntimeValue φ)}
    (fits : ∀ operand ∈ operands, Fits field operand) :
    (operands.flatMap fun value => (valueBind value).toList).length = operands.length := by
  induction operands with
  | nil => rfl
  | cons operand rest ih =>
    rw [List.flatMap_cons, List.length_append, length_bind (fits operand (.head _)),
      ih fun v mem => fits v (.tail _ mem), List.length_cons, Nat.add_comm]

theorem factors_numbered {again : Bool} {outer : Option String} {level n : Nat}
    {children : List (PredicateExpr φ)}
    (each : ∀ child ∈ children, ∀ n, Numbered again (n + 1)
      (tokenParameters (factor backend outer level n child).tokens)
      (n + 1 + (emitted backend child).length)) :
    Numbered again (n + 1)
      ((factors backend outer level n children).flatMap fun f => tokenParameters f.tokens)
      (n + 1 + (emittedAll backend children).length) := by
  induction children generalizing n with
  | nil => exact .nil _
  | cons child rest ih =>
    have here := each child (.head _) n
    have later := @ih (n + (emitted backend child).length)
      (fun c mem => each c (.tail _ mem))
    rw [factors, List.flatMap_cons, emittedAll, List.length_append, ← Nat.add_assoc]
    rw [show n + (emitted backend child).length + 1 = n + 1 + (emitted backend child).length by omega]
      at later
    exact here.trans later

theorem correlation_parameters («alias» outer : String)
    (pairs : List (RuntimeFieldHandle × RuntimeFieldHandle)) :
    ((correlationAtoms «alias» outer pairs).flatMap fun f => tokenParameters f.tokens) = [] := by
  induction pairs with
  | nil => rfl
  | cons pair rest ih =>
    rw [correlationAtoms, List.map_cons, List.flatMap_cons]
    exact ih

/-- The quantifier adds no parameter. -/
theorem quantifiedTree_parameters (source : Subquery) (quantifier : RuntimeRelationQuantifier)
    (pairs : List (Factor Elementary Empty Subquery))
    (grant filter : Condition Elementary Empty Subquery) :
    tokenParameters (negatedIf (quantifiedTree filter quantifier).1 (.exists source (.one (.chain
        (pairs ++ [.group grant]) (quantifiedTree filter quantifier).2)))).tokens =
      (pairs.flatMap fun f => tokenParameters f.tokens) ++
        (tokenParameters grant.tokens ++ tokenParameters filter.tokens) := by
  have inner (last : Factor Elementary Empty Subquery) :
      tokenParameters (Condition.one (Term.chain (pairs ++ [.group grant]) last)).tokens =
        (pairs.flatMap fun f => tokenParameters f.tokens) ++
          (tokenParameters grant.tokens ++ tokenParameters last.tokens) := by
    rw [Condition.tokens, tokenParameters_chain]
    simp
  cases quantifier <;> simp [quantifiedTree, negatedIf, inner]

/-- The placeholders of a rendered condition are numbered like its values. -/
theorem factor_numbered {collection : RuntimeCollection} {expr : PredicateExpr φ}
    (proper : Proper schema collection expr) (outer : Option String) (level n : Nat) :
    Numbered (backend = .postgres) (n + 1)
      (tokenParameters (factor backend outer level n expr).tokens)
      (n + 1 + (emitted backend expr).length) := by
  induction proper generalizing outer level n with
  | constant | isNull own => exact .nil _
  | @compare _ field op value own fits supported =>
    rw [factor, Factor.tokens, tokenParameters, List.flatMap_singleton]
    exact compareTree_numbered fits op n
  | @list _ field op operands own filled fits scalar =>
    have numbers : ((List.range operands.length).map fun i =>
        bindScalar backend field (n + i)).flatMap Scalar.parameters =
          List.range' (n + 1) operands.length := by
      rw [List.flatMap_map, List.range'_eq_map_range]
      simp only [bindScalar, Scalar.parameters, ← List.map_eq_flatMap, Nat.add_right_comm]
    rw [factor, tokenParameters_atom, emitted, length_operands fits]
    simp only [Elementary.parameters, columnScalar_parameters, List.nil_append, numbers]
    exact .range' _ _
  | @between _ field low high own lowFits highFits ranged =>
    rw [factor, tokenParameters_atom, emitted, List.length_append, length_bind lowFits,
      length_bind highFits]
    simp only [Elementary.parameters, columnScalar_parameters, List.nil_append]
    exact .fresh (.fresh (.nil _))
  | @and collection children filled each ih =>
    rw [factor, tokenParameters_group, Condition.tokens, tokenParameters_conjunction]
    exact factors_numbered fun child among n => ih child among outer level n
  | @or collection children filled each ih =>
    rw [factor, tokenParameters_group, tokenParameters_disjunction]
    exact factors_numbered fun child among n => ih child among outer level n
  | not part ih =>
    rw [factor, tokenParameters_not, tokenParameters_group, tokenParameters_whole]
    exact ih outer level n
  | @relation collection target relation quantifier grant filter known joins _ _ grantIh filterIh =>
    have first := grantIh (some (relationAlias level)) (level + 1) n
    have second := filterIh (some (relationAlias level)) (level + 1)
      (n + (emitted backend grant).length)
    rw [Nat.add_right_comm] at second
    rw [factor_relation, quantifiedTree_parameters, correlation_parameters, List.nil_append,
      tokenParameters_whole, tokenParameters_whole, emitted, List.length_append, ← Nat.add_assoc]
    exact first.trans second

end Numbering

/-! ### Hidden rows -/

mutual

/-- The target's table and the grant of every relation node, also of those inside others. -/
def PredicateExpr.grants : PredicateExpr φ → List (String × PredicateExpr φ)
  | .constant _ | .isNull _ _ | .compare _ _ _ | .list _ _ _ | .between _ _ _ => []
  | .and children => allGrants children
  | .or children => allGrants children
  | .not child => child.grants
  | .relation relation _ grant filter =>
    (relation.target.physicalTable, grant) :: (grant.grants ++ filter.grants)

def allGrants : List (PredicateExpr φ) → List (String × PredicateExpr φ)
  | [] => []
  | child :: rest => child.grants ++ allGrants rest

end

section Hidden

variable {backend : DatabaseBackend} {engine : Engine (SqlValue φ) δ} {tables tables' : Tables δ}

def visibleRows (backend : DatabaseBackend) (engine : Engine (SqlValue φ) δ) (tables source : Tables δ)
    (node : String × PredicateExpr φ) : List (Row δ) :=
  (source node.1).rows.filter fun row => evaluate backend engine tables node.2 row = .holds

/-- Two databases that differ in rows that no relation node of the predicate admits. -/
def DifferHidden (backend : DatabaseBackend) (engine : Engine (SqlValue φ) δ)
    (tables tables' : Tables δ) (nodes : List (String × PredicateExpr φ)) : Prop :=
  ∀ node ∈ nodes, visibleRows backend engine tables tables node =
    visibleRows backend engine tables tables' node

mutual

/-- Hidden rows do not count. In a relation node the order of the two restrictions is free. -/
theorem evaluate_hidden (expr : PredicateExpr φ)
    (same : DifferHidden backend engine tables tables' expr.grants) (row : Row δ) :
    evaluate backend engine tables' expr row = evaluate backend engine tables expr row := by
  match expr with
  | .constant _ | .isNull _ _ | .compare _ _ _ | .list _ _ _ | .between _ _ _ => rfl
  | .and children => rw [evaluate, evaluate, evaluateAll_hidden children same row]
  | .or children => rw [evaluate, evaluate, evaluateAll_hidden children same row]
  | .not child => rw [evaluate, evaluate, evaluate_hidden child same row]
  | .relation relation quantifier grant filter =>
    have granted := evaluate_hidden grant fun node mem =>
      same node (.tail _ (List.mem_append_left _ mem))
    have filtered := evaluate_hidden filter fun node mem =>
      same node (.tail _ (List.mem_append_right _ mem))
    have visible := same (relation.target.physicalTable, grant) (.head _)
    simp only [visibleRows] at visible
    simp only [evaluate, granted, filtered, relatedRows]
    rw [List.filter_comm, ← visible, List.filter_comm]

theorem evaluateAll_hidden (children : List (PredicateExpr φ))
    (same : DifferHidden backend engine tables tables' (allGrants children)) (row : Row δ) :
    evaluateAll backend engine tables' children row = evaluateAll backend engine tables children row := by
  match children with
  | [] => rfl
  | child :: rest =>
    rw [evaluateAll, evaluateAll,
      evaluate_hidden child (fun node mem => same node (List.mem_append_left _ mem)) row,
      evaluateAll_hidden rest (fun node mem => same node (List.mem_append_right _ mem)) row]

end

end Hidden

/-! ### Predicates of a collection -/

/-- The truth of a rendered predicate on a row of its collection's table. -/
def rowTruth (backend : DatabaseBackend) (outward : Bool) (engine : Engine (SqlValue φ) δ)
    (tables : Tables δ) (collection : RuntimeCollection) (values : List (SqlValue φ)) (n : Nat)
    (expr : PredicateExpr φ) (row : Row δ) : Truth :=
  (factor backend none 0 n expr).eval (queryMeaning engine values outward tables)
    [[⟨collection.physicalTable, (tables collection.physicalTable).columns, row⟩]]

/-- The rendering of a predicate after `n` values: the text is that of one condition, its
placeholders are numbered like the values it appends, on every row of every database the
condition is what the predicate means, and hidden rows never change it. -/
structure RespectsGrants (schema : RuntimeSchema) (backend : DatabaseBackend) (outward : Bool)
    (collection : RuntimeCollection) (expr : PredicateExpr φ) : Prop where
  rendered : ∀ values, renderExpr backend expr values =
    some ((factor backend none 0 values.length expr).text (spelling backend),
      values ++ emitted backend expr)
  numbered : ∀ n, Numbered (backend = .postgres) (n + 1)
    (tokenParameters (factor backend none 0 n expr).tokens) (n + 1 + (emitted backend expr).length)
  truth : ∀ (δ : Type) (engine : Engine (SqlValue φ) δ) (tables : Tables δ) (values : List (SqlValue φ))
    (n : Nat), Conforms schema tables → emitted backend expr <+: values.drop n →
      ∀ row ∈ (tables collection.physicalTable).rows,
        rowTruth backend outward engine tables collection values n expr row =
          evaluate backend engine tables expr row
  hidden : ∀ (δ : Type) (engine : Engine (SqlValue φ) δ) (tables tables' : Tables δ)
    (values : List (SqlValue φ)) (n : Nat), Conforms schema tables → Conforms schema tables' →
      emitted backend expr <+: values.drop n →
      DifferHidden backend engine tables tables' expr.grants →
      ∀ row ∈ (tables collection.physicalTable).rows, row ∈ (tables' collection.physicalTable).rows →
        rowTruth backend outward engine tables' collection values n expr row =
          rowTruth backend outward engine tables collection values n expr row

section Collections

variable {schema : RuntimeSchema} {collection : RuntimeCollection}

theorem respectsGrants_of_free (found : schema.collection? collection.id = some collection)
    (backend : DatabaseBackend) (outward : Bool) {expr : PredicateExpr φ}
    (proper : Proper schema collection expr)
    (free : expr.hasRelationFilters = true → collection.physicalTable ≠ relationAlias 0) :
    RespectsGrants schema backend outward collection expr := by
  have means (δ : Type) (engine : Engine (SqlValue φ) δ) (tables : Tables δ)
      (values : List (SqlValue φ)) (n : Nat) (conforms : Conforms schema tables)
      (bound : emitted backend expr <+: values.drop n) (row : Row δ) :
      rowTruth backend outward engine tables collection values n expr row =
        evaluate backend engine tables expr row :=
    have apart : expr.hasRelationFilters = true →
      (none : Option String).getD collection.physicalTable ≠ relationAlias 0 := free
    factor_eval conforms proper (List.mem_of_find?_eq_some found) apart row [] bound
  exact
    { rendered := fun values => renderScoped_eq proper none 0 values
      numbered := fun n => factor_numbered proper none 0 n
      truth := fun δ engine tables values n conforms bound row _ =>
        means δ engine tables values n conforms bound row
      hidden := fun δ engine tables tables' values n conforms conforms' bound same row _ _ => by
        rw [means δ engine tables' values n conforms' bound row,
          means δ engine tables values n conforms bound row, evaluate_hidden expr same row] }

/-- The collection has a relation over key pairs, so it has predicates with relation nodes. -/
def Relates (schema : RuntimeSchema) (id : CollectionId) : Prop :=
  ∃ (handle : RuntimeCollectionHandle) (relation : RuntimeRelationHandle), handle.id = id ∧
    schema.checkCollection handle = .ok () ∧ schema.checkRelation handle relation = .ok ()

/-- Without such a relation, no predicate of the collection has a relation node. -/
theorem RuntimeSchema.Builds.hasRelationFilters {predicate : RuntimePredicate φ} (built : schema.Builds predicate)
    (unrelated : ¬Relates schema predicate.collection) :
    predicate.expr.hasRelationFilters = false := by
  induction built with
  | compare built => rw [(runtimeCompare_proper built).2, PredicateExpr.hasRelationFilters]
  | isNull built => rw [(runtimeIsNull_proper built).2, PredicateExpr.hasRelationFilters]
  | list built =>
    rcases (runtimeList_proper built).2 with same | same
    · rw [same, PredicateExpr.hasRelationFilters]
    · rw [same, PredicateExpr.hasRelationFilters]
  | between built => rw [(runtimeBetween_proper built).2, PredicateExpr.hasRelationFilters]
  | @combine handle predicates _ isAnd _ _ built ih =>
    obtain ⟨_, _, rest⟩ := bind_eq_ok.mp built
    obtain ⟨_, parts, rest⟩ := bind_eq_ok.mp rest
    obtain ⟨_, _, made⟩ := bind_eq_ok.mp rest
    cases made
    have none : anyRelationFilters (predicates.map (·.expr)) = false := by
      rw [Bool.eq_false_iff, ne_eq, anyRelationFilters_iff]
      rintro ⟨child, among, related⟩
      obtain ⟨part, mem, rfl⟩ := List.mem_map.mp among
      have alone := ih part mem (by rw [combineParts_ok parts part mem]; exact unrelated)
      rw [alone] at related
      cases related
    cases predicates with
    | nil => rfl
    | cons first others => cases isAnd <;> exact none
  | not _ built ih =>
    obtain ⟨_, _, rest⟩ := bind_eq_ok.mp built
    obtain ⟨_, _, rest⟩ := bind_eq_ok.mp rest
    obtain ⟨_, _, rest⟩ := bind_eq_ok.mp rest
    obtain ⟨_, _, made⟩ := bind_eq_ok.mp rest
    cases made
    rw [checkPredicate_ok (by assumption)] at ih
    exact ih unrelated
  | relation _ _ built =>
    obtain ⟨_, known, rest⟩ := bind_eq_ok.mp built
    obtain ⟨_, related, rest⟩ := bind_eq_ok.mp rest
    obtain ⟨_, _, rest⟩ := bind_eq_ok.mp rest
    obtain ⟨_, _, rest⟩ := bind_eq_ok.mp rest
    obtain ⟨_, _, rest⟩ := bind_eq_ok.mp rest
    obtain ⟨_, _, made⟩ := bind_eq_ok.mp rest
    cases made
    exact absurd ⟨_, _, rfl, known, related⟩ unrelated

def anyRelated : RelationCardinality → RuntimeRelationQuantifier
  | .one => .is
  | .many => .some

def bareFilter (schema : RuntimeSchema) (relation : RuntimeRelationHandle) : RuntimePredicate φ where
  schema := schema.fingerprint
  collection := relation.source.id
  expr := .relation relation (anyRelated relation.cardinality) (.constant true) (.constant true)
  nodes := 1
  depth := 1
  binds := 0

theorem bareFilter_built {handle : RuntimeCollectionHandle} {relation : RuntimeRelationHandle}
    (known : schema.checkCollection handle = .ok ())
    (related : schema.checkRelation handle relation = .ok ()) :
    schema.Builds (bareFilter schema relation : RuntimePredicate φ) := by
  obtain ⟨_, shape, _⟩ := bind_eq_ok.mp related
  have source : relation.source = handle := by
    have parts := require_eq_ok.mp shape
    simp only [Bool.and_eq_true, decide_eq_true_eq] at parts
    exact parts.1.2
  have applies : (anyRelated relation.cardinality).appliesTo relation.cardinality = true := by
    cases relation.cardinality <;> rfl
  have built : schema.runtimeRelationFilter handle relation (anyRelated relation.cardinality)
      none none {} = .ok (bareFilter schema relation : RuntimePredicate φ) := by
    rw [RuntimeSchema.runtimeRelationFilter, known, related, applies, bareFilter, source]
    rfl
  exact .relation (fun _ absent => by cases absent) (fun _ absent => by cases absent) built

end Collections

/-! ### A database that tells the rows apart -/

/-- Every value is the same, so only `NULL` differs. -/
def unitEngine : Engine (SqlValue φ) Unit where
  parameter _ _ := ()
  integer _ := ()
  compare _ _ _ := .eq
  unary _ _ := some ()
  binary _ _ _ := some ()
  add _ _ := some ()
  sub _ _ := some ()

/-- Each table has all columns of the schema, a row of values and a row of `NULL`. -/
def fullTables (schema : RuntimeSchema) : Tables Unit := fun _ =>
  ⟨schema.collections.flatMap fun collection => collection.fields.map (·.physicalColumn),
    [fun _ => some (), fun _ => none]⟩

theorem fullTables_conforms (schema : RuntimeSchema) : Conforms schema (fullTables schema) :=
  fun collection mem _ among =>
    List.mem_flatMap.mpr ⟨collection, mem, List.mem_map_of_mem among⟩

section Captured

variable {schema : RuntimeSchema} {collection target : RuntimeCollection}
  {relation : RuntimeRelationHandle}

/-- No row is related to a row without keys. -/
theorem bareFilter_fails (joins : Joins collection target relation) (backend : DatabaseBackend) :
    evaluate backend unitEngine (fullTables schema)
      (bareFilter schema relation : RuntimePredicate φ).expr (fun _ => none) = .fails := by
  have related : relatedRows (unitEngine : Engine (SqlValue φ) Unit) (fullTables schema) relation
      (fun _ => none) = [] := by
    obtain ⟨pair, rest, shape⟩ := List.exists_cons_of_ne_nil joins.filled
    simp [relatedRows, shape, Engine.compares, Truth.lift]
  rw [bareFilter, evaluate, related]
  cases relation.cardinality <;> rfl

/-- One row that passes all conditions is enough. -/
theorem anyRelated_holds {ρ : Type} {m : Meaning Elementary Empty Subquery ρ} {scopes inner : ρ}
    {source : Subquery} {pairs : List (Factor Elementary Empty Subquery)}
    {grant filter : Condition Elementary Empty Subquery} (cardinality : RelationCardinality)
    (row : inner ∈ m.rows scopes source)
    (keys : Truth.all (pairs.map (Factor.eval m inner)) = .holds)
    (granted : grant.eval m inner = .holds) (filtered : filter.eval m inner = .holds) :
    (anyRelated cardinality).quantify
      ((remainingRows m scopes source pairs grant).map fun inner => filter.eval m inner) = .holds := by
  have remains : inner ∈ remainingRows m scopes source pairs grant :=
    List.mem_filter.mpr ⟨List.mem_filter.mpr ⟨row, decide_eq_true keys⟩, decide_eq_true granted⟩
  have answered : ((remainingRows m scopes source pairs grant).map fun inner =>
      filter.eval m inner).any (· = .holds) = true :=
    List.any_eq_true.mpr ⟨_, List.mem_map_of_mem remains, decide_eq_true filtered⟩
  cases cardinality <;> exact (Truth.ofBool_eq_holds _).mpr answered

/-- Under the first alias's own name, the subquery compares its rows with themselves. -/
theorem bareFilter_captured (joins : Joins collection target relation)
    (mem : collection ∈ schema.collections) (among : target ∈ schema.collections)
    (named : collection.physicalTable = relationAlias 0) (backend : DatabaseBackend) (outward : Bool) :
    rowTruth backend outward unitEngine (fullTables schema) collection [] 0
      (bareFilter schema relation : RuntimePredicate φ).expr (fun _ => none) = .holds := by
  have columns {owner : RuntimeCollection} {field} (own : IsFieldOf owner field)
      (known : owner ∈ schema.collections) (table : String) :
      field.physicalColumn ∈ (fullTables schema table).columns :=
    own.column_mem (fullTables_conforms schema) known
  have inner (rest : Scopes (Row Unit)) (table column : String)
      (own : column ∈ (fullTables schema table).columns) (row : Row Unit) :
      resolve outward ([⟨relationAlias 0, (fullTables schema table).columns, row⟩] :: rest)
        ⟨some (relationAlias 0), column⟩ = some row := resolve_named outward own
  have matched (rest : Scopes (Row Unit)) : Truth.all ((correlationAtoms (relationAlias 0)
      (relationAlias 0) relation.keyPairs).map
        (Factor.eval (queryMeaning (unitEngine : Engine (SqlValue φ) Unit) [] outward
            (fullTables schema))
          ([⟨relationAlias 0, (fullTables schema relation.target.physicalTable).columns,
            fun _ => some ()⟩] :: rest))) = .holds := by
    rw [Truth.all_eq_holds, correlationAtoms, List.map_map, List.forall_mem_map]
    intro pair key
    obtain ⟨source, target⟩ := joins.pairs pair key
    simp only [Function.comp_apply, Factor.eval, queryMeaning, Elementary.eval, compareScalars,
      Scalar.eval, readIn, inner _ _ _ (columns source mem _), inner _ _ _ (columns target among _)]
    rfl
  rw [rowTruth, bareFilter, factor_relation, quantifiedTree_eval, Option.getD_none, joins.fromTable,
    named]
  exact anyRelated_holds relation.cardinality (List.mem_map_of_mem (.head _)) (matched _)
    rfl rfl

end Captured

/-- The predicates of a collection respect the grants of its relations exactly when the
collection has no such relations or its table is not named like the first alias. -/
theorem relationFilters_respectGrants_iff {schema : RuntimeSchema} {collection : RuntimeCollection}
    (found : schema.collection? collection.id = some collection) (backend : DatabaseBackend)
    (outward : Bool) :
    (∀ predicate : RuntimePredicate φ, schema.Builds predicate →
        predicate.collection = collection.id →
          RespectsGrants schema backend outward collection predicate.expr) ↔
      collection.physicalTable ≠ relationAlias 0 ∨ ¬Relates schema collection.id := by
  constructor
  · intro respects
    by_contra captured
    rw [not_or, not_not, not_not] at captured
    obtain ⟨named, handle, relation, same, known, related⟩ := captured
    obtain ⟨source, target, here, there, joins⟩ := checkRelation_ok known related
    rw [same, found] at here
    cases here
    have built : schema.Builds (bareFilter schema relation : RuntimePredicate φ) :=
      bareFilter_built known related
    obtain ⟨_, shape, _⟩ := bind_eq_ok.mp related
    have parts := require_eq_ok.mp shape
    simp only [Bool.and_eq_true, decide_eq_true_eq] at parts
    have owned : (bareFilter schema relation : RuntimePredicate φ).collection = collection.id := by
      rw [bareFilter, parts.1.2, same]
    have means := (respects _ built owned).truth Unit unitEngine (fullTables schema) [] 0
      (fullTables_conforms schema) (List.nil_prefix) (fun _ => none) (by simp [fullTables])
    rw [bareFilter_captured joins (List.mem_of_find?_eq_some found)
      (List.mem_of_find?_eq_some there) named, bareFilter_fails joins] at means
    cases means
  · intro free predicate built owned
    obtain ⟨owner, known, proper⟩ := built.proper
    rw [owned, found] at known
    cases known
    refine respectsGrants_of_free found backend outward proper fun related => ?_
    rcases free with other | unrelated
    · exact other
    · rw [← owned] at unrelated
      simp [built.hasRelationFilters unrelated] at related

/-! ### A table of the first alias's name -/

def nodeId : RuntimeField where
  id := "node.id"
  apiName := "id"
  physicalColumn := "id"
  valueKind := .integer

def notesRelation : RuntimeRelation where
  id := "node.notes"
  apiName := "notes"
  target := "note"
  keyPairs := [⟨"node.id", "note.owner"⟩]
  cardinality := .many

def nodes : RuntimeCollection where
  id := "node"
  apiTypeName := "Node"
  apiPluralName := "nodes"
  physicalTable := "graphql_orm_relation_0"
  primaryKey := ["node.id"]
  fields := [nodeId]
  relations := [notesRelation]

def noteOwner : RuntimeField where
  id := "note.owner"
  apiName := "owner"
  physicalColumn := "owner"
  valueKind := .integer

def noteHidden : RuntimeField where
  id := "note.hidden"
  apiName := "hidden"
  physicalColumn := "hidden"
  valueKind := .boolean

def notes : RuntimeCollection where
  id := "note"
  apiTypeName := "Note"
  apiPluralName := "notes"
  physicalTable := "notes"
  primaryKey := ["note.id"]
  fields := [{ nodeId with id := "note.id" }, noteOwner, noteHidden]

/-- Nodes with their notes; the nodes' table has the name of the first alias. -/
def nodeNotes : RuntimeSchema where
  collections := [nodes, notes]

def notesHandle : RuntimeRelationHandle :=
  relationHandle nodeNotes nodes notes notesRelation [(nodeId, noteOwner)]

def openNotes : RuntimePredicate Int :=
  nodeNotes.leaf (handleOf nodeNotes notes)
    (.compare (RuntimeSchema.fieldHandle (handleOf nodeNotes notes) noteHidden) .eq (.boolean false)) 1

def withNotes : RuntimePredicate Int where
  schema := nodeNotes.fingerprint
  collection := "node"
  expr := .relation notesHandle .some openNotes.expr (.constant true)
  nodes := 2
  depth := 2
  binds := 1

theorem withNotes_built : nodeNotes.Builds withNotes := by
  have granted : nodeNotes.runtimeCompare (handleOf nodeNotes notes)
      (RuntimeSchema.fieldHandle (handleOf nodeNotes notes) noteHidden) .eq (.boolean false) {} =
        .ok openNotes :=
    runtimeCompare_handleOf rfl rfl rfl rfl rfl
  have known : nodeNotes.checkCollection (handleOf nodeNotes nodes) = .ok () :=
    checkCollection_handleOf rfl
  have related : nodeNotes.checkRelation (handleOf nodeNotes nodes) notesHandle = .ok () :=
    checkRelation_handleOf rfl rfl rfl ⟨rfl, rfl, rfl⟩ rfl rfl
  have built : nodeNotes.runtimeRelationFilter (handleOf nodeNotes nodes) notesHandle .some none
      (some openNotes) {} = .ok withNotes := by
    have own : nodeNotes.checkPredicate "note" "node" openNotes = .ok () :=
      require_eq_ok.mpr (Bool.and_eq_true_iff.mpr ⟨decide_eq_true rfl, rfl⟩)
    have part : nodeNotes.relationPart "node" "note" {} (some openNotes) =
        .ok (openNotes.expr, ⟨2, 2, 1⟩) := bind_eq_ok.mpr ⟨(), own, rfl⟩
    exact bind_eq_ok.mpr ⟨(), known, bind_eq_ok.mpr ⟨(), related, bind_eq_ok.mpr ⟨(), rfl,
      bind_eq_ok.mpr ⟨_, part, rfl⟩⟩⟩⟩
  refine .relation (fun _ absent => by cases absent) (fun part given => ?_) built
  rw [← Option.some.inj given]
  exact .compare granted

def noteTables : Tables Int
  | "graphql_orm_relation_0" => ⟨["id"], [fun _ => some 1]⟩
  | "notes" => ⟨["id", "owner", "hidden"], [fun column =>
      if column = "id" then some 5 else if column = "owner" then some 1 else some 0]⟩
  | _ => ⟨[], []⟩

theorem relationFilters_respectGrants_notes : notes.physicalTable ≠ relationAlias 0 ∧
    ∀ predicate : RuntimePredicate Int, nodeNotes.Builds predicate → predicate.collection = notes.id →
      RespectsGrants nodeNotes .postgres false notes predicate.expr :=
  ⟨by decide, (relationFilters_respectGrants_iff rfl .postgres false).mpr (.inl (by decide))⟩

/-- The subquery compares the note's owner with the note's own ID and misses it. -/
theorem relationFilters_miss_note :
    nodeNotes.Builds withNotes ∧ withNotes.collection = nodes.id ∧
      Conforms nodeNotes noteTables ∧
      evaluate .sqlite integerEngine noteTables withNotes.expr (fun _ => some 1) = .holds ∧
      ¬RespectsGrants nodeNotes .sqlite true nodes withNotes.expr := by
  refine ⟨withNotes_built, rfl, by decide, by decide, fun respects => ?_⟩
  have means := respects.truth Int integerEngine noteTables [.bool false] 0 (by decide)
    (by decide) (fun _ => some 1) (by simp [nodes, noteTables])
  revert means
  decide

end GraphqlOrm.Runtime
