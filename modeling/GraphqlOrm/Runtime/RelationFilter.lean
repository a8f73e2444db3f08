import GraphqlOrm.Runtime.PredicateSql

/-!
# Relation filters

What a predicate means on a row: a relation node looks only at the related rows that the
target's grant admits. The rendered condition has this meaning as long as no alias takes
the name of the table that the whole predicate is about.
-/
namespace GraphqlOrm.Runtime

open Schema (DatabaseBackend)
open Sql

variable {φ δ : Type}

/-! ### The meaning of a predicate -/

/-- A database's answer to one comparison of a column's value with an operand. -/
def scalarTruth (backend : DatabaseBackend) (engine : Engine (SqlValue φ) δ)
    (kind : RuntimeValueKind) (op : RuntimeScalarOperator) (x : Option δ) (operand : SqlValue φ) :
    Truth :=
  let y := engine.parameter (parameterCast backend kind) operand
  let compares (r : Relational) := engine.compares r (byteCollation backend kind) x (some y)
  let plain (r : Relational) (a : Option δ) (b : δ) := engine.compares r none a (some b)
  match op with
  | .eq => compares .eq
  | .ne => compares .ne
  | .lt => compares .lt
  | .lte => compares .le
  | .gt => compares .gt
  | .gte => compares .ge
  | .contains =>
    if backend = .postgres then
      plain .gt (x.bind fun a => engine.binary .strpos a y) (engine.integer 0)
    else plain .gt (x.bind fun a => engine.binary .instr a y) (engine.integer 0)
  | .startsWith =>
    if backend = .postgres then
      plain .eq (x.bind fun a => (engine.unary .charLength y).bind (engine.binary .left a)) y
    else plain .eq (x.bind fun a => engine.binary .instr a y) (engine.integer 1)
  | .endsWith =>
    if backend = .postgres then
      plain .eq (x.bind fun a => (engine.unary .charLength y).bind (engine.binary .right a)) y
    else
      plain .eq (x.bind fun a =>
        (((engine.unary .length a).bind fun m => (engine.unary .length y).bind (engine.sub m)).bind
          fun m => engine.add m (engine.integer 1)).bind (engine.binary .substr a)) y

def operandTruth (backend : DatabaseBackend) (engine : Engine (SqlValue φ) δ)
    (field : RuntimeFieldHandle) (op : RuntimeScalarOperator) (row : Row δ)
    (operand : RuntimeValue φ) : Truth :=
  (valueBind operand).elim .unknown
    (scalarTruth backend engine field.valueKind op (row field.physicalColumn))

/-- A quantifier over the answers of the filter for the rows that remain. -/
def RuntimeRelationQuantifier.quantify (quantifier : RuntimeRelationQuantifier)
    (answers : List Truth) : Truth :=
  match quantifier with
  | is | some => Truth.ofBool (answers.any (· = .holds))
  | isNot | none => Truth.ofBool (!answers.any (· = .holds))
  | every => Truth.ofBool (answers.all (· = .holds))

def relatedRows (engine : Engine (SqlValue φ) δ) (tables : Tables δ)
    (relation : RuntimeRelationHandle) (row : Row δ) : List (Row δ) :=
  (tables relation.target.physicalTable).rows.filter fun other =>
    relation.keyPairs.all fun (source, target) =>
      engine.compares .eq none (other target.physicalColumn) (row source.physicalColumn) = .holds

mutual

def evaluate (backend : DatabaseBackend) (engine : Engine (SqlValue φ) δ) (tables : Tables δ) :
    PredicateExpr φ → Row δ → Truth
  | .constant value, _ => Truth.ofBool value
  | .isNull field isNull, row => Truth.ofBool ((row field.physicalColumn).isNone == isNull)
  | .compare field op value, row => operandTruth backend engine field op row value
  | .list field op operands, row =>
    let found := Truth.any (operands.map (operandTruth backend engine field .eq row))
    if op = .in then found else found.not
  | .between field low high, row =>
    (operandTruth backend engine field .gte row low).and
      (operandTruth backend engine field .lte row high)
  | .and children, row => Truth.all (evaluateAll backend engine tables children row)
  | .or children, row => Truth.any (evaluateAll backend engine tables children row)
  | .not child, row => (evaluate backend engine tables child row).not
  | .relation relation quantifier grant filter, row =>
    let granted := (relatedRows engine tables relation row).filter fun other =>
      evaluate backend engine tables grant other = .holds
    quantifier.quantify (granted.map fun other => evaluate backend engine tables filter other)

def evaluateAll (backend : DatabaseBackend) (engine : Engine (SqlValue φ) δ) (tables : Tables δ) :
    List (PredicateExpr φ) → Row δ → List Truth
  | [], _ => []
  | child :: rest, row =>
    evaluate backend engine tables child row :: evaluateAll backend engine tables rest row

end

/-! ### Comparisons -/

variable {n : Nat}

section Leaves

variable {backend : DatabaseBackend} {engine : Engine (SqlValue φ) δ} {field : RuntimeFieldHandle}
  {values : List (SqlValue φ)} {read : Reference → Option δ}

theorem columnScalar_eval :
    (columnScalar backend field).eval engine values read =
      read { column := field.physicalColumn } := by
  rw [columnScalar]
  split <;> rfl

theorem columnScalar_collation :
    (columnScalar backend field).collation = byteCollation backend field.valueKind := by
  rw [columnScalar]
  split
  next collation found => rw [found]; rfl
  next found => rw [found]; rfl

attribute [local simp] Scalar.eval

variable {operand : SqlValue φ}

theorem bindScalar_eval (bound : values[n]? = some operand) :
    (bindScalar backend field n).eval engine values read =
      some (engine.parameter (parameterCast backend field.valueKind) operand) := by
  simp [bindScalar, Scalar.eval, bound]

theorem compare_column (bound : values[n]? = some operand) (r : Relational) :
    compareScalars engine values read r (columnScalar backend field) (bindScalar backend field n) =
      engine.compares r (byteCollation backend field.valueKind)
        (read { column := field.physicalColumn })
        (some (engine.parameter (parameterCast backend field.valueKind) operand)) := by
  rw [compareScalars, columnScalar_eval, columnScalar_collation, bindScalar_eval bound]
  cases byteCollation backend field.valueKind <;> rfl

@[simp] theorem bindScalar_collation (n : Nat) : (bindScalar backend field n).collation = none :=
  rfl

/-- Only `endsWith` without numbered parameters looks at the second binding. -/
theorem compareTree_eval (bound : values[n]? = some operand) (op : RuntimeScalarOperator)
    (again : op = .endsWith ∧ backend ≠ .postgres → values[n + 1]? = some operand) :
    (compareTree backend field op n).eval engine values read =
      scalarTruth backend engine field.valueKind op (read { column := field.physicalColumn })
        operand := by
  have first : (bindScalar backend field n).eval engine values read =
      some (engine.parameter (parameterCast backend field.valueKind) operand) :=
    bindScalar_eval bound
  cases op with
  | eq | ne | lt | lte | gt | gte => exact compare_column bound _
  | contains | startsWith =>
    simp only [compareTree, scalarTruth]
    split <;>
      simp [Elementary.eval, compareScalars, Scalar.eval, columnScalar_eval, first]
  | endsWith =>
    simp only [compareTree, scalarTruth]
    split
    next numbered =>
      simp [Elementary.eval, compareScalars, Scalar.eval, columnScalar_eval, first]
    next positional =>
      have second : (bindScalar backend field (n + 1)).eval engine values read =
          some (engine.parameter (parameterCast backend field.valueKind) operand) :=
        bindScalar_eval (again ⟨rfl, positional⟩)
      simp only [Elementary.eval, compareScalars, Scalar.eval, columnScalar_eval, first, second,
        Scalar.collation_binary, bindScalar_collation, Option.none_or]
      congr 1
      cases read { column := field.physicalColumn } <;> rfl

end Leaves

/-! ### Names and bindings -/

variable {level : Nat}

theorem relationAlias_injective {other : Nat} (same : relationAlias level = relationAlias other) :
    level = other :=
  Text.repr_inj ((String.append_right_inj "graphql_orm_relation_").mp same)

def Conforms (schema : RuntimeSchema) (tables : Tables δ) : Prop :=
  ∀ collection ∈ schema.collections, ∀ field ∈ collection.fields,
    field.physicalColumn ∈ (tables collection.physicalTable).columns

instance (schema : RuntimeSchema) (tables : Tables δ) : Decidable (Conforms schema tables) :=
  inferInstanceAs (Decidable (∀ collection ∈ schema.collections, ∀ field ∈ collection.fields,
    field.physicalColumn ∈ (tables collection.physicalTable).columns))

variable {row : Row δ}

section Rows

variable {schema : RuntimeSchema} {collection : RuntimeCollection} {tables : Tables δ}

theorem IsFieldOf.column_mem {field : RuntimeFieldHandle} (own : IsFieldOf collection field)
    (conforms : Conforms schema tables) (mem : collection ∈ schema.collections) :
    field.physicalColumn ∈ (tables collection.physicalTable).columns := by
  obtain ⟨_, declared, found, column, _⟩ := own
  rw [column]
  exact conforms collection mem declared (List.mem_of_find?_eq_some found)

theorem readIn_own (outward : Bool) {name column : String} {columns : List String}
    {rest : Scopes (Row δ)} (own : column ∈ columns) :
    readIn outward ([⟨name, columns, row⟩] :: rest) { column } = row column := by
  rw [readIn, resolve_own outward own]
  rfl

end Rows

/-- A list of values at a position, in two parts. -/
theorem prefix_parts {α : Type} {first second values : List α}
    (bound : first ++ second <+: values.drop n) :
    first <+: values.drop n ∧ second <+: values.drop (n + first.length) := by
  obtain ⟨rest, shape⟩ := bound
  refine ⟨⟨second ++ rest, by rw [← shape, List.append_assoc]⟩, rest, ?_⟩
  rw [← List.drop_drop, ← shape, List.append_assoc, List.drop_left]

theorem getElem?_of_isPrefix {α : Type} {x : α} {values : List α} (bound : [x] <+: values.drop n) :
    values[n]? = some x := by
  obtain ⟨rest, shape⟩ := bound
  have first := congrArg List.head? shape
  rw [List.head?_drop] at first
  exact first.symm

/-! ### The rendered condition -/

mutual

def PredicateExpr.hasRelationFilters : PredicateExpr φ → Bool
  | .constant _ | .isNull _ _ | .compare _ _ _ | .list _ _ _ | .between _ _ _ => false
  | .and children => anyRelationFilters children
  | .or children => anyRelationFilters children
  | .not child => child.hasRelationFilters
  | .relation _ _ _ _ => true

def anyRelationFilters : List (PredicateExpr φ) → Bool
  | [] => false
  | child :: rest => child.hasRelationFilters || anyRelationFilters rest

end

variable {children : List (PredicateExpr φ)}

theorem anyRelationFilters_iff :
    anyRelationFilters children = true ↔ ∃ child ∈ children, child.hasRelationFilters = true := by
  induction children with
  | nil => simp [anyRelationFilters]
  | cons child rest ih => simp [anyRelationFilters, ih]

/-- The row source that a condition's unqualified columns belong to. -/
def ownItem (tables : Tables δ) (collection : RuntimeCollection) (outer : Option String)
    (row : Row δ) : Item (Row δ) :=
  ⟨outer.getD collection.physicalTable, (tables collection.physicalTable).columns, row⟩

section Factors

variable {schema : RuntimeSchema} {backend : DatabaseBackend} {engine : Engine (SqlValue φ) δ}
  {tables : Tables δ} {values : List (SqlValue φ)} {outward : Bool}

/-- A comparison whose values stand where the tree expects them. -/
theorem compareTree_bound {field : RuntimeFieldHandle} {operand : RuntimeValue φ}
    {read : Reference → Option δ} {op : RuntimeScalarOperator} (fits : Fits field operand)
    (bound : compareBinds backend op operand <+: values.drop n)
    (same : read { column := field.physicalColumn } = row field.physicalColumn) :
    (compareTree backend field op n).eval engine values read =
      operandTruth backend engine field op row operand := by
  obtain ⟨bind, found⟩ := valueBind_isSome fits
  rw [operandTruth, found, Option.elim_some, ← same]
  simp only [compareBinds, found, Option.toList_some] at bound
  split at bound
  next twice =>
    obtain ⟨first, second⟩ := prefix_parts bound
    exact compareTree_eval (getElem?_of_isPrefix first) op fun _ => getElem?_of_isPrefix second
  next once => exact compareTree_eval (getElem?_of_isPrefix bound) op fun twice => absurd twice once

theorem compareBinds_once {op : RuntimeScalarOperator} (once : op ≠ .endsWith)
    (operand : RuntimeValue φ) : compareBinds backend op operand = (valueBind operand).toList := by
  simp [compareBinds, once]

/-- The operands of a list are bound one after the other. -/
theorem operands_bound {field : RuntimeFieldHandle} {operands : List (RuntimeValue φ)}
    {read : Reference → Option δ} (fits : ∀ operand ∈ operands, Fits field operand)
    (bound : (operands.flatMap fun value => (valueBind value).toList) <+: values.drop n)
    (same : read { column := field.physicalColumn } = row field.physicalColumn) :
    (List.range operands.length).map (fun i =>
        compareScalars engine values read .eq (columnScalar backend field)
          (bindScalar backend field (n + i))) =
      operands.map (operandTruth backend engine field .eq row) := by
  induction operands generalizing n with
  | nil => rfl
  | cons operand rest ih =>
    rw [List.flatMap_cons] at bound
    obtain ⟨here, later⟩ := prefix_parts bound
    have fitsHere := fits operand (.head _)
    rw [length_bind fitsHere] at later
    have others := ih (fun v mem => fits v (.tail _ mem)) later
    rw [List.length_cons, List.range_succ_eq_map, List.map_cons, List.map_map, List.map_cons,
      ← others]
    refine congrArg₂ List.cons ?_ (List.map_congr_left fun i _ => ?_)
    · rw [← compareBinds_once (by simp : RuntimeScalarOperator.eq ≠ .endsWith)] at here
      exact compareTree_bound fitsHere here same
    · rw [Function.comp_apply, show n + 1 + i = n + (i + 1) by omega]

/-- The key columns on both sides, when the subquery's own name is not the outer one. -/
theorem correlation_holds {«alias» outer : String} {sourceColumns targetColumns : List String}
    {other : Row δ} {rest : Scopes (Row δ)} {pairs : List (RuntimeFieldHandle × RuntimeFieldHandle)}
    (apart : outer ≠ «alias») (known : ∀ pair ∈ pairs, pair.1.physicalColumn ∈ sourceColumns ∧
      pair.2.physicalColumn ∈ targetColumns) :
    Truth.all ((correlationAtoms «alias» outer pairs).map
        (Factor.eval (queryMeaning engine values outward tables)
          ([⟨«alias», targetColumns, other⟩] :: [⟨outer, sourceColumns, row⟩] :: rest))) = .holds ↔
      (pairs.all fun (source, target) =>
        engine.compares .eq none (other target.physicalColumn) (row source.physicalColumn) =
          .holds) = true := by
  rw [Truth.all_eq_holds, correlationAtoms, List.map_map, List.forall_mem_map, List.all_eq_true]
  refine forall₂_congr fun pair mem => ?_
  obtain ⟨source, target⟩ := known pair mem
  have outerRow : resolve outward ([⟨«alias», targetColumns, other⟩] ::
      [⟨outer, sourceColumns, row⟩] :: rest) ⟨some outer, pair.1.physicalColumn⟩ = some row := by
    rw [resolve_past outward (Ne.symm apart)]
    exact resolve_named outward source
  have innerRow : resolve outward ([⟨«alias», targetColumns, other⟩] ::
      [⟨outer, sourceColumns, row⟩] :: rest) ⟨some «alias», pair.2.physicalColumn⟩ = some other :=
    resolve_named outward target
  simp [Factor.eval, queryMeaning, Elementary.eval, compareScalars, Scalar.eval, readIn, outerRow,
    innerRow]

def remainingRows {ρ : Type} (m : Meaning Elementary Empty Subquery ρ) (scopes : ρ)
    (source : Subquery) (pairs : List (Factor Elementary Empty Subquery))
    (grant : Condition Elementary Empty Subquery) : List ρ :=
  ((m.rows scopes source).filter fun inner =>
    Truth.all (pairs.map (Factor.eval m inner)) = .holds).filter fun inner =>
      grant.eval m inner = .holds

theorem exists_eval {ρ : Type} (m : Meaning Elementary Empty Subquery ρ) (scopes : ρ)
    (source : Subquery) (pairs : List (Factor Elementary Empty Subquery))
    (grant : Condition Elementary Empty Subquery) (last : Factor Elementary Empty Subquery) :
    (Factor.exists source (.one (.chain (pairs ++ [.group grant]) last))).eval m scopes =
      Truth.ofBool ((remainingRows m scopes source pairs grant).any fun inner =>
        last.eval m inner = .holds) := by
  rw [Factor.eval, remainingRows, List.any_filter, List.any_filter]
  congr 2
  funext inner
  have conditions : Truth.all ((pairs ++ [Factor.group grant]).map (Factor.eval m inner)) = .holds ↔
      Truth.all (pairs.map (Factor.eval m inner)) = .holds ∧ grant.eval m inner = .holds := by
    simp only [Truth.all_eq_holds, List.map_append, List.map_cons, List.map_nil, List.mem_append,
      List.mem_singleton, or_imp, forall_and, forall_eq, Factor.eval]
  rw [Condition.eval, Term.eval_chain, ← Bool.decide_and, ← Bool.decide_and, decide_eq_decide,
    Truth.and_eq_holds, conditions, and_assoc]

/-- The quantifier looks at the filter's answers for the remaining rows. -/
theorem quantifiedTree_eval {ρ : Type} (m : Meaning Elementary Empty Subquery ρ) (scopes : ρ)
    (source : Subquery) (quantifier : RuntimeRelationQuantifier)
    (pairs : List (Factor Elementary Empty Subquery))
    (grant filter : Condition Elementary Empty Subquery) :
    (negatedIf (quantifiedTree filter quantifier).1 (.exists source (.one (.chain
        (pairs ++ [.group grant]) (quantifiedTree filter quantifier).2)))).eval m scopes =
      quantifier.quantify
        ((remainingRows m scopes source pairs grant).map fun inner => filter.eval m inner) := by
  have negation (b : Bool) : (Truth.ofBool b).not = Truth.ofBool !b := by cases b <;> rfl
  cases quantifier with
  | is | some =>
    rw [RuntimeRelationQuantifier.quantify, List.any_map]
    exact exists_eval m scopes source pairs grant (.group filter)
  | isNot | none =>
    rw [RuntimeRelationQuantifier.quantify, List.any_map, ← negation]
    exact congrArg Truth.not (exists_eval m scopes source pairs grant (.group filter))
  | every =>
    -- No remaining row fails to satisfy the filter.
    have complement (t : Truth) : t.isTrue.not = .holds ↔ t ≠ .holds := by cases t <;> decide
    simp only [quantifiedTree, negatedIf, if_true]
    rw [Factor.eval, exists_eval, negation, RuntimeRelationQuantifier.quantify,
      List.all_map, List.all_eq_not_any_not]
    simp only [Factor.eval, Factor.eval_whole, complement, Function.comp_def, ne_eq, decide_not]

variable {outer : Option String}

/-- A list of conditions has the meanings of its members. -/
theorem factors_eval {scopes : Scopes (Row δ)}
    (each : ∀ child ∈ children, ∀ n, emitted backend child <+: values.drop n →
      (factor backend outer level n child).eval (queryMeaning engine values outward tables) scopes =
        evaluate backend engine tables child row)
    (bound : emittedAll backend children <+: values.drop n) :
    (factors backend outer level n children).map
        (Factor.eval (queryMeaning engine values outward tables) scopes) =
      evaluateAll backend engine tables children row := by
  induction children generalizing n with
  | nil => rfl
  | cons child rest ih =>
    rw [emittedAll] at bound
    obtain ⟨here, later⟩ := prefix_parts bound
    rw [factors, List.map_cons, each child (.head _) n here,
      ih (fun c mem => each c (.tail _ mem)) later, evaluateAll]

/-- Both bounds are bound, the lower one first. -/
theorem between_bound {field : RuntimeFieldHandle} {low high : RuntimeValue φ}
    (lowFits : Fits field low) (highFits : Fits field high) {scopes : Scopes (Row δ)}
    (bound : emitted backend (.between field low high) <+: values.drop n)
    (same : readIn outward scopes { column := field.physicalColumn } = row field.physicalColumn) :
    (factor backend outer level n (.between field low high)).eval
        (queryMeaning engine values outward tables) scopes =
      (operandTruth backend engine field .gte row low).and
        (operandTruth backend engine field .lte row high) := by
  rw [emitted] at bound
  obtain ⟨first, second⟩ := prefix_parts bound
  rw [length_bind lowFits] at second
  rw [← compareBinds_once (by simp : RuntimeScalarOperator.gte ≠ .endsWith)] at first
  rw [← compareBinds_once (by simp : RuntimeScalarOperator.lte ≠ .endsWith)] at second
  exact congrArg₂ Truth.and (compareTree_bound lowFits first same)
    (compareTree_bound highFits second same)

theorem factors_ne_nil (filled : children ≠ []) : factors backend outer level n children ≠ [] := by
  cases children with
  | nil => exact absurd rfl filled
  | cons child rest => simp [factors]

theorem factor_relation (outer : Option String) (level n : Nat) (relation : RuntimeRelationHandle)
    (quantifier : RuntimeRelationQuantifier) (grant filter : PredicateExpr φ) :
    factor backend outer level n (.relation relation quantifier grant filter) =
      let tree := quantifiedTree (factor backend (some (relationAlias level)) (level + 1)
        (n + (emitted backend grant).length) filter).whole quantifier
      negatedIf tree.1 (.exists ⟨relation.target.physicalTable, relationAlias level⟩
        (.one (.chain (correlationAtoms (relationAlias level)
            (outer.getD relation.source.physicalTable) relation.keyPairs ++
          [.group (factor backend (some (relationAlias level)) (level + 1) n grant).whole])
          tree.2))) := rfl

theorem ownItem_read {collection : RuntimeCollection} {field : RuntimeFieldHandle}
    (own : IsFieldOf collection field) (conforms : Conforms schema tables)
    (mem : collection ∈ schema.collections) (outer : Option String) (row : Row δ)
    (rest : Scopes (Row δ)) :
    readIn outward ([ownItem tables collection outer row] :: rest)
      { column := field.physicalColumn } = row field.physicalColumn :=
  readIn_own outward (own.column_mem conforms mem)

/-- The subquery of a relation node leaves the related rows that the grant admits. -/
theorem remainingRows_relation (conforms : Conforms schema tables)
    {collection target : RuntimeCollection} {relation : RuntimeRelationHandle}
    (joins : Joins collection target relation) (mem : collection ∈ schema.collections)
    (among : target ∈ schema.collections)
    (apart : outer.getD collection.physicalTable ≠ relationAlias level) (row : Row δ)
    (rest : Scopes (Row δ)) {grantTree : Condition Elementary Empty Subquery}
    {grant : Row δ → Truth}
    (granted : ∀ other, grantTree.eval (queryMeaning engine values outward tables)
      ([ownItem tables target (some (relationAlias level)) other] ::
        [ownItem tables collection outer row] :: rest) = grant other) :
    remainingRows (queryMeaning engine values outward tables)
        ([ownItem tables collection outer row] :: rest)
        ⟨relation.target.physicalTable, relationAlias level⟩
        (correlationAtoms (relationAlias level) (outer.getD relation.source.physicalTable)
          relation.keyPairs) grantTree =
      ((relatedRows engine tables relation row).filter fun other => grant other = .holds).map
        fun other => [ownItem tables target (some (relationAlias level)) other] ::
          [ownItem tables collection outer row] :: rest := by
  have rows : (queryMeaning engine values outward tables).rows
      ([ownItem tables collection outer row] :: rest)
      ⟨relation.target.physicalTable, relationAlias level⟩ =
        (tables relation.target.physicalTable).rows.map fun other =>
          [ownItem tables target (some (relationAlias level)) other] ::
            [ownItem tables collection outer row] :: rest := by
    simp only [queryMeaning, Tables.item, ownItem, joins.toTable, Option.getD_some]
  have keys : ∀ pair ∈ relation.keyPairs,
      pair.1.physicalColumn ∈ (tables collection.physicalTable).columns ∧
        pair.2.physicalColumn ∈ (tables target.physicalTable).columns := fun pair key =>
    ⟨(joins.pairs pair key).1.column_mem conforms mem,
      (joins.pairs pair key).2.column_mem conforms among⟩
  rw [remainingRows, rows, List.filter_map, List.filter_map, relatedRows, joins.fromTable]
  refine congrArg (List.map _) (congrArg₂ List.filter (funext fun other => ?_)
    (congrArg₂ List.filter (funext fun other => ?_) rfl))
  · rw [Function.comp_apply, granted]
  · rw [Function.comp_apply, Bool.eq_iff_iff, decide_eq_true_iff]
    exact correlation_holds apart keys

/-- The rendered condition means on a row what the predicate means, as long as the row's own
source is not named like the next subquery. The induction is on the tree: inside a relation
node the enclosing row is the subquery's, whose alias is of a smaller depth. -/
theorem factor_eval (conforms : Conforms schema tables) {collection : RuntimeCollection}
    {expr : PredicateExpr φ} (proper : Proper schema collection expr)
    (mem : collection ∈ schema.collections)
    (free : expr.hasRelationFilters = true → outer.getD collection.physicalTable ≠ relationAlias level)
    (row : Row δ) (rest : Scopes (Row δ)) (bound : emitted backend expr <+: values.drop n) :
    (factor backend outer level n expr).eval (queryMeaning engine values outward tables)
        ([ownItem tables collection outer row] :: rest) =
      evaluate backend engine tables expr row := by
  induction proper generalizing outer level n row rest with
  | constant => rfl
  | @isNull _ field isNull own =>
    change Truth.ofBool ((readIn outward _ { column := field.physicalColumn }).isNone != !isNull) =
      Truth.ofBool ((row field.physicalColumn).isNone == isNull)
    rw [ownItem_read own conforms mem]
    cases isNull <;> cases (row field.physicalColumn).isNone <;> rfl
  | compare own fits supported => exact compareTree_bound fits bound (ownItem_read own conforms mem outer row rest)
  | @list _ field op operands own filled fits scalar =>
    have answers := @operands_bound _ _ _ row backend engine values _ _ (readIn outward _) fits bound
      (ownItem_read own conforms mem outer row rest)
    rw [evaluate, ← answers]
    cases op <;> simp [factor, Factor.eval, queryMeaning, Elementary.eval, Function.comp_def]
  | @between _ field low high own lowFits highFits ranged =>
    exact between_bound lowFits highFits bound (ownItem_read own conforms mem outer row rest)
  | @and collection children filled each ih =>
    rw [factor, Factor.eval, Condition.eval, Term.eval_conjunction _ _ (factors_ne_nil filled),
      factors_eval (fun child among n => ih child among mem
        (fun related => free (anyRelationFilters_iff.mpr ⟨child, among, related⟩)) row rest) bound]
    rfl
  | @or collection children filled each ih =>
    rw [factor, Factor.eval, Condition.eval_disjunction _ _ (factors_ne_nil filled),
      factors_eval (fun child among n => ih child among mem
        (fun related => free (anyRelationFilters_iff.mpr ⟨child, among, related⟩)) row rest) bound]
    rfl
  | not part ih =>
    rw [factor, Factor.eval, Factor.eval, Factor.eval_whole, ih mem free row rest bound]
    rfl
  | @relation collection target relation quantifier grant filter known joins _ _ grantIh filterIh =>
    have among : target ∈ schema.collections := List.mem_of_find?_eq_some known
    obtain ⟨grantBound, filterBound⟩ := prefix_parts bound
    have deeper : (some (relationAlias level)).getD target.physicalTable ≠
        relationAlias (level + 1) := fun same => by
      have := relationAlias_injective same
      omega
    have granted (other : Row δ) := grantIh among (fun _ => deeper) other
      ([ownItem tables collection outer row] :: rest) grantBound
    have filtered (other : Row δ) := filterIh among (fun _ => deeper) other
      ([ownItem tables collection outer row] :: rest) filterBound
    rw [factor_relation, quantifiedTree_eval,
      remainingRows_relation conforms joins mem among (free rfl) row rest
        (fun other => (Factor.eval_whole _ _ _).trans (granted other)),
      List.map_map, evaluate]
    refine congrArg quantifier.quantify (List.map_congr_left fun other _ => ?_)
    exact (Factor.eval_whole _ _ _).trans (filtered other)

/-- The meaning of a condition depends on its own values only, wherever the row comes from. -/
theorem factor_rebound {collection : RuntimeCollection} {expr : PredicateExpr φ}
    (proper : Proper schema collection expr) {values' : List (SqlValue φ)} (scopes : Scopes (Row δ))
    (bound : emitted backend expr <+: values.drop n)
    (bound' : emitted backend expr <+: values'.drop n) :
    (factor backend outer level n expr).eval (queryMeaning engine values outward tables) scopes =
      (factor backend outer level n expr).eval (queryMeaning engine values' outward tables)
        scopes := by
  have lists {children : List (PredicateExpr φ)} {outer : Option String} {level n : Nat}
      (scopes : Scopes (Row δ))
      (each : ∀ child ∈ children, ∀ {n level : Nat} {outer : Option String}
        (scopes : Scopes (Row δ)), emitted backend child <+: values.drop n →
          emitted backend child <+: values'.drop n →
            (factor backend outer level n child).eval (queryMeaning engine values outward tables)
                scopes =
              (factor backend outer level n child).eval (queryMeaning engine values' outward tables)
                scopes)
      (bound : emittedAll backend children <+: values.drop n)
      (bound' : emittedAll backend children <+: values'.drop n) :
      (factors backend outer level n children).map
          (Factor.eval (queryMeaning engine values outward tables) scopes) =
        (factors backend outer level n children).map
          (Factor.eval (queryMeaning engine values' outward tables) scopes) := by
    induction children generalizing n with
    | nil => rfl
    | cons child rest ih =>
      rw [emittedAll] at bound bound'
      obtain ⟨here, later⟩ := prefix_parts bound
      obtain ⟨here', later'⟩ := prefix_parts bound'
      rw [factors, List.map_cons, List.map_cons, each child (.head _) scopes here here',
        ih (fun c mem => each c (.tail _ mem)) later later']
  induction proper generalizing outer level n scopes with
  | constant => rfl
  | isNull own => rfl
  | @compare _ field op value own fits supported =>
    -- Both sides compare the column with the operand that is bound there.
    let row : Row δ := fun column => readIn outward scopes { column }
    exact (@compareTree_bound _ _ _ row backend engine values field value (readIn outward scopes) op
      fits bound rfl).trans (compareTree_bound fits bound' rfl).symm
  | @list _ field op operands own filled fits scalar =>
    let row : Row δ := fun column => readIn outward scopes { column }
    have answers := @operands_bound _ _ _ row backend engine values field _ (readIn outward scopes)
      fits bound rfl
    have answers' := @operands_bound _ _ _ row backend engine values' field _ (readIn outward scopes)
      fits bound' rfl
    simp only [factor, Factor.eval, queryMeaning, Elementary.eval, List.map_map, Function.comp_def,
      answers, answers']
  | @between _ field low high own lowFits highFits ranged =>
    let row : Row δ := fun column => readIn outward scopes { column }
    have same : readIn outward scopes { column := field.physicalColumn } = row field.physicalColumn :=
      rfl
    exact (between_bound lowFits highFits bound same).trans
      (between_bound lowFits highFits bound' same).symm
  | @and collection children filled each ih =>
    rw [factor, Factor.eval, Factor.eval, Condition.eval, Condition.eval,
      Term.eval_conjunction _ _ (factors_ne_nil filled),
      Term.eval_conjunction _ _ (factors_ne_nil filled), lists scopes ih bound bound']
  | @or collection children filled each ih =>
    rw [factor, Factor.eval, Factor.eval, Condition.eval_disjunction _ _ (factors_ne_nil filled),
      Condition.eval_disjunction _ _ (factors_ne_nil filled), lists scopes ih bound bound']
  | not part ih =>
    rw [factor, Factor.eval, Factor.eval, Factor.eval, Factor.eval, Factor.eval_whole,
      Factor.eval_whole, ih scopes bound bound']
  | @relation collection target relation quantifier grant filter known joins _ _ grantIh filterIh =>
    obtain ⟨grantBound, filterBound⟩ := prefix_parts bound
    obtain ⟨grantBound', filterBound'⟩ := prefix_parts bound'
    have grants (inner : Scopes (Row δ)) := @grantIh n (level + 1) (some (relationAlias level)) inner
      grantBound grantBound'
    have filters (inner : Scopes (Row δ)) := @filterIh
      (n + (emitted backend grant).length) (level + 1) (some (relationAlias level)) inner filterBound filterBound'
    have correlated (inner : Scopes (Row δ)) : (correlationAtoms (relationAlias level)
          (outer.getD relation.source.physicalTable) relation.keyPairs).map
            (Factor.eval (queryMeaning engine values outward tables) inner) =
        (correlationAtoms (relationAlias level)
          (outer.getD relation.source.physicalTable) relation.keyPairs).map
            (Factor.eval (queryMeaning engine values' outward tables) inner) := by
      rw [correlationAtoms, List.map_map, List.map_map]
      rfl
    rw [factor_relation, quantifiedTree_eval, quantifiedTree_eval]
    simp only [remainingRows, correlated, Factor.eval_whole, grants, filters]
    rfl

end Factors

end GraphqlOrm.Runtime
