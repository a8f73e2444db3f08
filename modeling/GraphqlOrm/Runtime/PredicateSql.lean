import GraphqlOrm.Foundation.Scalar
import GraphqlOrm.Runtime.Predicate

/-!
# Predicates as SQL

The condition that a predicate is rendered to, with the values that it binds. A relation
node becomes a correlated subquery under an alias of its own depth.
-/
namespace GraphqlOrm.Runtime

open Schema (DatabaseBackend)
open Text (join)

variable {φ : Type}

/-- The values that statements bind. -/
inductive SqlValue (φ : Type) where
  | bool (value : Bool)
  | int (value : Int)
  | float (value : φ)
  | string (value : String)
  | uuid (bytes : List UInt8)
  | json (value : Json.Value String)
  | bytes (value : List UInt8)
  | decimal (value : DecimalValue)
deriving DecidableEq

def valueBind : RuntimeValue φ → Option (SqlValue φ)
  | .null => none
  | .boolean value => some (.bool value)
  | .integer value => some (.int value)
  | .float value => some (.float value)
  | .string value => some (.string value)
  | .uuid value => some (.uuid value)
  | .json value => some (.json value)
  | .bytes value => some (.bytes value)
  | .dateTime value => some (.string value.text)
  | .decimal value => some (.decimal value)

variable {value : RuntimeValue φ}

theorem valueBind_isSome {field : RuntimeFieldHandle} (fits : Fits field value) :
    ∃ bind, valueBind value = some bind := by
  cases value with
  | null => simp [Fits, RuntimeValue.kind] at fits
  | _ => exact ⟨_, rfl⟩

/-! ### Parts of a comparison -/

def placeholder (backend : DatabaseBackend) (index : Nat) (kind : RuntimeValueKind) : String :=
  let value := backend.placeholder index
  if backend = .postgres ∧ kind = .dateTime then value ++ "::timestamptz" else value

def orderedColumn (backend : DatabaseBackend) (field : RuntimeFieldHandle) : String :=
  let column := backend.quoteIdentifier field.physicalColumn
  if field.valueKind = .string then
    match backend with
    | .postgres => column ++ " COLLATE \"C\""
    | .sqlite => column ++ " COLLATE BINARY"
    | _ => column
  else column

/-- `Vec::push` of a bound value; without a value the program stops. -/
def pushBind (values : List (SqlValue φ)) (value : RuntimeValue φ) : Option (List (SqlValue φ)) :=
  (valueBind value).map fun bind => values ++ [bind]

section Leaves

variable (backend : DatabaseBackend) (field : RuntimeFieldHandle)

def nextBind (values : List (SqlValue φ)) : String :=
  placeholder backend (values.length + 1) field.valueKind

def renderCompare (op : RuntimeScalarOperator) (value : RuntimeValue φ) (values : List (SqlValue φ)) :
    Option (String × List (SqlValue φ)) := do
  let column := orderedColumn backend field
  let bind := nextBind backend field values
  let values ← pushBind values value
  match op with
  | .eq => return (column ++ " = " ++ bind, values)
  | .ne => return (column ++ " <> " ++ bind, values)
  | .lt => return (column ++ " < " ++ bind, values)
  | .lte => return (column ++ " <= " ++ bind, values)
  | .gt => return (column ++ " > " ++ bind, values)
  | .gte => return (column ++ " >= " ++ bind, values)
  | .contains =>
    if backend = .postgres then return ("strpos(" ++ column ++ ", " ++ bind ++ ") > 0", values)
    else return ("instr(" ++ column ++ ", " ++ bind ++ ") > 0", values)
  | .startsWith =>
    if backend = .postgres then
      return ("left(" ++ column ++ ", char_length(" ++ bind ++ ")) = " ++ bind, values)
    else return ("instr(" ++ column ++ ", " ++ bind ++ ") = 1", values)
  | .endsWith =>
    if backend = .postgres then
      return ("right(" ++ column ++ ", char_length(" ++ bind ++ ")) = " ++ bind, values)
    else
      let second := nextBind backend field values
      let values ← pushBind values value
      return ("substr(" ++ column ++ ", length(" ++ column ++ ") - length(" ++ bind ++ ") + 1) = " ++
        second, values)

def renderOperands : List (RuntimeValue φ) → List (SqlValue φ) →
    Option (List String × List (SqlValue φ))
  | [], values => some ([], values)
  | value :: rest, values => do
    let bind := nextBind backend field values
    let values ← pushBind values value
    let (binds, values) ← renderOperands rest values
    return (bind :: binds, values)

def renderList (op : RuntimeListOperator) (operands : List (RuntimeValue φ))
    (values : List (SqlValue φ)) : Option (String × List (SqlValue φ)) := do
  let (binds, values) ← renderOperands backend field operands values
  let keyword := if op = .in then "IN" else "NOT IN"
  return (orderedColumn backend field ++ " " ++ keyword ++ " (" ++ join ", " binds ++ ")", values)

def renderBetween (low high : RuntimeValue φ) (values : List (SqlValue φ)) :
    Option (String × List (SqlValue φ)) := do
  let lowBind := nextBind backend field values
  let values ← pushBind values low
  let highBind := nextBind backend field values
  let values ← pushBind values high
  return (orderedColumn backend field ++ " BETWEEN " ++ lowBind ++ " AND " ++ highBind, values)

end Leaves

/-! ### Trees -/

/-- The name of the row source at a depth. -/
def relationAlias (level : Nat) : String := "graphql_orm_relation_" ++ level.repr

def correlation (backend : DatabaseBackend) («alias» outer : String)
    (pairs : List (RuntimeFieldHandle × RuntimeFieldHandle)) : String :=
  join " AND " (pairs.map fun (source, target) =>
    «alias» ++ "." ++ backend.quoteIdentifier target.physicalColumn ++ " = " ++
      outer ++ "." ++ backend.quoteIdentifier source.physicalColumn)

/-- Unknown does not match, so `NULL` never satisfies `every`. -/
def quantified : RuntimeRelationQuantifier → String → Bool × String
  | .is, filter => (false, "(" ++ filter ++ ")")
  | .some, filter => (false, "(" ++ filter ++ ")")
  | .isNot, filter => (true, "(" ++ filter ++ ")")
  | .none, filter => (true, "(" ++ filter ++ ")")
  | .every, filter => (true, "NOT ((" ++ filter ++ ") IS TRUE)")

mutual

/-- `outer` qualifies the enclosing row; at the top it is the source table. -/
def renderScoped (backend : DatabaseBackend) (outer : Option String) (level : Nat) :
    PredicateExpr φ → List (SqlValue φ) → Option (String × List (SqlValue φ))
  | .constant value, values => some (if value then "1 = 1" else "1 = 0", values)
  | .isNull field isNull, values =>
    some (backend.quoteIdentifier field.physicalColumn ++ " IS " ++
      (if isNull then "" else "NOT ") ++ "NULL", values)
  | .compare field op value, values => renderCompare backend field op value values
  | .list field op operands, values => renderList backend field op operands values
  | .between field low high, values => renderBetween backend field low high values
  | .and children, values => do
    let (texts, values) ← renderChildren backend outer level children values
    return ("(" ++ join " AND " texts ++ ")", values)
  | .or children, values => do
    let (texts, values) ← renderChildren backend outer level children values
    return ("(" ++ join " OR " texts ++ ")", values)
  | .not child, values => do
    let (text, values) ← renderScoped backend outer level child values
    return ("NOT (" ++ text ++ ")", values)
  | .relation relation quantifier grant filter, values => do
    let outer := outer.getD (backend.quoteIdentifier relation.source.physicalTable)
    let quoted := backend.quoteIdentifier (relationAlias level)
    let pairs := correlation backend quoted outer relation.keyPairs
    let (grant, values) ← renderScoped backend (some quoted) (level + 1) grant values
    let (filter, values) ← renderScoped backend (some quoted) (level + 1) filter values
    let (negated, condition) := quantified quantifier filter
    return ((if negated then "NOT " else "") ++ "EXISTS (SELECT 1 FROM " ++
      backend.quoteIdentifier relation.target.physicalTable ++ " AS " ++ quoted ++ " WHERE " ++
      pairs ++ " AND (" ++ grant ++ ") AND " ++ condition ++ ")", values)

def renderChildren (backend : DatabaseBackend) (outer : Option String) (level : Nat) :
    List (PredicateExpr φ) → List (SqlValue φ) → Option (List String × List (SqlValue φ))
  | [], values => some ([], values)
  | child :: rest, values => do
    let (text, values) ← renderScoped backend outer level child values
    let (texts, values) ← renderChildren backend outer level rest values
    return (text :: texts, values)

end

def renderExpr (backend : DatabaseBackend) (expr : PredicateExpr φ) (values : List (SqlValue φ)) :
    Option (String × List (SqlValue φ)) :=
  renderScoped backend none 0 expr values

def RuntimePredicate.render (backend : DatabaseBackend) (predicate : RuntimePredicate φ)
    (values : List (SqlValue φ)) : Option (String × List (SqlValue φ)) :=
  renderExpr backend predicate.expr values

/-! ### The condition as a syntax tree -/

open Sql

def lettering (backend : DatabaseBackend) : Lettering where
  quote := backend.quoteIdentifier
  placeholder := backend.placeholder

abbrev spelling (backend : DatabaseBackend) : Spelling Elementary Empty Subquery :=
  querySpelling (lettering backend)

def byteCollation : DatabaseBackend → RuntimeValueKind → Option String
  | .postgres, .string => some "\"C\""
  | .sqlite, .string => some "BINARY"
  | _, _ => none

def parameterCast (backend : DatabaseBackend) (kind : RuntimeValueKind) : Option String :=
  if backend = .postgres ∧ kind = .dateTime then some "timestamptz" else none

/-- A database that computes with integers; what else is bound is zero to it. -/
def integerEngine : Engine (SqlValue Int) Int where
  parameter _ value := match value with
    | .bool b => if b then 1 else 0
    | .int n => n
    | _ => 0
  integer n := n
  compare _ x y := compare x y
  unary _ _ := none
  binary _ _ _ := none
  add x y := some (x + y)
  sub x y := some (x - y)

section Tree

variable (backend : DatabaseBackend) (field : RuntimeFieldHandle)

def columnScalar : Scalar :=
  match byteCollation backend field.valueKind with
  | some collation => .collate (.column { column := field.physicalColumn }) collation
  | none => .column { column := field.physicalColumn }

/-- The value bound after `n` others. -/
def bindScalar (n : Nat) : Scalar := .parameter (n + 1) (parameterCast backend field.valueKind)

/-- The operator as one comparison; `n` values are bound before it. -/
def compareTree (op : RuntimeScalarOperator) (n : Nat) : Elementary :=
  let column := columnScalar backend field
  let bind := bindScalar backend field n
  match op with
  | .eq => .compare .eq column bind
  | .ne => .compare .ne column bind
  | .lt => .compare .lt column bind
  | .lte => .compare .le column bind
  | .gt => .compare .gt column bind
  | .gte => .compare .ge column bind
  | .contains =>
    if backend = .postgres then .compare .gt (.binary .strpos column bind) (.integer 0)
    else .compare .gt (.binary .instr column bind) (.integer 0)
  | .startsWith =>
    if backend = .postgres then .compare .eq (.binary .left column (.unary .charLength bind)) bind
    else .compare .eq (.binary .instr column bind) (.integer 1)
  | .endsWith =>
    if backend = .postgres then .compare .eq (.binary .right column (.unary .charLength bind)) bind
    else
      .compare .eq
        (.binary .substr column
          (.add (.sub (.unary .length column) (.unary .length bind)) (.integer 1)))
        (bindScalar backend field (n + 1))

end Tree

def compareBinds (backend : DatabaseBackend) (op : RuntimeScalarOperator) (value : RuntimeValue φ) :
    List (SqlValue φ) :=
  if op = .endsWith ∧ backend ≠ .postgres then
    (valueBind value).toList ++ (valueBind value).toList
  else (valueBind value).toList

mutual

def emitted (backend : DatabaseBackend) : PredicateExpr φ → List (SqlValue φ)
  | .constant _ => []
  | .isNull _ _ => []
  | .compare _ op value => compareBinds backend op value
  | .list _ _ operands => operands.flatMap fun value => (valueBind value).toList
  | .between _ low high => (valueBind low).toList ++ (valueBind high).toList
  | .and children => emittedAll backend children
  | .or children => emittedAll backend children
  | .not child => emitted backend child
  | .relation _ _ grant filter => emitted backend grant ++ emitted backend filter

def emittedAll (backend : DatabaseBackend) : List (PredicateExpr φ) → List (SqlValue φ)
  | [] => []
  | child :: rest => emitted backend child ++ emittedAll backend rest

end

def correlationAtoms («alias» outer : String)
    (pairs : List (RuntimeFieldHandle × RuntimeFieldHandle)) :
    List (Factor Elementary Empty Subquery) :=
  pairs.map fun (source, target) =>
    .atom (.compare .eq (.column ⟨some «alias», target.physicalColumn⟩)
      (.column ⟨some outer, source.physicalColumn⟩))

/-- The quantifier around the subquery: whether it is negated, and its last condition. -/
def quantifiedTree (filter : Condition Elementary Empty Subquery) :
    RuntimeRelationQuantifier → Bool × Factor Elementary Empty Subquery
  | .is => (false, .group filter)
  | .some => (false, .group filter)
  | .isNot => (true, .group filter)
  | .none => (true, .group filter)
  | .every => (true, .not (.group (Factor.isTrue filter).whole))

def negatedIf (negated : Bool) (f : Factor Elementary Empty Subquery) :
    Factor Elementary Empty Subquery :=
  if negated then .not f else f

mutual

/-- The rendered condition; `n` values are bound before it. -/
def factor (backend : DatabaseBackend) (outer : Option String) (level n : Nat) :
    PredicateExpr φ → Factor Elementary Empty Subquery
  | .constant value => .atom (.constant value)
  | .isNull field isNull => .atom (.isNull (.column { column := field.physicalColumn }) (!isNull))
  | .compare field op _ => .atom (compareTree backend field op n)
  | .list field op operands =>
    .atom (.member (columnScalar backend field) (op = .notIn)
      ((List.range operands.length).map fun i => bindScalar backend field (n + i)))
  | .between field _ _ =>
    .atom (.between (columnScalar backend field) (bindScalar backend field n)
      (bindScalar backend field (n + 1)))
  | .and children => .group (.one (.conjunction (factors backend outer level n children)))
  | .or children => .group (.disjunction (factors backend outer level n children))
  | .not child => .not (.group (factor backend outer level n child).whole)
  | .relation relation quantifier grant filter =>
    let outer := outer.getD relation.source.physicalTable
    let own := relationAlias level
    let grantTree := factor backend (some own) (level + 1) n grant
    let filterTree :=
      factor backend (some own) (level + 1) (n + (emitted backend grant).length) filter
    let (negated, last) := quantifiedTree filterTree.whole quantifier
    negatedIf negated (.exists ⟨relation.target.physicalTable, own⟩
      (.one (.chain (correlationAtoms own outer relation.keyPairs ++ [.group grantTree.whole]) last)))

def factors (backend : DatabaseBackend) (outer : Option String) (level n : Nat) :
    List (PredicateExpr φ) → List (Factor Elementary Empty Subquery)
  | [] => []
  | child :: rest =>
    factor backend outer level n child ::
      factors backend outer level (n + (emitted backend child).length) rest

end

/-! ### The text is that of the tree -/

section Text

variable {backend : DatabaseBackend} {field : RuntimeFieldHandle}

attribute [local simp] Scalar.text

theorem columnScalar_text :
    (columnScalar backend field).text (lettering backend) = orderedColumn backend field := by
  cases backend <;> cases kind : field.valueKind <;>
    simp [columnScalar, orderedColumn, byteCollation, kind, Scalar.text, Reference.text, lettering,
      String.append_assoc]

theorem columnScalar_parameters : (columnScalar backend field).parameters = [] := by
  rw [columnScalar]
  split <;> rfl

theorem bindScalar_text (n : Nat) :
    (bindScalar backend field n).text (lettering backend) =
      placeholder backend (n + 1) field.valueKind := by
  simp only [bindScalar, Scalar.text, parameterCast, placeholder, lettering]
  split
  · rw [Option.elim_some, ← String.toList_inj]
    simp
  · rw [Option.elim_none, String.append_empty]

theorem compare_text (r : Relational) (s t : Scalar) :
    (Elementary.compare r s t).text (lettering backend) =
      s.text (lettering backend) ++ " " ++ r.text ++ " " ++ t.text (lettering backend) := rfl

theorem pushBind_fits (fits : Fits field value) (values : List (SqlValue φ)) :
    pushBind values value = some (values ++ (valueBind value).toList) := by
  obtain ⟨bind, found⟩ := valueBind_isSome fits
  simp [pushBind, found]

theorem length_bind (fits : Fits field value) :
    (valueBind value).toList.length = 1 := by
  obtain ⟨bind, found⟩ := valueBind_isSome fits
  simp [found]

theorem renderCompare_eq (fits : Fits field value) (op : RuntimeScalarOperator)
    (values : List (SqlValue φ)) :
    renderCompare backend field op value values =
      some ((compareTree backend field op values.length).text (lettering backend),
        values ++ compareBinds backend op value) := by
  have one := length_bind fits
  have digits : Nat.toDigits 10 0 = ['0'] ∧ Nat.toDigits 10 1 = ['1'] := by decide
  have column : (columnScalar backend field).text (lettering backend) = orderedColumn backend field :=
    columnScalar_text
  have bindText (n : Nat) : (bindScalar backend field n).text (lettering backend) =
      placeholder backend (n + 1) field.valueKind := bindScalar_text n
  have first := bindText values.length
  have second := bindText (values.length + 1)
  by_cases numbered : backend = .postgres
  · subst numbered
    cases op <;>
      simp [renderCompare, pushBind_fits fits, compareTree, compareBinds, compare_text, digits,
        Scalar.text, SqlFunction.name, column, first, nextBind, Relational.text,
        ← String.toList_inj]
  · cases op <;>
      simp [renderCompare, pushBind_fits fits, compareTree, compareBinds, numbered, compare_text,
        Scalar.text, SqlFunction.name, column, first, second, nextBind, Relational.text, one,
        digits, ← String.toList_inj]

/-- Each operand takes the next number. -/
theorem renderOperands_eq {operands : List (RuntimeValue φ)}
    (fits : ∀ value ∈ operands, Fits field value) (values : List (SqlValue φ)) :
    renderOperands backend field operands values =
      some (((List.range operands.length).map fun i => bindScalar backend field (values.length + i)).map
          (Scalar.text (lettering backend)),
        values ++ operands.flatMap fun value => (valueBind value).toList) := by
  induction operands generalizing values with
  | nil => simp [renderOperands]
  | cons value rest ih =>
    have here := fits value (.head _)
    have later := ih (fun v mem => fits v (.tail _ mem))
      (values ++ (valueBind value).toList)
    rw [List.length_append, length_bind here] at later
    simp only [renderOperands, pushBind_fits here, Option.bind_eq_bind, Option.bind_some, later]
    simp only [nextBind, Option.pure_def, Option.some.injEq, Prod.mk.injEq, List.length_cons,
      List.range_succ_eq_map, List.map_cons, List.map_map, bindScalar_text, Nat.add_zero,
      List.flatMap_cons, List.append_assoc, and_true, List.cons.injEq, true_and]
    refine List.map_congr_left fun i _ => ?_
    simp only [Function.comp_apply, bindScalar_text]
    rw [show values.length + 1 + i + 1 = values.length + (i + 1) + 1 by omega]

theorem renderList_eq {operands : List (RuntimeValue φ)}
    (fits : ∀ value ∈ operands, Fits field value) (op : RuntimeListOperator)
    (values : List (SqlValue φ)) :
    renderList backend field op operands values =
      some ((Elementary.member (columnScalar backend field) (op = .notIn)
          ((List.range operands.length).map fun i =>
            bindScalar backend field (values.length + i))).text (lettering backend),
        values ++ operands.flatMap fun value => (valueBind value).toList) := by
  simp only [renderList, renderOperands_eq fits, Option.bind_eq_bind, Option.bind_some,
    Elementary.text, columnScalar_text]
  cases op <;> rfl

theorem renderBetween_eq {low high : RuntimeValue φ} (lowFits : Fits field low)
    (highFits : Fits field high) (values : List (SqlValue φ)) :
    renderBetween backend field low high values =
      some ((Elementary.between (columnScalar backend field) (bindScalar backend field values.length)
          (bindScalar backend field (values.length + 1))).text (lettering backend),
        values ++ ((valueBind low).toList ++ (valueBind high).toList)) := by
  simp [renderBetween, pushBind_fits lowFits, pushBind_fits highFits, length_bind lowFits,
    Elementary.text, columnScalar_text, bindScalar_text, nextBind]

theorem correlation_eq («alias» outer : String)
    (pairs : List (RuntimeFieldHandle × RuntimeFieldHandle)) :
    correlation backend (backend.quoteIdentifier «alias») (backend.quoteIdentifier outer) pairs =
      join " AND " ((correlationAtoms «alias» outer pairs).map (Factor.text (spelling backend))) := by
  rw [correlation, correlationAtoms, List.map_map]
  congr 1
  refine List.map_congr_left fun pair _ => ?_
  simp [querySpelling, Elementary.text, Scalar.text, Reference.text, Relational.text, lettering,
    ← String.toList_inj]

theorem quantified_eq (filter : Condition Elementary Empty Subquery)
    (quantifier : RuntimeRelationQuantifier) :
    quantified quantifier (filter.text (spelling backend)) =
      ((quantifiedTree filter quantifier).1,
        (quantifiedTree filter quantifier).2.text (spelling backend)) := by
  cases quantifier <;> simp [quantified, quantifiedTree, ← String.toList_inj]

theorem subquery_text (source : Subquery) (c : Condition Elementary Empty Subquery) :
    (Factor.exists source c).text (spelling backend) =
      "EXISTS (SELECT 1 FROM " ++ backend.quoteIdentifier source.table ++ " AS " ++
        backend.quoteIdentifier source.alias ++ " WHERE " ++ c.text (spelling backend) ++ ")" := by
  rw [text_exists, ← String.toList_inj]
  simp [querySpelling, lettering]

theorem relation_text {pairs : List (Factor Elementary Empty Subquery)} (filled : pairs ≠ [])
    (grant : Condition Elementary Empty Subquery) (last : Factor Elementary Empty Subquery) :
    (Condition.one (Term.chain (pairs ++ [.group grant]) last)).text (spelling backend) =
      join " AND " (pairs.map (Factor.text (spelling backend))) ++ " AND (" ++
        grant.text (spelling backend) ++ ") AND " ++ last.text (spelling backend) := by
  have some : pairs.map (Factor.text (spelling backend)) ≠ [] := by simpa using filled
  rw [text_one, Term.text_chain, List.map_append, List.append_assoc,
    Text.join_append some (by simp), ← String.toList_inj]
  simp [Text.join]

/-- The text of a predicate is the text of its tree, and the values it appends are those
of its tree. The induction is on how the predicate was built: lists are never empty. -/
theorem renderScoped_eq {schema : RuntimeSchema} {collection : RuntimeCollection}
    {expr : PredicateExpr φ} (proper : Proper schema collection expr) (outer : Option String)
    (level : Nat) (values : List (SqlValue φ)) :
    renderScoped backend (outer.map backend.quoteIdentifier) level expr values =
      some ((factor backend outer level values.length expr).text (spelling backend),
        values ++ emitted backend expr) := by
  have lists (children : List (PredicateExpr φ))
      (each : ∀ child ∈ children, ∀ (outer : Option String) (level : Nat)
        (values : List (SqlValue φ)),
        renderScoped backend (outer.map backend.quoteIdentifier) level child values =
          some ((factor backend outer level values.length child).text (spelling backend),
            values ++ emitted backend child))
      (outer : Option String) (level : Nat) (values : List (SqlValue φ)) :
      renderChildren backend (outer.map backend.quoteIdentifier) level children values =
        some ((factors backend outer level values.length children).map
            (Factor.text (spelling backend)),
          values ++ emittedAll backend children) := by
    induction children generalizing values with
    | nil => simp [renderChildren, factors, emittedAll]
    | cons child rest ih =>
      have later := ih (fun c mem => each c (.tail _ mem))
        (values ++ emitted backend child)
      rw [List.length_append] at later
      simp [renderChildren, each child (.head _), later, factors, emittedAll]
  have filled {children : List (PredicateExpr φ)} {outer : Option String} {level n : Nat}
      (some : children ≠ []) : factors backend outer level n children ≠ [] := by
    cases children with
    | nil => exact absurd rfl some
    | cons child rest => simp [factors]
  induction proper generalizing outer level values with
  | @constant _ value =>
    cases value <;> simp [renderScoped, factor, emitted, querySpelling, Elementary.text]
  | @isNull _ field isNull own =>
    cases isNull <;>
      simp [renderScoped, factor, emitted, querySpelling, Elementary.text, Scalar.text,
        Reference.text, lettering]
  | compare own fits supported =>
    simp [renderScoped, renderCompare_eq fits, factor, emitted, querySpelling]
  | list own filled fits scalar =>
    simp [renderScoped, renderList_eq fits, factor, emitted, querySpelling]
  | between own low high ranged =>
    simp [renderScoped, renderBetween_eq low high, factor, emitted, querySpelling]
  | @and collection children some each ih =>
    have texts := lists children ih outer level values
    simp [renderScoped, texts, factor, emitted, Term.text_conjunction _ (filled some)]
  | @or collection children some each ih =>
    have texts := lists children ih outer level values
    simp [renderScoped, texts, factor, emitted, Condition.text_disjunction _ (filled some)]
  | not part ih =>
    simp [renderScoped, ih, factor, emitted, ← String.toList_inj]
  | @relation collection target relation quantifier grant filter known joins _ _ grantIh filterIh =>
    have outerText : (outer.map backend.quoteIdentifier).getD
        (backend.quoteIdentifier relation.source.physicalTable) =
          backend.quoteIdentifier (outer.getD relation.source.physicalTable) := by
      cases outer <;> rfl
    have grantText := grantIh (some (relationAlias level)) (level + 1) values
    have filterText := filterIh (some (relationAlias level)) (level + 1)
      (values ++ emitted backend grant)
    rw [List.length_append] at filterText
    have quantifiedText := @quantified_eq backend (factor backend
      (some (relationAlias level)) (level + 1) (values.length + (emitted backend grant).length)
      filter).whole quantifier
    rw [Factor.text_whole] at quantifiedText
    simp only [Option.map_some] at grantText filterText
    have filled : correlationAtoms (relationAlias level)
        (outer.getD relation.source.physicalTable) relation.keyPairs ≠ [] := by
      simp [correlationAtoms, joins.filled]
    simp only [renderScoped, outerText, correlation_eq, grantText, filterText, quantifiedText,
      Option.bind_eq_bind, Option.bind_some, factor, emitted]
    cases (quantifiedTree _ quantifier).1 <;>
      simp only [negatedIf, text_not, subquery_text, relation_text filled, Factor.text_whole,
        ← String.toList_inj, if_true, if_false, Bool.false_eq_true, Option.pure_def,
        Option.some.injEq, Prod.mk.injEq, List.append_assoc, and_true] <;>
      simp

end Text

end GraphqlOrm.Runtime
