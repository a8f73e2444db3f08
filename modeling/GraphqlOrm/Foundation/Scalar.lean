import GraphqlOrm.Foundation.Condition

/-!
# Scalars and names in SQL queries

The scalar expressions and elementary conditions of a query, the rows that its names
stand for, and the numbering of its parameters. What a database computes with its values
is left to an engine.
-/
namespace Sql

/-! ### Names in scope -/

/-- A row source of a `FROM` clause under the name it is known by. -/
structure Item (ρ : Type) where
  name : String
  columns : List String
  row : ρ

abbrev Scopes (ρ : Type) := List (List (Item ρ))

structure Reference where
  qualifier : Option String := none
  column : String

variable {ρ τ δ ν : Type}

/-- The row that a reference denotes. An unqualified column belongs to the innermost clause
that has it, and to one source there. A qualified one belongs to the innermost source of
that name; when this source lacks the column, some databases look further outwards. -/
def resolve (outward : Bool) : Scopes ρ → Reference → Option ρ
  | [], _ => none
  | level :: rest, r =>
    match r.qualifier with
    | none =>
      match level.filter (·.columns.contains r.column) with
      | [] => resolve outward rest r
      | [item] => some item.row
      | _ => none
    | some name =>
      match level.filter (·.name == name) with
      | [] => resolve outward rest r
      | [item] =>
        if item.columns.contains r.column then some item.row
        else if outward then resolve outward rest r else none
      | _ => none

attribute [local simp] resolve

section

variable (outward : Bool) {item : Item ρ} {rest : Scopes ρ} {column : String}
    (own : column ∈ item.columns)
include outward own

/-- A lone source holds every column of its own that is not qualified. -/
theorem resolve_own :
    resolve outward ([item] :: rest) { column } = some item.row := by
  simp [resolve, own]

theorem resolve_named :
    resolve outward ([item] :: rest) ⟨some item.name, column⟩ = some item.row := by
  simp [resolve, own]

end

/-- A source of another name is passed over. -/
theorem resolve_past (outward : Bool) {item : Item ρ} {rest : Scopes ρ} {name column : String}
    (other : item.name ≠ name) :
    resolve outward ([item] :: rest) ⟨some name, column⟩ =
      resolve outward rest ⟨some name, column⟩ := by
  simp [resolve, other]

/-! ### Scalars -/

inductive SqlFunction where
  | instr | strpos | substr | left | right | length | charLength

def SqlFunction.name : SqlFunction → String
  | instr => "instr"
  | strpos => "strpos"
  | substr => "substr"
  | left => "left"
  | right => "right"
  | length => "length"
  | charLength => "char_length"

inductive Scalar where
  | column (reference : Reference)
  | parameter (index : Nat) (cast : Option String)
  | integer (value : Nat)
  | collate (s : Scalar) (collation : String)
  | unary (f : SqlFunction) (s : Scalar)
  | binary (f : SqlFunction) (s t : Scalar)
  | add (s t : Scalar)
  | sub (s t : Scalar)

inductive Relational where
  | eq | ne | lt | le | gt | ge

def Relational.text : Relational → String
  | eq => "="
  | ne => "<>"
  | lt => "<"
  | le => "<="
  | gt => ">"
  | ge => ">="

def Relational.holds : Relational → Ordering → Bool
  | eq, o => o == .eq
  | ne, o => o != .eq
  | lt, o => o == .lt
  | le, o => o != .gt
  | gt, o => o == .gt
  | ge, o => o != .lt

inductive Elementary where
  | constant (value : Bool)
  | isNull (s : Scalar) (negated : Bool)
  | compare (r : Relational) (s t : Scalar)
  | member (s : Scalar) (negated : Bool) (ts : List Scalar)
  | between (s low high : Scalar)

/-! ### Values -/

/-- What a database computes with its values. Parameters come as bound values of type
`ν`; a function may yield `NULL`. -/
structure Engine (ν δ : Type) where
  parameter : Option String → ν → δ
  integer : Int → δ
  compare : Option String → δ → δ → Ordering
  unary : SqlFunction → δ → Option δ
  binary : SqlFunction → δ → δ → Option δ
  add : δ → δ → Option δ
  sub : δ → δ → Option δ

def Scalar.collation : Scalar → Option String
  | .collate _ collation => some collation
  | _ => none

@[simp] theorem Scalar.collation_column (r : Reference) : (Scalar.column r).collation = none := rfl

@[simp] theorem Scalar.collation_integer (n : Nat) : (Scalar.integer n).collation = none := rfl

@[simp] theorem Scalar.collation_binary (f : SqlFunction) (s t : Scalar) :
    (Scalar.binary f s t).collation = none := rfl

section Eval

variable (engine : Engine ν δ) (values : List ν) (read : Reference → Option δ)

def Scalar.eval : Scalar → Option δ
  | .column reference => read reference
  | .parameter index cast => (values[index - 1]?).map (engine.parameter cast)
  | .integer value => some (engine.integer value)
  | .collate s _ => s.eval
  | .unary f s => s.eval.bind (engine.unary f)
  | .binary f s t => s.eval.bind fun x => t.eval.bind (engine.binary f x)
  | .add s t => s.eval.bind fun x => t.eval.bind (engine.add x)
  | .sub s t => s.eval.bind fun x => t.eval.bind (engine.sub x)

def Engine.compares (r : Relational) (collation : Option String) (x y : Option δ) : Truth :=
  Truth.lift (fun x y => r.holds (engine.compare collation x y)) x y

def compareScalars (r : Relational) (s t : Scalar) : Truth :=
  engine.compares r (s.collation.or t.collation) (s.eval engine values read)
    (t.eval engine values read)

def Elementary.eval : Elementary → Truth
  | .constant value => Truth.ofBool value
  | .isNull s negated => Truth.ofBool ((s.eval engine values read).isNone != negated)
  | .compare r s t => compareScalars engine values read r s t
  | .member s negated ts =>
    let found := Truth.any (ts.map (compareScalars engine values read .eq s))
    if negated then found.not else found
  | .between s low high =>
    (compareScalars engine values read .ge s low).and
      (compareScalars engine values read .le s high)

end Eval

/-! ### References and parameters -/

def Scalar.references : Scalar → List Reference
  | .column reference => [reference]
  | .parameter _ _ => []
  | .integer _ => []
  | .collate s _ => s.references
  | .unary _ s => s.references
  | .binary _ s t => s.references ++ t.references
  | .add s t => s.references ++ t.references
  | .sub s t => s.references ++ t.references

def Elementary.references : Elementary → List Reference
  | .constant _ => []
  | .isNull s _ => s.references
  | .compare _ s t => s.references ++ t.references
  | .member s _ ts => s.references ++ ts.flatMap Scalar.references
  | .between s low high => s.references ++ low.references ++ high.references

def Scalar.parameters : Scalar → List Nat
  | .column _ => []
  | .parameter index _ => [index]
  | .integer _ => []
  | .collate s _ => s.parameters
  | .unary _ s => s.parameters
  | .binary _ s t => s.parameters ++ t.parameters
  | .add s t => s.parameters ++ t.parameters
  | .sub s t => s.parameters ++ t.parameters

def Elementary.parameters : Elementary → List Nat
  | .constant _ => []
  | .isNull s _ => s.parameters
  | .compare _ s t => s.parameters ++ t.parameters
  | .member s _ ts => s.parameters ++ ts.flatMap Scalar.parameters
  | .between s low high => s.parameters ++ low.parameters ++ high.parameters

/-! ### Spelling -/

/-- How names and parameters are written. -/
structure Lettering where
  quote : String → String
  placeholder : Nat → String

def Reference.text (lettering : Lettering) (r : Reference) : String :=
  r.qualifier.elim "" (fun name => lettering.quote name ++ ".") ++ lettering.quote r.column

def Scalar.text (lettering : Lettering) : Scalar → String
  | .column reference => reference.text lettering
  | .parameter index cast => lettering.placeholder index ++ cast.elim "" ("::" ++ ·)
  | .integer value => value.repr
  | .collate s collation => s.text lettering ++ " COLLATE " ++ collation
  | .unary f s => f.name ++ "(" ++ s.text lettering ++ ")"
  | .binary f s t => f.name ++ "(" ++ s.text lettering ++ ", " ++ t.text lettering ++ ")"
  | .add s t => s.text lettering ++ " + " ++ t.text lettering
  | .sub s t => s.text lettering ++ " - " ++ t.text lettering

def Elementary.text (lettering : Lettering) : Elementary → String
  | .constant value => if value then "1 = 1" else "1 = 0"
  | .isNull s negated => s.text lettering ++ " IS " ++ (if negated then "NOT " else "") ++ "NULL"
  | .compare r s t => s.text lettering ++ " " ++ r.text ++ " " ++ t.text lettering
  | .member s negated ts =>
    s.text lettering ++ " " ++ (if negated then "NOT IN" else "IN") ++ " (" ++
      Text.join ", " (ts.map (Scalar.text lettering)) ++ ")"
  | .between s low high =>
    s.text lettering ++ " BETWEEN " ++ low.text lettering ++ " AND " ++ high.text lettering

/-! ### Conditions over tables -/

/-- The table that a subquery runs through, under its alias. -/
structure Subquery where
  table : String
  «alias» : String

def querySpelling (lettering : Lettering) : Spelling Elementary Empty Subquery where
  atom := Elementary.text lettering
  clause := Empty.elim
  source s := "SELECT 1 FROM " ++ lettering.quote s.table ++ " AS " ++ lettering.quote s.alias ++
    " WHERE "

abbrev Row (δ : Type) := String → Option δ

structure Table (δ : Type) where
  columns : List String
  rows : List (Row δ)

abbrev Tables (δ : Type) := String → Table δ

/-- The row source of a subquery when it stands at a row. -/
def Tables.item (tables : Tables δ) (s : Subquery) (row : Row δ) : Item (Row δ) :=
  ⟨s.alias, (tables s.table).columns, row⟩

def readIn (outward : Bool) (scopes : Scopes (Row δ)) (r : Reference) : Option δ :=
  (resolve outward scopes r).bind fun row => row r.column

def queryMeaning (engine : Engine ν δ) (values : List ν) (outward : Bool) (tables : Tables δ) :
    Meaning Elementary Empty Subquery (Scopes (Row δ)) where
  atom scopes e := e.eval engine values (readIn outward scopes)
  clause _ := Empty.elim
  rows scopes s := (tables s.table).rows.map fun row => [tables.item s row] :: scopes

mutual

/-- The rows that the references of a condition denote, from left to right. A subquery's
row is labelled by the depth of the subquery. -/
def Condition.denotations (outward : Bool) (columnsOf : String → List String) (depth : Nat)
    (scopes : Scopes (Option Nat)) : Condition Elementary Empty Subquery → List (Option (Option Nat))
  | .clause b => nomatch b
  | .one t => t.denotations outward columnsOf depth scopes
  | .or t c =>
    t.denotations outward columnsOf depth scopes ++ c.denotations outward columnsOf depth scopes

def Term.denotations (outward : Bool) (columnsOf : String → List String) (depth : Nat)
    (scopes : Scopes (Option Nat)) : Term Elementary Empty Subquery → List (Option (Option Nat))
  | .one f => f.denotations outward columnsOf depth scopes
  | .and f t =>
    f.denotations outward columnsOf depth scopes ++ t.denotations outward columnsOf depth scopes

def Factor.denotations (outward : Bool) (columnsOf : String → List String) (depth : Nat)
    (scopes : Scopes (Option Nat)) : Factor Elementary Empty Subquery → List (Option (Option Nat))
  | .atom e => e.references.map (resolve outward scopes)
  | .not f => f.denotations outward columnsOf depth scopes
  | .group c => c.denotations outward columnsOf depth scopes
  | .isTrue c => c.denotations outward columnsOf depth scopes
  | .exists s c =>
    c.denotations outward columnsOf (depth + 1) ([⟨s.alias, columnsOf s.table, some (depth + 1)⟩] :: scopes)

end

/-! ### Numbering -/

/-- Parameters in the order of their numbers, each new one the next number. Where a
database numbers its parameters, the latest one may be named again. -/
inductive Numbered (again : Bool) : Nat → List Nat → Nat → Prop
  | nil (n : Nat) : Numbered again n [] n
  | fresh {n m : Nat} {ps : List Nat} (rest : Numbered again (n + 1) ps m) :
    Numbered again n (n :: ps) m
  | repeated {n m : Nat} {ps : List Nat} (allowed : again = true)
    (rest : Numbered again (n + 1) ps m) : Numbered again (n + 1) (n :: ps) m

namespace Numbered

variable {again : Bool}

theorem trans {n m k : Nat} {ps qs : List Nat} (first : Numbered again n ps m)
    (second : Numbered again m qs k) : Numbered again n (ps ++ qs) k := by
  induction first with
  | nil n => exact second
  | fresh rest ih => exact .fresh (ih second)
  | repeated allowed rest ih => exact .repeated allowed (ih second)

theorem one (n : Nat) : Numbered again n [n] (n + 1) := .fresh (.nil _)

theorem range' (n count : Nat) : Numbered again n (List.range' n count) (n + count) := by
  induction count generalizing n with
  | zero => exact .nil n
  | succ count ih =>
    rw [List.range'_succ, show n + (count + 1) = n + 1 + count by omega]
    exact .fresh (ih (n + 1))

end Numbered

def tokenParameters (tokens : List (Token Elementary Empty Subquery)) : List Nat :=
  tokens.flatMap fun
    | .atom e => e.parameters
    | _ => []

theorem tokenParameters_append (left right : List (Token Elementary Empty Subquery)) :
    tokenParameters (left ++ right) = tokenParameters left ++ tokenParameters right :=
  List.flatMap_append

/-! ### Lists of factors -/

def Term.conjunction : List (Factor Elementary Empty Subquery) → Term Elementary Empty Subquery
  | [] => .one (.atom (.constant true))
  | f :: fs => .conj f fs

def Condition.disjunction :
    List (Factor Elementary Empty Subquery) → Condition Elementary Empty Subquery
  | [] => .one (.one (.atom (.constant false)))
  | f :: fs => .chain (.one f) (fs.map .one)

section Tokens

variable (f : Factor Elementary Empty Subquery) (c : Condition Elementary Empty Subquery)

@[simp] theorem tokenParameters_atom (e : Elementary) :
    tokenParameters (Factor.atom e).tokens = e.parameters := by
  simp [Factor.tokens, tokenParameters]

@[simp] theorem tokenParameters_not : tokenParameters f.not.tokens = tokenParameters f.tokens := rfl

@[simp] theorem tokenParameters_group :
    tokenParameters (Factor.group c).tokens = tokenParameters c.tokens := by
  simp [Factor.tokens, tokenParameters]

@[simp] theorem tokenParameters_isTrue :
    tokenParameters (Factor.isTrue c).tokens = tokenParameters c.tokens := by
  simp [Factor.tokens, tokenParameters]

@[simp] theorem tokenParameters_exists (source : Subquery) :
    tokenParameters (Factor.exists source c).tokens = tokenParameters c.tokens := by
  simp [Factor.tokens, tokenParameters]

end Tokens

section

variable (fs : List (Factor Elementary Empty Subquery))
include fs

theorem tokenParameters_chain (last : Factor Elementary Empty Subquery) :
    tokenParameters (Term.chain fs last).tokens =
      (fs.flatMap fun f => tokenParameters f.tokens) ++ tokenParameters last.tokens := by
  induction fs with
  | nil => rfl
  | cons f fs ih =>
    rw [Term.chain, Term.tokens, tokenParameters_append, List.flatMap_cons, List.append_assoc, ← ih]
    rfl

theorem tokenParameters_conjunction :
    tokenParameters (Term.conjunction fs).tokens = fs.flatMap fun f => tokenParameters f.tokens := by
  cases fs with
  | nil => rfl
  | cons f fs =>
    rw [Term.conjunction]
    induction fs generalizing f with
    | nil => simp [Term.conj, Term.tokens]
    | cons g fs ih =>
      rw [Term.conj, Term.tokens, tokenParameters_append, List.flatMap_cons, ← ih]
      rfl

theorem tokenParameters_disjunction :
    tokenParameters (Condition.disjunction fs).tokens =
      fs.flatMap fun f => tokenParameters f.tokens := by
  cases fs with
  | nil => rfl
  | cons f fs =>
    rw [Condition.disjunction]
    induction fs generalizing f with
    | nil => simp [Condition.chain, Condition.tokens, Term.tokens]
    | cons g fs ih =>
      rw [List.map_cons, Condition.chain, Condition.tokens, tokenParameters_append,
        List.flatMap_cons, ← ih]
      rfl

end

section Denotations

variable (outward : Bool) (columnsOf : String → List String) (depth : Nat)
  (scopes : Scopes (Option Nat))

section

variable (fs : List (Factor Elementary Empty Subquery))
include fs

theorem denotations_chain (last : Factor Elementary Empty Subquery) :
    (Term.chain fs last).denotations outward columnsOf depth scopes =
      (fs.flatMap fun f => f.denotations outward columnsOf depth scopes) ++
        last.denotations outward columnsOf depth scopes := by
  induction fs with
  | nil => rfl
  | cons f fs ih =>
    rw [Term.chain, Term.denotations, ih, List.flatMap_cons, List.append_assoc]

theorem denotations_conjunction :
    (Term.conjunction fs).denotations outward columnsOf depth scopes =
      fs.flatMap fun f => f.denotations outward columnsOf depth scopes := by
  cases fs with
  | nil => rfl
  | cons f fs =>
    rw [Term.conjunction]
    induction fs generalizing f with
    | nil => simp [Term.conj, Term.denotations]
    | cons g fs ih => rw [Term.conj, Term.denotations, ih, ← List.flatMap_cons]

theorem denotations_disjunction :
    (Condition.disjunction fs).denotations outward columnsOf depth scopes =
      fs.flatMap fun f => f.denotations outward columnsOf depth scopes := by
  cases fs with
  | nil => rfl
  | cons f fs =>
    rw [Condition.disjunction]
    induction fs generalizing f with
    | nil => simp [Condition.chain, Condition.denotations, Term.denotations]
    | cons g fs ih =>
      rw [List.map_cons, Condition.chain, Condition.denotations, ih, Term.denotations,
        ← List.flatMap_cons]

end

end Denotations

def Factor.whole (f : Factor Elementary Empty Subquery) : Condition Elementary Empty Subquery :=
  .one (.one f)

@[simp] theorem tokenParameters_whole (f : Factor Elementary Empty Subquery) :
    tokenParameters f.whole.tokens = tokenParameters f.tokens := rfl

section Lists

variable (lettering : Lettering)

@[simp] theorem Factor.text_whole (f : Factor Elementary Empty Subquery) :
    f.whole.text (querySpelling lettering) = f.text (querySpelling lettering) := by
  simp [Factor.whole]

variable {fs : List (Factor Elementary Empty Subquery)}

theorem Term.text_conjunction (filled : fs ≠ []) :
    (Term.conjunction fs).text (querySpelling lettering) =
      Text.join " AND " (fs.map (Factor.text (querySpelling lettering))) := by
  cases fs with
  | nil => exact absurd rfl filled
  | cons f fs => exact Term.text_conj _ f fs

theorem Condition.text_disjunction (filled : fs ≠ []) :
    (Condition.disjunction fs).text (querySpelling lettering) =
      Text.join " OR " (fs.map (Factor.text (querySpelling lettering))) := by
  cases fs with
  | nil => exact absurd rfl filled
  | cons f fs => simp [Condition.disjunction, Condition.text_chain, Function.comp_def]

variable {ρ : Type} (m : Meaning Elementary Empty Subquery ρ) (row : ρ)

@[simp] theorem Factor.eval_whole (f : Factor Elementary Empty Subquery) :
    f.whole.eval m row = f.eval m row := by
  simp [Factor.whole, Condition.eval, Term.eval]

theorem Term.eval_conjunction (filled : fs ≠ []) :
    (Term.conjunction fs).eval m row = Truth.all (fs.map (Factor.eval m row)) := by
  cases fs with
  | nil => exact absurd rfl filled
  | cons f fs => exact Term.eval_conj m row f fs

theorem Condition.eval_disjunction (filled : fs ≠ []) :
    (Condition.disjunction fs).eval m row = Truth.any (fs.map (Factor.eval m row)) := by
  cases fs with
  | nil => exact absurd rfl filled
  | cons f fs =>
    simp [Condition.disjunction, Condition.eval_chain, Function.comp_def, Term.eval]

end Lists

end Sql
