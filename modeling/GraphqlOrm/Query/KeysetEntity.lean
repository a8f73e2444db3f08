import GraphqlOrm.Query.Cursor
import GraphqlOrm.Query.EntityQuery

/-!
# Entities with a keyset order

What an entity declares about its order and its cursors, what the policies answer for one
caller, and the checks that every authorized page makes.
-/
namespace GraphqlOrm.Query

open Schema Sql Outcome

structure KeysetField where
  column : String
  apiName : String
  readPolicy : Option String

structure KeysetCursorField where
  column : String
  apiName : String
  readPolicy : Option String
  graphqlReadable : Bool

structure AuthorizedKeysetEntity (τ φ : Type) where
  entityName : String
  keysetOrder : List KeysetOrderColumn
  keysetFingerprint : String
  keysetCursorFields : List KeysetCursorField
  keysetValues : τ → List (KeysetValue φ)
  keysetFields : List KeysetField
  keysetPrimaryColumns : List String
  keysetValueForColumn : τ → String → Option (KeysetValue φ)
  /-- The fields of the entity with their read policies. -/
  repositoryFieldPolicies : List (String × Option String)

/-- The answers of the policies to one caller. `graphql` tells a GraphQL request from a
call of the repository. -/
structure Policies (τ : Type) where
  graphql : Bool
  entityAccess : Except OrmErrorCode Unit
  readVisibility : Except OrmErrorCode (ReadVisibility τ)
  readableField : String → Option String → Option τ → Except OrmErrorCode Unit
  canReadRow : τ → Except OrmErrorCode Bool

variable {order : List KeysetOrderColumn}

section Checks

variable {τ φ : Type} (entity : AuthorizedKeysetEntity τ φ) (policies : Policies τ)

def authorizePagination : Except OrmErrorCode (ReadVisibility τ) := do
  policies.entityAccess
  policies.readVisibility

def orderField (runtime : Bool) (column : String) : Option (String × Option String × Bool) :=
  if runtime then
    (entity.keysetFields.find? fun field => field.column = column).map fun field =>
      (field.apiName, field.readPolicy, true)
  else
    (entity.keysetCursorFields.find? fun field => field.column = column).map fun field =>
      (field.apiName, field.readPolicy, field.graphqlReadable)

def authorizeOrderField (runtime : Bool) (row : Option τ) (part : KeysetOrderColumn) :
    Except OrmErrorCode Unit := do
  let (apiName, policy, graphqlReadable) ←
    okOr .authorizationMisconfigured (orderField entity runtime part.column)
  if policies.graphql && !graphqlReadable then throw .forbidden
  policies.readableField apiName policy row

def authorizeKeysetOrderFields (order : List KeysetOrderColumn) (runtime : Bool) (row : Option τ) :
    Except OrmErrorCode Unit :=
  order.forM (authorizeOrderField entity policies runtime row)

def authorizePageFields (rows : List τ) : Except OrmErrorCode Unit :=
  if policies.graphql then .ok ()
  else rows.forM fun row => entity.repositoryFieldPolicies.forM fun field =>
    policies.readableField field.1 field.2 (some row)

def checkRepositoryCandidates (visibility : ReadVisibility τ) (rows : List τ) :
    Except OrmErrorCode Unit :=
  if visibility.requiresResidualChecks then
    rows.forM fun row => do
      if !(← policies.canReadRow row) then throw .forbidden
  else .ok ()

def authorizePage (order : List KeysetOrderColumn) (runtime : Bool) (nodes : List τ) :
    Except OrmErrorCode Unit := do
  authorizePageFields entity policies nodes
  nodes.forM fun node => authorizeKeysetOrderFields entity policies order runtime (some node)
  authorizeKeysetOrderFields entity policies order runtime none

/-! ### Access -/

/-- The caller may read the entity and every field of an order on every row of a table. -/
structure Granted (order : List KeysetOrderColumn) (runtime : Bool) (rows : List τ) : Prop where
  access : policies.entityAccess = .ok ()
  fields : ∀ row, (∀ r ∈ row, r ∈ rows) →
    authorizeKeysetOrderFields entity policies order runtime row = .ok ()
  page : ∀ nodes ⊆ rows, authorizePageFields entity policies nodes = .ok ()

variable {entity policies}

theorem Granted.authorizePage {runtime : Bool} {rows nodes : List τ}
    (granted : Granted entity policies order runtime rows) (own : nodes ⊆ rows) :
    authorizePage entity policies order runtime nodes = .ok () := by
  have fields : nodes.forM (fun node =>
      authorizeKeysetOrderFields entity policies order runtime (some node)) = .ok () :=
    forM_ok fun node mem => granted.fields (some node) (by simpa using own mem)
  have order := granted.fields none (by simp)
  simp [Query.authorizePage, granted.page nodes own, fields, order, bind, Except.bind]

end Checks

/-! ### Fingerprints -/

/-- The digest of the caller's filters is that of a hash function. -/
def bindKeysetFingerprint (digest : List String → String) (entity : Option String)
    (fingerprint : String) (filterIdentities : List String) : String :=
  let bound := match entity with
    | some entity => "entity-v1:" ++ entity ++ ":" ++ fingerprint
    | none => fingerprint
  if filterIdentities = [] then bound else bound ++ ":filter-v1:" ++ digest filterIdentities

/-! ### What the values of a row are -/

section Contract

variable {τ δ φ υ : Type} (parseUuid : String → Option υ) (db : Database τ δ φ υ)

/-- A value that stands for what the database holds in a column of a row. -/
structure Represents (row : τ) (column : String) (value : KeysetValue φ) : Prop where
  bindable : Bindable parseUuid value
  inRange : value.InRange
  same : cursorValue parseUuid db.interpret column value = db.column row column

def Matches (order : List KeysetOrderColumn) (row : τ) (values : List (KeysetValue φ)) : Prop :=
  List.Forall₂ (fun part value => Represents parseUuid db row part.column value) order values

variable {parseUuid db}

variable {values : List (KeysetValue φ)}

section

variable {row : τ} (own : Matches parseUuid db order row values)
include own

theorem Matches.represents {value : KeysetValue φ} (mem : value ∈ values) :
    ∃ part ∈ order, Represents parseUuid db row part.column value := by
  induction own with
  | nil => cases mem
  | cons here _ ih =>
    rcases List.mem_cons.mp mem with rfl | later
    · exact ⟨_, .head _, here⟩
    · obtain ⟨part, inside, represents⟩ := ih later
      exact ⟨part, List.mem_cons_of_mem _ inside, represents⟩

theorem Matches.positions (filled : order ≠ []) :
    Positions parseUuid order values := by
  refine ⟨own.length_eq, filled, fun value mem => ?_⟩
  obtain ⟨part, _, represents⟩ := own.represents mem
  exact represents.bindable

theorem Matches.inRange :
    ∀ value ∈ values, value.InRange := by
  intro value mem
  obtain ⟨part, _, represents⟩ := own.represents mem
  exact represents.inRange

theorem Matches.tuple :
    cursorTuple parseUuid db.interpret order values = rowTuple order (db.column row) := by
  induction own with
  | nil => rfl
  | cons here _ ih =>
    rw [cursorTuple, List.zipWith_cons_cons, here.same, rowTuple, List.map_cons]
    exact congrArg _ ih

end

end Contract

end GraphqlOrm.Query
