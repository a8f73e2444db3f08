import GraphqlOrm.Foundation.Json
import GraphqlOrm.Protocol.Descriptor
import GraphqlOrm.Router.Lifecycle

/-!
# Authorization of operations by the router

The root fields of an operation are checked against the requirements of the catalog, once before
planning, where values of variables may be missing, and once when they are complete.
-/
namespace GraphqlOrm.Router

open Protocol

abbrev JsonValue : Type := Json.Value String

/-- Values in the syntax of an operation. -/
inductive GraphqlValue (φ : Type) where
  | variable (name : String)
  | int (value : Int64)
  | float (value : φ)
  | string (value : String)
  | enum (value : String)
  | boolean (value : Bool)
  | null
  | list (values : List (GraphqlValue φ))
  | object (fields : List (String × GraphqlValue φ))

structure FieldSelection (φ : Type) where
  name : String
  arguments : Option (List (String × GraphqlValue φ))
  skipIf : Option String
  includeIf : Option String

inductive SelectionItem (φ : Type) where
  | field (field : FieldSelection φ)
  | inlineFragment (skipIf includeIf : Option String) (selections : List (SelectionItem φ))
  | fragmentSpread (name : String)

inductive OperationKind where
  | query | mutation | subscription

structure VariableDefinition (φ : Type) where
  name : String
  defaultValue : Option (GraphqlValue φ)

structure OperationDefinition (φ : Type) where
  operationKind : Option OperationKind
  selections : List (SelectionItem φ)
  variableDefinitions : Option (List (VariableDefinition φ))

/-- Floating point numbers, their texts, and the values that a default stands for. -/
structure Values (φ : Type) where
  asF64 : JsonValue → Option φ
  floatText : φ → String
  ofDefault : GraphqlValue φ → JsonValue

structure AuthenticatedPrincipal where
  subject : String
  scopes : List String
  expiresAt : Option Nat

abbrev ScopeMatcher : Type := String → String → Bool

abbrev AuthorizationCatalog : Type := RootOperationType → String → Option OperationDescriptor

abbrev Variables : Type := String → Option JsonValue

inductive VariableResolution where
  | preflight | complete
deriving DecidableEq

structure AuthorizationDenial where
  code : String
  message : String
deriving DecidableEq

inductive AuthorizationDecision where
  | allowed
  | deferred
  | denied (denial : AuthorizationDenial)

/-! ### Scalars -/

def scalarName (argument : ArgumentDescriptor) : String :=
  String.ofList (argument.graphqlType.toList.reverse.dropWhile (· = '!')).reverse

def scalarAcceptsString (argument : ArgumentDescriptor) : Bool :=
  scalarName argument ∈ ["String", "ID", "UUID", "Uuid"]

def scalarAcceptsId (argument : ArgumentDescriptor) : Bool := scalarName argument = "ID"

def scalarAcceptsBoolean (argument : ArgumentDescriptor) : Bool := scalarName argument = "Boolean"

def scalarAcceptsInteger (argument : ArgumentDescriptor) : Bool :=
  scalarName argument ∈ ["Int", "Int8", "Int16", "Int32", "Int64",
    "UInt", "UInt8", "UInt16", "UInt32", "UInt64"]

def scalarAcceptsFloat (argument : ArgumentDescriptor) : Bool :=
  scalarName argument ∈ ["Float", "Float32", "Float64"]

def canonicalJsonInteger (value : JsonValue) : Option String :=
  (value.asI64.map fun number => toString number).or (value.asU64.map fun number => toString number)

/-! ### The contract of a catalog -/

def AuthorizationRequirement.templates : AuthorizationRequirement → List ScopeTemplate
  | .allScopes scopes => scopes
  | .anyScopes alternatives => alternatives.flatMap ScopeSet.scopes
  | .isPublic | .authenticated | .subgraphOnly _ => []

def scalarIsSupported (argument : ArgumentDescriptor) : Bool :=
  scalarAcceptsString argument || scalarAcceptsBoolean argument ||
    scalarAcceptsInteger argument || scalarAcceptsFloat argument

def templateArgumentError (operation : OperationDescriptor) (name : String) : Option RouterError :=
  match operation.arguments.find? fun argument => argument.name = name with
  | none => some ⟨.authorizationMetadata, s!"scope template references unknown argument `{name}`"⟩
  | some argument =>
    if !argument.required || !scalarIsSupported argument then
      some ⟨.authorizationMetadata,
        s!"scope template argument `{name}` must be a required supported scalar"⟩
    else none

def validateTemplateArgumentContract (operation : OperationDescriptor) : Except RouterError Unit :=
  let names := (AuthorizationRequirement.templates operation.authorization).flatMap
    ScopeTemplate.referencedArguments
  match names.findSome? (templateArgumentError operation) with
  | some error => .error error
  | none => .ok ()

def AuthorizationCatalog.Valid (catalog : AuthorizationCatalog) : Prop :=
  ∀ root name operation, catalog root name = some operation →
    validateTemplateArgumentContract operation = .ok ()

/-! ### Rendering -/

section Rendering

variable {φ : Type} (values : Values φ)

def canonicalJsonScalar (value : JsonValue) (descriptor : ArgumentDescriptor) : Option String :=
  if scalarAcceptsString descriptor then
    value.asStr.or (if scalarAcceptsId descriptor then canonicalJsonInteger value else none)
  else if scalarAcceptsBoolean descriptor then value.asBool.map fun value => toString value
  else if scalarAcceptsInteger descriptor then canonicalJsonInteger value
  else if scalarAcceptsFloat descriptor then (values.asF64 value).map values.floatText
  else none

def variableName (reference : String) : String :=
  String.ofList (reference.toList.dropWhile (· = '$'))

def canonicalScalar (value : GraphqlValue φ) (descriptor : ArgumentDescriptor)
    (known : Variables) : Option String :=
  match value with
  | .variable name =>
    (known (variableName name)).bind fun value => canonicalJsonScalar values value descriptor
  | .string value | .enum value => if scalarAcceptsString descriptor then some value else none
  | .boolean value => if scalarAcceptsBoolean descriptor then some (toString value) else none
  | .int value =>
    if scalarAcceptsInteger descriptor || scalarAcceptsId descriptor then some (toString value)
    else none
  | .float value => if scalarAcceptsFloat descriptor then some (values.floatText value) else none
  | .null | .list _ | .object _ => none

def renderArgument (operation : OperationDescriptor) (field : FieldSelection φ)
    (known : Variables) (name : String) : Option String := do
  let descriptor ← operation.arguments.find? fun argument => argument.name = name
  let value ← (← field.arguments).lookup name
  canonicalScalar values value descriptor known

/-- The rest of a template, with what was read so far of the placeholder that is open. A closing
brace after the last placeholder is refused, one before it is text. -/
def renderText (argument : String → Option String) : Option (List Char) → List Char →
    Option (List Char)
  | none, [] => some []
  | none, '{' :: rest => renderText argument (some []) rest
  | none, '}' :: rest =>
    if '{' ∈ rest then (renderText argument none rest).map ('}' :: ·) else none
  | none, c :: rest => (renderText argument none rest).map (c :: ·)
  | some _, [] => none
  | some name, '}' :: rest => do
    let text ← argument (String.ofList name.reverse)
    let after ← renderText argument none rest
    some (text.toList ++ after)
  | some name, c :: rest => renderText argument (some (c :: name)) rest

def renderTemplate (template : ScopeTemplate) (operation : OperationDescriptor)
    (field : FieldSelection φ) (known : Variables) : Option String :=
  (renderText (renderArgument values operation field known) none template.text.toList).map
    String.ofList

end Rendering

/-! ### Decisions -/

section Decisions

variable {φ : Type} (values : Values φ)

def GraphqlValue.isVariable : GraphqlValue φ → Bool
  | .variable _ => true
  | _ => false

def templateReferencesVariable (template : ScopeTemplate) (field : FieldSelection φ) : Bool :=
  template.referencedArguments.any fun name =>
    (field.arguments.bind fun arguments => arguments.lookup name).any GraphqlValue.isVariable

/-- How one template of an alternative fares. -/
inductive TemplateOutcome where
  | granted | deferred | denied
deriving DecidableEq

def templateOutcome (operation : OperationDescriptor) (field : FieldSelection φ)
    (known : Variables) (principal : AuthenticatedPrincipal) (matcher : ScopeMatcher)
    (resolution : VariableResolution) (template : ScopeTemplate) : TemplateOutcome :=
  match renderTemplate values template operation field known with
  | some required =>
    if principal.scopes.any fun granted => matcher granted required then .granted else .denied
  | none =>
    if resolution = .preflight ∧ templateReferencesVariable template field then .deferred
    else .denied

/-- An alternative is denied with any of its templates, and deferred with any other. -/
def alternativeOutcome (outcomes : List TemplateOutcome) : TemplateOutcome :=
  if .denied ∈ outcomes then .denied
  else if .deferred ∈ outcomes then .deferred
  else .granted

def unauthenticated : AuthorizationDenial := ⟨"UNAUTHENTICATED", "authentication is required"⟩

def scopeMissing : AuthorizationDenial := ⟨"FORBIDDEN", "required scope is missing"⟩

def authorizeAlternatives (outcomes : List TemplateOutcome) : AuthorizationDecision :=
  if .granted ∈ outcomes then .allowed
  else if .deferred ∈ outcomes then .deferred
  else .denied scopeMissing

def authorizeScopes (operation : OperationDescriptor) (field : FieldSelection φ)
    (known : Variables) (principal : Option AuthenticatedPrincipal) (matcher : ScopeMatcher)
    (resolution : VariableResolution) (alternatives : List (List ScopeTemplate)) :
    AuthorizationDecision :=
  match principal with
  | none => .denied unauthenticated
  | some principal =>
    authorizeAlternatives <| alternatives.map fun alternative =>
      alternativeOutcome <| alternative.map
        (templateOutcome values operation field known principal matcher resolution)

def authorizeField (operation : OperationDescriptor) (field : FieldSelection φ)
    (known : Variables) (principal : Option AuthenticatedPrincipal) (matcher : ScopeMatcher)
    (resolution : VariableResolution) : AuthorizationDecision :=
  let scopes := authorizeScopes values operation field known principal matcher resolution
  match operation.authorization with
  | .isPublic | .subgraphOnly _ => .allowed
  | .authenticated => if principal.isSome then .allowed else .denied unauthenticated
  | .allScopes required => scopes [required]
  | .anyScopes alternatives => scopes (alternatives.map ScopeSet.scopes)

/-! ### Inclusion -/

inductive DirectiveInclusion where
  | included | excluded | deferred
deriving DecidableEq

def conditionValue (known : Variables) (condition : Option String) : Option Bool :=
  condition.bind fun name => (known (variableName name)).bind Json.Value.asBool

def directiveInclusion (skipIf includeIf : Option String) (known : Variables)
    (resolution : VariableResolution) : DirectiveInclusion :=
  if resolution = .preflight ∧ ([skipIf, includeIf].filterMap id).any fun name =>
      (known (variableName name)).isNone then
    .deferred
  else if (conditionValue known skipIf).getD false = false ∧
      (conditionValue known includeIf).getD true = true then
    .included
  else .excluded

mutual

def SelectionItem.includedRootFields (known : Variables) (resolution : VariableResolution) :
    SelectionItem φ → List (FieldSelection φ)
  | .field field =>
    if directiveInclusion field.skipIf field.includeIf known resolution = .included then [field]
    else []
  | .inlineFragment skipIf includeIf selections =>
    if directiveInclusion skipIf includeIf known resolution = .included then
      collectIncludedRootFields known resolution selections
    else []
  | .fragmentSpread _ => []

def collectIncludedRootFields (known : Variables) (resolution : VariableResolution) :
    List (SelectionItem φ) → List (FieldSelection φ)
  | [] => []
  | item :: rest =>
    item.includedRootFields known resolution ++
      collectIncludedRootFields known resolution rest

end

/-! ### Operations -/

/-- The supplied values, with the defaults of the variables for which none is supplied. -/
def effectiveVariables (operation : OperationDefinition φ) (supplied : Variables) : Variables :=
  (operation.variableDefinitions.getD []).foldl
    (fun known definition =>
      match definition.defaultValue with
      | none => known
      | some default => fun name =>
        if name = definition.name then (known name).or (some (values.ofDefault default))
        else known name)
    supplied

def rootOperationType : Option OperationKind → RootOperationType
  | none | some .query => .query
  | some .mutation => .mutation
  | some .subscription => .subscription

def AuthorizationDecision.denial : AuthorizationDecision → Option AuthorizationDenial
  | allowed | deferred => none
  | denied denial => some denial

def AuthorizationCatalog.authorizeOperation (catalog : AuthorizationCatalog)
    (operation : OperationDefinition φ) (supplied : Variables)
    (principal : Option AuthenticatedPrincipal) (matcher : ScopeMatcher)
    (resolution : VariableResolution) : List AuthorizationDenial :=
  let effective := effectiveVariables values operation supplied
  (collectIncludedRootFields effective resolution operation.selections).filterMap fun field => do
    let descriptor ← catalog (rootOperationType operation.operationKind) field.name
    (authorizeField values descriptor field effective principal matcher resolution).denial

end Decisions

end GraphqlOrm.Router
