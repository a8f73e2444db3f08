import Mathlib.Data.String.Basic

/-!
# Descriptors of root fields

What a subgraph advertises about its root fields: their arguments and what a caller has to be
granted. Scopes are templates that take arguments of the field.
-/
namespace GraphqlOrm.Protocol

inductive RootOperationType where
  | query | mutation | subscription
deriving DecidableEq

structure ArgumentDescriptor where
  name : String
  graphqlType : String
  required : Bool

def isGraphqlName : List Char → Bool
  | [] => false
  | first :: rest =>
    (first == '_' || first.isAlpha) && rest.all fun c => c == '_' || c.isAlphanum

/-! ### Scope templates -/

/-- The rest of a template, with what was read so far of the placeholder that is open. -/
def checkTemplate : Option (List Char) → List Char → Except String Unit
  | none, [] => .ok ()
  | none, '{' :: rest => checkTemplate (some []) rest
  | none, '}' :: _ => .error "scope template has an unmatched closing brace"
  | none, _ :: rest => checkTemplate none rest
  | some _, [] => .error "scope template has an unmatched opening brace"
  | some name, '}' :: rest =>
    if isGraphqlName name.reverse then checkTemplate none rest
    else .error "scope template placeholders must contain GraphQL argument names"
  | some name, c :: rest => checkTemplate (some (c :: name)) rest

def validateScopeTemplate (value : String) : Except String Unit :=
  if value = "" then .error "scope template must not be empty"
  else checkTemplate none value.toList

structure ScopeTemplate where
  text : String
  valid : validateScopeTemplate text = .ok ()

def referencedNames : Option (List Char) → List Char → List String
  | _, [] => []
  | none, '{' :: rest => referencedNames (some []) rest
  | none, _ :: rest => referencedNames none rest
  | some name, '}' :: rest => String.ofList name.reverse :: referencedNames none rest
  | some name, c :: rest => referencedNames (some (c :: name)) rest

def ScopeTemplate.referencedArguments (template : ScopeTemplate) : List String :=
  referencedNames none template.text.toList

/-! ### Operations -/

structure ScopeSet where
  scopes : List ScopeTemplate

inductive UnrepresentablePolicyCode where
  | dynamic | custom | unsupported

structure UnrepresentablePolicy where
  code : UnrepresentablePolicyCode
  detail : String

inductive AuthorizationRequirement where
  | isPublic
  | authenticated
  | allScopes (scopes : List ScopeTemplate)
  | anyScopes (alternatives : List ScopeSet)
  | subgraphOnly (policy : UnrepresentablePolicy)

structure OperationDescriptor where
  rootType : RootOperationType
  fieldName : String
  arguments : List ArgumentDescriptor
  authorization : AuthorizationRequirement

end GraphqlOrm.Protocol
