import GraphqlOrm.Router.Authorization

/-!
# Variables that go along with a subscription

Before a subscribe message is forwarded, the small scalars among its variables are copied into an
extension that only the gateway may write. The analysis of the operation reads them there.
-/
namespace GraphqlOrm.Router

/-! ### Objects -/

def asObject : JsonValue → Option (OrderedMap String JsonValue)
  | .object members =>
    some (members.foldl (fun map mem => map.insert mem.1 mem.2) .empty)
  | _ => none

def ofObject (map : OrderedMap String JsonValue) : JsonValue := .object map.entries

/-! ### Lengths of texts -/

def textLength (text : String) : Nat :=
  2 + (text.toList.map fun c => ((Text.jsonChar c).map Char.utf8Size).sum).sum

mutual

def encodedLength : JsonValue → Nat
  | .null => 4
  | .bool value => if value then 4 else 5
  | .number value => value.literal.utf8ByteSize
  | .text value => textLength value
  | .array elements => 2 + (elements.length - 1) + elementsLength elements
  | .object members => 2 + (members.length - 1) + membersLength members

def elementsLength : List JsonValue → Nat
  | [] => 0
  | value :: rest => encodedLength value + elementsLength rest

def membersLength : List (String × JsonValue) → Nat
  | [] => 0
  | (name, value) :: rest => textLength name + 1 + encodedLength value + membersLength rest

end

/-! ### The projection -/

def internalSubscriptionVariablesExtension : String := "graphqlOrmRouterVariables"

def maxAuthorizationVariableBytes : Nat := 4 * 1024

def maxAuthorizationVariableValueBytes : Nat := 1024

def isScalar : JsonValue → Bool
  | .null | .bool _ | .number _ | .text _ => true
  | .array _ | .object _ => false

/-- A variable that may be projected, with what it takes of the bound. -/
structure Candidate where
  name : String
  value : JsonValue
  encodedBytes : Nat

def candidates (supplied : OrderedMap String JsonValue) : List Candidate :=
  sortBy Candidate.name <| supplied.entries.filterMap fun entry =>
    if isScalar entry.2 ∧ encodedLength entry.2 ≤ maxAuthorizationVariableValueBytes then
      some ⟨entry.1, entry.2, entry.1.utf8ByteSize + encodedLength entry.2⟩
    else none

def takeFitting : Nat → List Candidate → List (String × JsonValue)
  | _, [] => []
  | projectedBytes, candidate :: rest =>
    if projectedBytes + candidate.encodedBytes > maxAuthorizationVariableBytes then []
    else
      (candidate.name, candidate.value) :: takeFitting (projectedBytes + candidate.encodedBytes) rest

/-- Takes the last variables away until the message fits, and then the extension itself. -/
def truncate (message : Option (List (String × JsonValue)) → JsonValue) (internalMaxBytes : Nat) :
    List (String × JsonValue) → JsonValue
  | [] =>
    if encodedLength (message (some [])) > internalMaxBytes then message none else message (some [])
  | last :: earlier =>
    if encodedLength (message (some (last :: earlier).reverse)) > internalMaxBytes then
      truncate message internalMaxBytes earlier
    else message (some (last :: earlier).reverse)

def objectMember (name : String) (map : OrderedMap String JsonValue) :
    Option (OrderedMap String JsonValue) :=
  (map.get? name).bind asObject

/-- The message with the extension in place of any that a client has put there. -/
def withExtension (message payload extensions : OrderedMap String JsonValue)
    (projected : Option (List (String × JsonValue))) : JsonValue :=
  let extensions := match projected with
    | some kept => extensions.insert internalSubscriptionVariablesExtension (.object kept)
    | none => extensions.erase internalSubscriptionVariablesExtension
  ofObject (message.insert "payload" (ofObject (payload.insert "extensions" (ofObject extensions))))

def injectOperationVariables (message : JsonValue) (internalMaxBytes : Nat) : JsonValue :=
  match asObject message with
  | none => message
  | some members =>
    match objectMember "payload" members with
    | none => message
    | some payload =>
      let supplied := (objectMember "variables" payload).getD .empty
      let projected := takeFitting 0 (candidates supplied)
      match (payload.get? "extensions").getD (.object []) |> asObject with
      | none => message
      | some extensions =>
        truncate (withExtension members payload extensions) internalMaxBytes projected.reverse

/-! ### What is read of a message -/

def payloadMember (name : String) (message : JsonValue) : Option (OrderedMap String JsonValue) :=
  ((asObject message).bind (objectMember "payload")).bind (objectMember name)

def suppliedVariables (message : JsonValue) : Variables := fun name =>
  (payloadMember "variables" message).bind fun map => map.get? name

def subscriptionVariables (message : JsonValue) : Variables := fun name =>
  ((payloadMember "extensions" message).bind
    (objectMember internalSubscriptionVariablesExtension)).bind fun map => map.get? name

end GraphqlOrm.Router
