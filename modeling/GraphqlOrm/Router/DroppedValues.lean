import GraphqlOrm.Router.PreflightExact
import GraphqlOrm.Router.Projection

/-!
# Values dropped from the projection

A variable that is not projected is analysed with its default. The subscription then passes with the
supplied value as well unless this says otherwise than the default.
-/
namespace GraphqlOrm.Router

open Protocol

variable {φ : Type} {values : Values φ}

/-! ### Values that do as much as a default -/

/-- Whatever the default renders, the value renders too. -/
def Sustains (values : Values φ) (default value : JsonValue) : Prop :=
  ∀ descriptor text, canonicalJsonScalar values default descriptor = some text →
    canonicalJsonScalar values value descriptor = some text

theorem Sustains.refl (values : Values φ) (value : JsonValue) : Sustains values value value :=
  fun _ _ rendered => rendered

theorem canonicalJsonScalar_boolean (values : Values φ) (value : JsonValue) :
    canonicalJsonScalar values value ⟨"", "Boolean", true⟩ =
      value.asBool.map fun answer => toString answer := by
  unfold canonicalJsonScalar
  rw [if_neg (by decide), if_pos (by decide)]

theorem Sustains.condition {default value : JsonValue} (sustains : Sustains values default value)
    {answer : Bool} (decided : default.asBool = some answer) : value.asBool = some answer := by
  have rendered := sustains ⟨"", "Boolean", true⟩ (toString answer)
  rw [canonicalJsonScalar_boolean, canonicalJsonScalar_boolean, decided] at rendered
  obtain ⟨other, found, same⟩ := Option.map_eq_some_iff.mp (rendered rfl)
  rw [found]
  cases other <;> cases answer <;> first | rfl | exact absurd same (by decide)

def Upholds (values : Values φ) (known full : Variables) : Prop :=
  ∀ reference taken, known (variableName reference) = some taken →
    ∃ value, full (variableName reference) = some value ∧ Sustains values taken value

section Upholds

variable {known full : Variables} {operation : OperationDescriptor} {field : FieldSelection φ}

section

variable (upholds : Upholds values known full)
include upholds

theorem Upholds.argument {name text : String}
    (rendered : renderArgument values operation field known name = some text) :
    renderArgument values operation field full name = some text := by
  rw [renderArgument_eq] at rendered ⊢
  obtain ⟨descriptor, declared, rendered⟩ := Option.bind_eq_some_iff.mp rendered
  obtain ⟨value, given, rendered⟩ := Option.bind_eq_some_iff.mp rendered
  rw [declared, Option.bind_some, given, Option.bind_some]
  cases kind : value.isVariable with
  | true =>
    obtain ⟨reference, rfl⟩ := isVariable_iff.mp kind
    obtain ⟨taken, here, rendered⟩ := Option.bind_eq_some_iff.mp rendered
    obtain ⟨value, there, sustains⟩ := upholds reference taken here
    exact Option.bind_eq_some_iff.mpr ⟨value, there, sustains _ _ rendered⟩
  | false =>
    rw [canonicalScalar_literal kind descriptor full known]
    exact rendered

/-- A field that is included in the end was included before. -/
theorem Upholds.included (skipIf includeIf : Option String)
    (included : directiveInclusion skipIf includeIf full .complete = .included) :
    directiveInclusion skipIf includeIf known .complete = .included := by
  have after {condition : Option String} {answer : Bool}
      (decided : conditionValue known condition = some answer) :
      conditionValue full condition = some answer := by
    obtain ⟨name, rfl, answered⟩ := Option.bind_eq_some_iff.mp decided
    obtain ⟨taken, here, decides⟩ := Option.bind_eq_some_iff.mp answered
    obtain ⟨value, there, sustains⟩ := upholds name taken here
    exact (conditionValue_some there).trans (sustains.condition decides)
  obtain ⟨notSkipped, notLeft⟩ := directiveInclusion_complete.mp included
  apply directiveInclusion_complete.mpr
  exact ⟨fun skipped => notSkipped (after skipped), fun left => notLeft (after left)⟩

theorem Upholds.template {principal : AuthenticatedPrincipal} {matcher : ScopeMatcher} {template : ScopeTemplate}
    (granted : templateOutcome values operation field known principal matcher .complete template =
      .granted) :
    templateOutcome values operation field full principal matcher .complete template = .granted := by
  obtain ⟨required, rendered, passes⟩ := templateOutcome_granted.mp granted
  obtain ⟨text, here, rfl⟩ := Option.map_eq_some_iff.mp rendered
  apply templateOutcome_granted.mpr
  refine ⟨_, ?_, passes⟩
  unfold renderTemplate
  rw [renderText_mono (fun _ _ => upholds.argument) here, Option.map_some]

theorem Upholds.decision {principal : Option AuthenticatedPrincipal} {matcher : ScopeMatcher}
    (passes : (authorizeField values operation field known principal matcher .complete).denial =
      none) :
    (authorizeField values operation field full principal matcher .complete).denial = none :=
  denial_of_granted (fun _ _ granted => upholds.template granted ▸ nofun) passes

end

end Upholds

/-! ### Defaults of dropped variables -/

/-- No variable that is dropped has a default that says otherwise than its value. -/
def DroppedAgree (values : Values φ) (definitions : Option (List (VariableDefinition φ)))
    (message : JsonValue) (internalMaxBytes : Nat) : Prop :=
  ∀ reference default value, defaultOf values definitions (variableName reference) = some default →
    suppliedVariables message (variableName reference) = some value →
    ¬FitsProjection message internalMaxBytes (variableName reference) value →
    Sustains values default value

theorem upholds_effective {operation : OperationDefinition φ} {message : JsonValue}
    {internalMaxBytes : Nat}
    (agree : DroppedAgree values operation.variableDefinitions message internalMaxBytes) :
    Upholds values
      (effectiveVariables values operation
        (subscriptionVariables (injectOperationVariables message internalMaxBytes)))
      (effectiveVariables values operation (suppliedVariables message)) := by
  intro reference taken here
  rw [effectiveVariables_eq] at here ⊢
  cases projected : subscriptionVariables (injectOperationVariables message internalMaxBytes)
      (variableName reference) with
  | some value =>
    rw [projected, Option.some_or] at here
    obtain rfl := Option.some.inj here
    have fits := subscriptionVariables_eq.mp projected
    exact ⟨value, by rw [fits.supplied, Option.some_or], .refl values value⟩
  | none =>
    rw [projected, Option.none_or] at here
    cases supplied : suppliedVariables message (variableName reference) with
    | none => exact ⟨taken, by rw [Option.none_or, here], .refl values taken⟩
    | some value =>
      refine ⟨value, rfl, agree reference taken value here supplied fun fits => ?_⟩
      rw [subscriptionVariables_eq.mpr fits] at projected
      cases projected

/-! ### Subscriptions that tell a default from a value -/

def subscribing (definitions : Option (List (VariableDefinition φ))) (field : FieldSelection φ) :
    OperationDefinition φ :=
  { asking definitions field with operationKind := some .subscription }

/-- A catalog in which the argument of the subscription field is the scope that is asked for. -/
def scopedById (type : String) : AuthorizationCatalog := fun root name =>
  if root = .subscription ∧ name = "record" then
    some ⟨.subscription, "record", [⟨"id", type, true⟩], .allScopes [idTemplate]⟩
  else none

theorem scopedById_valid {type : String} (supported : scalarIsSupported ⟨"id", type, true⟩ = true) :
    (scopedById type).Valid := by
  intro root name operation described
  unfold scopedById at described
  split at described
  · obtain rfl := Option.some.inj described
    exact idTemplate_valid supported
  · cases described

/-- The subscription passes with the one scope that its variable renders. -/
theorem scopedById_passes {definitions : Option (List (VariableDefinition φ))}
    {reference type granted : String} {supplied : Variables} {value : JsonValue}
    (known : effectiveVariables values (subscribing definitions (byVariable reference)) supplied
      (variableName reference) = some value) :
    (scopedById type).authorizeOperation values (subscribing definitions (byVariable reference))
        supplied (some ⟨"caller", [granted], none⟩) (fun scope required => scope = required)
        .complete = [] ↔
      canonicalJsonScalar values value ⟨"id", type, true⟩ = some granted := by
  have rendered : renderTemplate values idTemplate
      ⟨.subscription, "record", [⟨"id", type, true⟩], .allScopes [idTemplate]⟩
      (byVariable reference) _ = canonicalJsonScalar values value ⟨"id", type, true⟩ :=
    renderTemplate_id known
  have included (known : Variables) : directiveInclusion none none known .complete = .included :=
    directiveInclusion_complete.mpr ⟨nofun, nofun⟩
  rw [authorizeOperation_field rfl (if_pos ⟨rfl, rfl⟩)]
  refine (forall_prop_of_true (included _)).trans ?_
  rw [scopes_denial rfl]
  unfold templateOutcome
  rw [rendered]
  cases canonicalJsonScalar values value ⟨"id", type, true⟩ with
  | none => simp
  | some text => by_cases same : granted = text <;> simp [same, eq_comm]

theorem droppedAgree_of_sound {definitions : Option (List (VariableDefinition φ))}
    {message : JsonValue} {internalMaxBytes : Nat}
    (sound : ∀ (catalog : AuthorizationCatalog), catalog.Valid →
      ∀ (operation : OperationDefinition φ), operation.operationKind = some .subscription →
        operation.variableDefinitions = definitions →
      ∀ (principal : Option AuthenticatedPrincipal) (matcher : ScopeMatcher),
        catalog.authorizeOperation values operation
            (subscriptionVariables (injectOperationVariables message internalMaxBytes)) principal
            matcher .complete = [] →
          catalog.authorizeOperation values operation (suppliedVariables message) principal matcher
            .complete = []) :
    DroppedAgree values definitions message internalMaxBytes := by
  intro reference default value defaulted supplied dropped descriptor text rendered
  have projected : subscriptionVariables (injectOperationVariables message internalMaxBytes)
      (variableName reference) = none := by
    rw [Option.eq_none_iff_forall_ne_some]
    intro other seen
    have fits := subscriptionVariables_eq.mp seen
    obtain rfl := Option.some.inj (supplied.symm.trans fits.supplied)
    exact dropped fits
  have before : effectiveVariables values (subscribing definitions (byVariable reference))
      (subscriptionVariables (injectOperationVariables message internalMaxBytes))
      (variableName reference) = some default := by
    rw [effectiveVariables_eq, projected, Option.none_or]
    exact defaulted
  have final : effectiveVariables values (subscribing definitions (byVariable reference))
      (suppliedVariables message) (variableName reference) = some value := by
    rw [effectiveVariables_eq, supplied, Option.some_or]
  have supported : scalarIsSupported ⟨"id", descriptor.graphqlType, true⟩ = true :=
    canonicalJsonScalar_supported rendered
  have passes := sound _ (scopedById_valid supported) (subscribing definitions (byVariable reference))
    rfl rfl (some ⟨"caller", [text], none⟩) fun scope required => scope = required
  rw [scopedById_passes before, scopedById_passes final] at passes
  exact passes rendered

/-- A subscription with values of variables that were dropped passes the analysis only if it passes
with all of them, exactly where the dropped variables agree with their defaults. -/
theorem dropped_values_iff (values : Values φ) (definitions : Option (List (VariableDefinition φ)))
    (message : JsonValue) (internalMaxBytes : Nat) :
    (∀ (catalog : AuthorizationCatalog), catalog.Valid →
      ∀ (operation : OperationDefinition φ), operation.operationKind = some .subscription →
        operation.variableDefinitions = definitions →
      ∀ (principal : Option AuthenticatedPrincipal) (matcher : ScopeMatcher),
        catalog.authorizeOperation values operation
            (subscriptionVariables (injectOperationVariables message internalMaxBytes)) principal
            matcher .complete = [] →
          catalog.authorizeOperation values operation (suppliedVariables message) principal matcher
            .complete = []) ↔
      DroppedAgree values definitions message internalMaxBytes := by
  refine ⟨droppedAgree_of_sound, ?_⟩
  rintro agree catalog _ operation _ rfl principal matcher passes
  have upholds := upholds_effective agree
  rw [authorizeOperation_eq_nil] at passes ⊢
  intro field mem descriptor described
  apply upholds.decision
  refine passes field ?_ descriptor described
  exact mem_collectIncludedRootFields upholds.included operation.selections mem

/-- `subscription ($id: ID! = "public") { record(id: $id) }` -/
def recordSubscription : OperationDefinition Unit :=
  subscribing (some [⟨"id", some (.string "public")⟩]) (byVariable "$id")

def messageWith (value : String) : JsonValue :=
  .object [("id", .text "1"), ("payload", .object [("variables", .object [("id", .text value)])]),
    ("type", .text "subscribe")]

def longMessage : JsonValue := messageWith (String.ofList (List.replicate 1025 'a'))

theorem messageWith_supplied (value : String) :
    suppliedVariables (messageWith value) "id" = some (.text value) := by
  simp [suppliedVariables, payloadMember, objectMember, asObject, messageWith,
    OrderedMap.get?_insert]

theorem textLength_replicate (n : Nat) : textLength (String.ofList (List.replicate n 'a')) = 2 + n := by
  have each : ((Text.jsonChar 'a').map Char.utf8Size).sum = 1 := by decide
  unfold textLength
  rw [String.toList_ofList, List.map_replicate, List.sum_replicate_nat, each, Nat.mul_one]

theorem longMessage_dropped (internalMaxBytes : Nat) :
    subscriptionVariables (injectOperationVariables longMessage internalMaxBytes) "id" = none := by
  rw [Option.eq_none_iff_forall_ne_some]
  intro value seen
  have fits := subscriptionVariables_eq.mp seen
  obtain rfl := Option.some.inj ((messageWith_supplied _).symm.trans fits.supplied)
  obtain ⟨_, _, _, _, _, _, _, _, fits⟩ := fits
  have small := fits.small
  unfold encodedLength maxAuthorizationVariableValueBytes at small
  rw [textLength_replicate] at small
  omega

/-- The long value is dropped, and the default passes in its place. -/
theorem dropped_value_passes :
    (scopedById "ID!").Valid ∧
      (scopedById "ID!").authorizeOperation textValues recordSubscription
        (subscriptionVariables (injectOperationVariables longMessage 65536))
        (some ⟨"caller", ["public"], none⟩) (fun scope required => scope = required)
        .complete = [] ∧
      (scopedById "ID!").authorizeOperation textValues recordSubscription
        (suppliedVariables longMessage) (some ⟨"caller", ["public"], none⟩)
        (fun scope required => scope = required) .complete ≠ [] := by
  have rendered (text : String) :
      canonicalJsonScalar textValues (.text text) ⟨"id", "ID!", true⟩ = some text := by
    unfold canonicalJsonScalar
    rw [if_pos (by decide)]
    rfl
  have before : effectiveVariables textValues recordSubscription
      (subscriptionVariables (injectOperationVariables longMessage 65536)) (variableName "$id") =
        some (.text "public") := by
    rw [show variableName "$id" = "id" by decide, effectiveVariables_eq, longMessage_dropped]
    rfl
  have final : effectiveVariables textValues recordSubscription (suppliedVariables longMessage)
      (variableName "$id") = some (.text (String.ofList (List.replicate 1025 'a'))) := by
    rw [show variableName "$id" = "id" by decide, effectiveVariables_eq,
      show suppliedVariables longMessage "id" = _ from messageWith_supplied _]
    rfl
  refine ⟨scopedById_valid (by decide), (scopedById_passes before).mpr (rendered _),
    fun passes => ?_⟩
  have same := Option.some.inj ((rendered _).symm.trans ((scopedById_passes final).mp passes))
  have lengths := congrArg String.length same
  rw [String.length_ofList, List.length_replicate] at lengths
  exact absurd lengths (by decide)

end GraphqlOrm.Router
