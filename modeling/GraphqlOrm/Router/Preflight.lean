import GraphqlOrm.Router.AuthorizationModes

/-!
# The check before planning and the final one

Before planning, the values of variables may be missing, and a default stands in for each of them
that has one. The check then agrees with the final one unless a supplied value says otherwise than the
default that it overrides.
-/
namespace GraphqlOrm.Router

open Protocol

variable {φ : Type} {values : Values φ}

/-! ### Defaults and supplied values -/

/-- The default never has another text than the value, and decides conditions as the value does. -/
structure Compatible (values : Values φ) (default value : JsonValue) : Prop where
  texts : ∀ descriptor text text', canonicalJsonScalar values default descriptor = some text →
    canonicalJsonScalar values value descriptor = some text' → text = text'
  conditions : ∀ answer, value.asBool = some answer → default.asBool = some answer

theorem Compatible.refl (values : Values φ) (value : JsonValue) : Compatible values value value where
  texts _ _ _ left right := Option.some.inj (left.symm.trans right)
  conditions _ known := known

/-- Every variable that is taken to be known has in the end a value that is compatible with it. -/
def Foresees (values : Values φ) (known full : Variables) : Prop :=
  ∀ reference taken, known (variableName reference) = some taken →
    ∃ value, full (variableName reference) = some value ∧ Compatible values taken value

variable {matcher : ScopeMatcher}

section Foresees

variable {known full : Variables} {operation : OperationDescriptor} {field : FieldSelection φ}

theorem Foresees.argument (foresees : Foresees values known full) {name text text' : String}
    (left : renderArgument values operation field known name = some text)
    (right : renderArgument values operation field full name = some text') : text = text' := by
  rw [renderArgument_eq] at left right
  obtain ⟨descriptor, declared, left⟩ := Option.bind_eq_some_iff.mp left
  obtain ⟨value, given, left⟩ := Option.bind_eq_some_iff.mp left
  rw [declared, Option.bind_some, given, Option.bind_some] at right
  cases kind : value.isVariable with
  | true =>
    obtain ⟨reference, rfl⟩ := isVariable_iff.mp kind
    obtain ⟨taken, here, left⟩ := Option.bind_eq_some_iff.mp left
    obtain ⟨value, there, compatible⟩ := foresees reference taken here
    obtain ⟨_, found, right⟩ := Option.bind_eq_some_iff.mp right
    obtain rfl := Option.some.inj (there.symm.trans found)
    exact compatible.texts _ _ _ left right
  | false =>
    rw [canonicalScalar_literal kind descriptor known full] at left
    exact Option.some.inj (left.symm.trans right)

/-- An argument that only the final check renders is a variable. -/
theorem argument_isVariable {name : String}
    (unknown : renderArgument values operation field known name = none)
    (rendered : (renderArgument values operation field full name).isSome = true) :
    (field.arguments.bind fun arguments => arguments.lookup name).any GraphqlValue.isVariable =
      true := by
  rw [renderArgument_eq] at unknown rendered
  cases declared : operation.arguments.find? fun argument => argument.name = name with
  | none =>
    rw [declared] at rendered
    cases rendered
  | some descriptor =>
    rw [declared, Option.bind_some] at unknown rendered
    cases given : field.arguments.bind fun arguments => arguments.lookup name with
    | none =>
      rw [given] at rendered
      cases rendered
    | some value =>
      rw [given, Option.bind_some] at unknown rendered
      cases kind : value.isVariable with
      | true => exact kind
      | false =>
        rw [canonicalScalar_literal kind descriptor known full] at unknown
        rw [unknown] at rendered
        cases rendered

theorem Foresees.included (foresees : Foresees values known full) (skipIf includeIf : Option String)
    (included : directiveInclusion skipIf includeIf known .preflight = .included) :
    directiveInclusion skipIf includeIf full .complete = .included := by
  obtain ⟨each, decided⟩ := directiveInclusion_preflight.mp included
  obtain ⟨notSkipped, notLeft⟩ := directiveInclusion_complete.mp decided
  -- A condition that holds in the end was decided in the same way before.
  have before {condition : Option String} {answer : Bool}
      (used : skipIf = condition ∨ includeIf = condition)
      (final : conditionValue full condition = some answer) :
      conditionValue known condition = some answer := by
    obtain ⟨name, rfl, decided⟩ := Option.bind_eq_some_iff.mp final
    obtain ⟨value, found, decides⟩ := Option.bind_eq_some_iff.mp decided
    obtain ⟨taken, here⟩ := each name used
    obtain ⟨value', found', compatible⟩ := foresees name taken here
    obtain rfl := Option.some.inj (found'.symm.trans found)
    show (known (variableName name)).bind Json.Value.asBool = some answer
    rw [here]
    exact compatible.conditions answer decides
  refine directiveInclusion_complete.mpr ⟨fun skipped => ?_, fun left => ?_⟩
  · exact notSkipped (before (.inl rfl) skipped)
  · exact notLeft (before (.inr rfl) left)

theorem Foresees.template (foresees : Foresees values known full)
    {principal : AuthenticatedPrincipal} {template : ScopeTemplate}
    (granted : templateOutcome values operation field full principal matcher .complete template =
      .granted) :
    templateOutcome values operation field known principal matcher .preflight template ≠
      .denied := by
  obtain ⟨required, rendered, passes⟩ := templateOutcome_granted.mp granted
  obtain ⟨text, final, rfl⟩ := Option.map_eq_some_iff.mp rendered
  cases taken : renderText (renderArgument values operation field known) none
      template.text.toList with
  | some before =>
    have same := renderText_agree (fun _ _ _ => foresees.argument) taken final
    have here : templateOutcome values operation field known principal matcher .preflight template =
        .granted :=
      templateOutcome_granted.mpr ⟨_, congrArg (Option.map String.ofList) taken, by rw [same]; exact passes⟩
    rw [here]
    nofun
  | none =>
    obtain ⟨name, mem, unknown, known⟩ := renderText_missing taken final
    have variableGiven : templateReferencesVariable template field = true :=
      List.any_eq_true.mpr ⟨name, mem, argument_isVariable unknown known⟩
    unfold templateOutcome renderTemplate
    rw [taken]
    show (if _ then _ else _) ≠ TemplateOutcome.denied
    rw [if_pos ⟨rfl, variableGiven⟩]
    nofun

/-- What the final check lets pass is not refused before. -/
theorem Foresees.decision (foresees : Foresees values known full)
    {principal : Option AuthenticatedPrincipal}
    (passes : (authorizeField values operation field full principal matcher .complete).denial =
      none) :
    (authorizeField values operation field known principal matcher .preflight).denial = none :=
  denial_of_granted (fun _ _ => foresees.template) passes

end Foresees

/-- No supplied value says otherwise than a default that stood in for it. -/
def DefaultsAgree (values : Values φ) (definitions : Option (List (VariableDefinition φ)))
    (known full : Variables) : Prop :=
  ∀ reference default value, defaultOf values definitions (variableName reference) = some default →
    known (variableName reference) = none → full (variableName reference) = some value →
    Compatible values default value

theorem foresees_effective {operation : OperationDefinition φ} {known full : Variables}
    (sub : ∀ name value, known name = some value → full name = some value)
    (agree : DefaultsAgree values operation.variableDefinitions known full) :
    Foresees values (effectiveVariables values operation known)
      (effectiveVariables values operation full) := by
  intro reference taken here
  rw [effectiveVariables_eq] at here ⊢
  cases supplied : known (variableName reference) with
  | some value =>
    rw [supplied, Option.some_or] at here
    obtain rfl := Option.some.inj here
    exact ⟨value, by rw [sub _ _ supplied, Option.some_or], .refl values value⟩
  | none =>
    rw [supplied, Option.none_or] at here
    cases final : full (variableName reference) with
    | none => exact ⟨taken, by rw [Option.none_or, here], .refl values taken⟩
    | some value => exact ⟨value, rfl, agree reference taken value here supplied final⟩

/-- The check before planning refuses nothing that the final one lets pass. -/
theorem preflight_sound {catalog : AuthorizationCatalog} {operation : OperationDefinition φ}
    {known full : Variables} {principal : Option AuthenticatedPrincipal}
    (sub : ∀ name value, known name = some value → full name = some value)
    (agree : DefaultsAgree values operation.variableDefinitions known full)
    (passes : catalog.authorizeOperation values operation full principal matcher .complete = []) :
    catalog.authorizeOperation values operation known principal matcher .preflight = [] := by
  have foresees := foresees_effective sub agree
  rw [authorizeOperation_eq_nil] at passes ⊢
  intro field mem descriptor described
  refine foresees.decision (passes field ?_ descriptor described)
  exact mem_collectIncludedRootFields foresees.included operation.selections mem

end GraphqlOrm.Router
