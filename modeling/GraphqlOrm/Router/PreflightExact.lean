import GraphqlOrm.Router.Preflight

/-!
# When the two checks agree

The agreement of the two checks is exact: a default that says otherwise than the value that overrides
it is told apart by some operation, and a scope that does not render is denied in the end but not
before planning.
-/
namespace GraphqlOrm.Router

open Protocol

variable {φ : Type} {values : Values φ}

/-! ### Operations of one field -/

def single (name : String) (arguments : List ArgumentDescriptor)
    (requirement : AuthorizationRequirement) : AuthorizationCatalog := fun root other =>
  if root = .query ∧ other = name then some ⟨.query, name, arguments, requirement⟩ else none

def asking (definitions : Option (List (VariableDefinition φ))) (field : FieldSelection φ) :
    OperationDefinition φ where
  operationKind := none
  selections := [.field field]
  variableDefinitions := definitions

variable {name : String} {requirement : AuthorizationRequirement}

theorem single_valid {arguments : List ArgumentDescriptor}
    (valid : validateTemplateArgumentContract ⟨.query, name, arguments, requirement⟩ = .ok ()) :
    AuthorizationCatalog.Valid (single name arguments requirement) := by
  intro root other operation described
  unfold single at described
  split at described
  · rw [← Option.some.inj described]
    exact valid
  · cases described

variable {operation : OperationDefinition φ} {field : FieldSelection φ} {supplied : Variables}
  {principal : Option AuthenticatedPrincipal} {matcher : ScopeMatcher}
  {resolution : VariableResolution}

/-- An operation of one field passes when the field is left out or allowed. -/
theorem authorizeOperation_field {catalog : AuthorizationCatalog}
    (only : operation.selections = [.field field]) {descriptor : OperationDescriptor}
    (described : catalog (rootOperationType operation.operationKind) field.name = some descriptor) :
    catalog.authorizeOperation values operation supplied principal matcher resolution = [] ↔
      (directiveInclusion field.skipIf field.includeIf
          (effectiveVariables values operation supplied) resolution = .included →
        (authorizeField values descriptor field (effectiveVariables values operation supplied)
          principal matcher resolution).denial = none) := by
  rw [authorizeOperation_eq_nil, only]
  simp only [collectIncludedRootFields, SelectionItem.includedRootFields, List.append_nil]
  split
  next included =>
    constructor
    · intro each _
      exact each field (.head _) _ described
    · intro passes other mem descriptor' described'
      rw [List.mem_singleton.mp mem] at described' ⊢
      obtain rfl := Option.some.inj (described.symm.trans described')
      exact passes included
  next excluded =>
    exact ⟨fun _ included => absurd included excluded, fun _ _ mem => absurd mem List.not_mem_nil⟩

theorem single_eq_nil {arguments : List ArgumentDescriptor}
    {definitions : Option (List (VariableDefinition φ))} (called : field.name = name) :
    (single name arguments requirement).authorizeOperation values (asking definitions field)
        supplied principal matcher resolution = [] ↔
      (directiveInclusion field.skipIf field.includeIf
          (effectiveVariables values (asking definitions field) supplied) resolution = .included →
        (authorizeField values ⟨.query, name, arguments, requirement⟩ field
          (effectiveVariables values (asking definitions field) supplied) principal matcher
          resolution).denial = none) := by
  subst called
  exact authorizeOperation_field rfl (if_pos ⟨rfl, rfl⟩)

/-! ### Defaults that say otherwise -/

theorem canonicalJsonScalar_supported {value : JsonValue} {descriptor : ArgumentDescriptor}
    {text : String} (rendered : canonicalJsonScalar values value descriptor = some text) :
    scalarIsSupported descriptor = true := by
  unfold canonicalJsonScalar at rendered
  unfold scalarIsSupported
  split at rendered
  next accepts => rw [accepts]; rfl
  · split at rendered
    next accepts => rw [accepts, Bool.or_true]; rfl
    · split at rendered
      next accepts => rw [accepts, Bool.or_true]; rfl
      · split at rendered
        next accepts => rw [accepts, Bool.or_true]
        · cases rendered

def byVariable (reference : String) : FieldSelection φ :=
  ⟨"record", some [("id", .variable reference)], none, none⟩

def idTemplate : ScopeTemplate :=
  ofPlaceholders ["id"] (List.cons_ne_nil _ _) (by decide)

theorem renderTemplate_id {type reference : String} {known : Variables} {value : JsonValue}
    (found : known (variableName reference) = some value) :
    renderTemplate values idTemplate ⟨.query, "record", [⟨"id", type, true⟩], .allScopes [idTemplate]⟩
        (byVariable reference) known =
      canonicalJsonScalar values value ⟨"id", type, true⟩ := by
  unfold renderTemplate idTemplate ofPlaceholders
  simp only [String.toList_ofList]
  rw [renderText_placeholders_cons (by decide)]
  have given : renderArgument values
      ⟨.query, "record", [⟨"id", type, true⟩], .allScopes [idTemplate]⟩ (byVariable reference) known
        "id" = canonicalJsonScalar values value ⟨"id", type, true⟩ := by
    rw [renderArgument_eq]
    show (known (variableName reference)).bind _ = _
    rw [found]
    rfl
  unfold idTemplate ofPlaceholders at given
  rw [given]
  cases canonicalJsonScalar values value ⟨"id", type, true⟩ with
  | none => rfl
  | some text => simp [placeholders, renderText]

theorem idTemplate_valid {type : String}
    (supported : scalarIsSupported ⟨"id", type, true⟩ = true) :
    validateTemplateArgumentContract
      ⟨.query, "record", [⟨"id", type, true⟩], .allScopes [idTemplate]⟩ = .ok () := by
  have names : idTemplate.referencedArguments = ["id"] := by
    unfold ScopeTemplate.referencedArguments idTemplate ofPlaceholders
    rw [String.toList_ofList]
    exact referencedNames_placeholders (by decide)
  unfold validateTemplateArgumentContract
  simp only [AuthorizationRequirement.templates, List.flatMap_cons, List.flatMap_nil, names,
    List.append_nil, List.findSome?_cons, List.findSome?_nil]
  have found : templateArgumentError
      ⟨.query, "record", [⟨"id", type, true⟩], .allScopes [idTemplate]⟩ "id" = none := by
    unfold templateArgumentError
    simp [supported]
  rw [found]

theorem scopes_denial {operation : OperationDescriptor} {known : Variables}
    {caller : AuthenticatedPrincipal} {template : ScopeTemplate}
    (required : operation.authorization = .allScopes [template]) :
    (authorizeField values operation field known (some caller) matcher resolution).denial = none ↔
      templateOutcome values operation field known caller matcher resolution template ≠ .denied := by
  rw [authorizeField_denial, required]
  simp [requiredAlternatives, alternativeOutcome_denied]

/-- Operations tell the default from the value where these are not compatible. -/
theorem defaultsAgree_of_sound {definitions : Option (List (VariableDefinition φ))}
    {known full : Variables}
    (sound : ∀ (catalog : AuthorizationCatalog), catalog.Valid →
      ∀ (operation : OperationDefinition φ), operation.variableDefinitions = definitions →
      ∀ (principal : Option AuthenticatedPrincipal) (matcher : ScopeMatcher),
        catalog.authorizeOperation values operation full principal matcher .complete = [] →
        catalog.authorizeOperation values operation known principal matcher .preflight = []) :
    DefaultsAgree values definitions known full := by
  intro reference default value defaulted unknown supplied
  have before (field : FieldSelection φ) :
      effectiveVariables values (asking definitions field) known (variableName reference) =
        some default := by
    rw [effectiveVariables_eq, unknown, Option.none_or]
    exact defaulted
  have final (field : FieldSelection φ) :
      effectiveVariables values (asking definitions field) full (variableName reference) =
        some value := by
    rw [effectiveVariables_eq, supplied, Option.some_or]
  refine ⟨fun descriptor text text' left right => ?_, fun answer final' => ?_⟩
  · -- The scope that the supplied value renders is granted, and no other.
    have supported : scalarIsSupported ⟨"id", descriptor.graphqlType, true⟩ = true :=
      canonicalJsonScalar_supported left
    have passes := sound _ (single_valid (idTemplate_valid supported))
      (asking definitions (byVariable reference)) rfl (some ⟨"caller", ["granted"], none⟩)
      (fun _ required => required = text')
    have called : (byVariable reference : FieldSelection φ).name = "record" := rfl
    rw [single_eq_nil called, single_eq_nil called] at passes
    have allowed := passes (fun _ => ?_) ?_
    · rw [scopes_denial rfl] at allowed
      by_contra different
      refine allowed ?_
      unfold templateOutcome
      rw [show renderTemplate _ _ _ _ _ = some text from (renderTemplate_id (before _)).trans left]
      show (if _ then _ else _) = TemplateOutcome.denied
      rw [if_neg]
      simpa using different
    · rw [scopes_denial rfl]
      unfold templateOutcome
      rw [show renderTemplate _ _ _ _ _ = some text' from (renderTemplate_id (final _)).trans right]
      show (if _ then _ else _) ≠ TemplateOutcome.denied
      rw [if_pos]
      · nofun
      · simp
    · refine directiveInclusion_preflight.mpr ⟨?_, directiveInclusion_complete.mpr ⟨nofun, nofun⟩⟩
      rintro _ (used | used) <;> cases used
  · -- A field that is left out in the end only is not allowed to anybody.
    by_contra different
    let field : FieldSelection φ :=
      ⟨"record", none, if answer then some reference else none,
        if answer then none else some reference⟩
    have passes := sound (single "record" [] .authenticated) (single_valid rfl)
      (asking definitions field) rfl none (fun _ _ => true)
    have called : field.name = "record" := rfl
    rw [single_eq_nil called, single_eq_nil called] at passes
    have decided := (conditionValue_some (final field)).trans final'
    have undecided := fun same => different ((conditionValue_some (before field)).symm.trans same)
    have refused := passes (fun included => ?_) ?_
    · cases refused
    · exfalso
      obtain ⟨notSkipped, notLeft⟩ := directiveInclusion_complete.mp included
      cases answer with
      | true => exact notSkipped decided
      | false => exact notLeft decided
    · refine directiveInclusion_preflight.mpr ⟨fun name used => ?_,
        directiveInclusion_complete.mpr ⟨?_, ?_⟩⟩
      · have own : reference = name := by
          cases answer <;> rcases used with used | used <;> cases used <;> rfl
        exact ⟨default, own ▸ before field⟩
      · cases answer with
        | true => exact undecided
        | false => nofun
      · cases answer with
        | true => nofun
        | false => exact undecided

/-! ### Variables that an operation uses -/

mutual

def GraphqlValue.references : GraphqlValue φ → List String
  | .variable name => [name]
  | .list elements => elementReferences elements
  | .object fields => fieldReferences fields
  | .int _ | .float _ | .string _ | .enum _ | .boolean _ | .null => []

def elementReferences : List (GraphqlValue φ) → List String
  | [] => []
  | value :: rest => value.references ++ elementReferences rest

def fieldReferences : List (String × GraphqlValue φ) → List String
  | [] => []
  | (_, value) :: rest => value.references ++ fieldReferences rest

end

def conditionReferences (skipIf includeIf : Option String) : List String :=
  [skipIf, includeIf].filterMap id

mutual

def SelectionItem.references : SelectionItem φ → List String
  | .field field =>
    conditionReferences field.skipIf field.includeIf ++
      fieldReferences (field.arguments.getD [])
  | .inlineFragment skipIf includeIf selections =>
    conditionReferences skipIf includeIf ++ selectionReferences selections
  | .fragmentSpread _ => []

def selectionReferences : List (SelectionItem φ) → List String
  | [] => []
  | item :: rest => item.references ++ selectionReferences rest

end

section SameVariables

variable {known : Variables}

/-- A condition whose variables are known is decided alike by both checks. -/
theorem directiveInclusion_known {skipIf includeIf : Option String}
    (used : ∀ reference ∈ conditionReferences skipIf includeIf,
      (known (variableName reference)).isSome = true) :
    directiveInclusion skipIf includeIf known .preflight =
      directiveInclusion skipIf includeIf known .complete := by
  unfold directiveInclusion
  simp only [reduceCtorEq, false_and, if_false, true_and]
  rw [if_neg]
  intro missing
  obtain ⟨name, mem, unknown⟩ := List.any_eq_true.mp missing
  have found := used name mem
  rw [Option.isNone_iff_eq_none.mp unknown] at found
  cases found

mutual

theorem includedRootFields_known : (item : SelectionItem φ) →
    (∀ reference ∈ item.references, (known (variableName reference)).isSome = true) →
    item.includedRootFields known .preflight = item.includedRootFields known .complete
  | .field field, used => by
    unfold SelectionItem.includedRootFields
    rw [directiveInclusion_known]
    intro reference mem
    unfold SelectionItem.references at used
    exact used reference (List.mem_append_left _ mem)
  | .inlineFragment skipIf includeIf selections, used => by
    unfold SelectionItem.includedRootFields
    unfold SelectionItem.references at used
    rw [directiveInclusion_known fun reference mem =>
        used reference (List.mem_append_left _ mem),
      collectIncludedRootFields_known selections fun reference mem =>
        used reference (List.mem_append_right _ mem)]
  | .fragmentSpread name, _ => by
    unfold SelectionItem.includedRootFields
    rfl

theorem collectIncludedRootFields_known : (items : List (SelectionItem φ)) →
    (∀ reference ∈ selectionReferences items, (known (variableName reference)).isSome = true) →
    collectIncludedRootFields known .preflight items =
      collectIncludedRootFields known .complete items
  | [], _ => by
    unfold collectIncludedRootFields
    rfl
  | item :: rest, used => by
    unfold collectIncludedRootFields
    unfold selectionReferences at used
    rw [includedRootFields_known item fun reference mem =>
        used reference (List.mem_append_left _ mem),
      collectIncludedRootFields_known rest fun reference mem =>
        used reference (List.mem_append_right _ mem)]

end

end SameVariables

/-! ### Scopes that do not render -/

def Templatable (descriptor : OperationDescriptor) (name : String) : Prop :=
  isGraphqlName name.toList = true ∧ templateArgumentError descriptor name = none

/-- An operation with one argument has no other name for its scopes to take. -/
theorem Templatable.eq_of_single {root : RootOperationType} {operation : String}
    {argument : ArgumentDescriptor}
    (takes : Templatable ⟨root, operation, [argument], requirement⟩ name) :
    name = argument.name := by
  obtain ⟨_, found⟩ := takes
  by_contra other
  have absent : [argument].find? (fun each => each.name = name) = none := by
    simpa using fun same => other same.symm
  rw [templateArgumentError, absent] at found
  cases found

def givenByVariable (field : FieldSelection φ) (name : String) : Bool :=
  (field.arguments.bind fun arguments => arguments.lookup name).any GraphqlValue.isVariable

/-- An included field with a variable among the arguments that scopes may take renders all of
these. -/
def ScopesRender (values : Values φ) (catalog : AuthorizationCatalog)
    (operation : OperationDefinition φ) (known : Variables) : Prop :=
  ∀ field ∈ collectIncludedRootFields known .complete operation.selections,
    ∀ descriptor, catalog (rootOperationType operation.operationKind) field.name =
        some descriptor →
      ∀ given, Templatable descriptor given → givenByVariable field given = true →
        ∀ name, Templatable descriptor name →
          (renderArgument values descriptor field known name).isSome = true

def AuthorizationCatalog.requiring (catalog : AuthorizationCatalog)
    (requirement : RootOperationType → String → AuthorizationRequirement) :
    AuthorizationCatalog := fun root name =>
  (catalog root name).map fun operation =>
    { operation with authorization := requirement root name }

theorem checkTemplate_names {opened : Option (List Char)} {text : List Char}
    (valid : checkTemplate opened text = .ok ()) :
    ∀ name ∈ referencedNames opened text, isGraphqlName name.toList = true := by
  induction opened, text using checkTemplate.induct with
  | case1 => exact fun name mem => absurd mem List.not_mem_nil
  | case2 rest ih => exact ih valid
  | case3 rest | case5 => cases valid
  | case4 c rest notOpening notClosing ih =>
    rw [checkTemplate] at valid
    · rw [referencedNames_plain notOpening]
      exact ih valid
    · exact notOpening
    · exact notClosing
  | case6 name rest named ih =>
    rw [checkTemplate, if_pos named] at valid
    rw [referencedNames]
    rintro other (_ | ⟨_, later⟩)
    · rw [String.toList_ofList]
      exact named
    · exact ih valid other later
  | case7 name rest unnamed =>
    rw [checkTemplate, if_neg unnamed] at valid
    cases valid
  | case8 name c rest notClosing ih =>
    rw [checkTemplate] at valid
    · rw [referencedNames]
      · exact ih valid
      · exact notClosing
    · exact notClosing

theorem template_checked (template : ScopeTemplate) :
    checkTemplate none template.text.toList = .ok () := by
  have valid := template.valid
  unfold validateScopeTemplate at valid
  split at valid
  · cases valid
  · exact valid

/-- The arguments that the templates of a checked operation take. -/
theorem templatable_of_valid {operation : OperationDescriptor}
    (valid : validateTemplateArgumentContract operation = .ok ()) {template : ScopeTemplate}
    (listed : template ∈ AuthorizationRequirement.templates operation.authorization)
    (mem : name ∈ template.referencedArguments) : Templatable operation name := by
  refine ⟨checkTemplate_names (template_checked template) name mem, ?_⟩
  unfold validateTemplateArgumentContract at valid
  simp only at valid
  split at valid
  · cases valid
  next none =>
    exact List.findSome?_eq_none_iff.mp none name (List.mem_flatMap.mpr ⟨template, listed, mem⟩)

theorem authorizeField_congr {operation : OperationDescriptor} {known : Variables}
    {first second : VariableResolution}
    (same : ∀ caller, ∀ template ∈ AuthorizationRequirement.templates operation.authorization,
      templateOutcome values operation field known caller matcher first template =
        templateOutcome values operation field known caller matcher second template) :
    authorizeField values operation field known principal matcher first =
      authorizeField values operation field known principal matcher second := by
  have scopes (alternatives : List (List ScopeTemplate))
      (listed : ∀ alternative ∈ alternatives, ∀ template ∈ alternative,
        template ∈ AuthorizationRequirement.templates operation.authorization) :
      authorizeScopes values operation field known principal matcher first alternatives =
        authorizeScopes values operation field known principal matcher second alternatives := by
    unfold authorizeScopes
    cases principal with
    | none => rfl
    | some caller =>
      refine congrArg authorizeAlternatives (List.map_congr_left fun alternative here => ?_)
      refine congrArg alternativeOutcome (List.map_congr_left fun template mem => ?_)
      exact same caller template (listed alternative here template mem)
  unfold authorizeField
  cases required : operation.authorization with
  | allScopes list =>
    rw [required] at scopes
    exact scopes [list] fun alternative here template mem => by
      rw [List.mem_singleton.mp here] at mem
      exact mem
  | anyScopes alternatives =>
    rw [required] at scopes
    refine scopes _ fun alternative here template mem => ?_
    have listed : alternative ∈ requiredAlternatives (.anyScopes alternatives) := here
    exact mem_templates listed mem
  | isPublic | authenticated | subgraphOnly policy => rfl

theorem effectiveVariables_isSome (known : (supplied name).isSome = true) :
    (effectiveVariables values operation supplied name).isSome = true := by
  obtain ⟨value, found⟩ := Option.isSome_iff_exists.mp known
  rw [effectiveVariables_eq, found]
  rfl

/-- With all variables known and the scopes rendering, both checks are the same. -/
theorem modes_agree {catalog : AuthorizationCatalog} (valid : catalog.Valid)
    (used : ∀ reference ∈ selectionReferences operation.selections,
      (supplied (variableName reference)).isSome = true)
    (render : ScopesRender values catalog operation (effectiveVariables values operation supplied))
    (principal : Option AuthenticatedPrincipal) (matcher : ScopeMatcher) :
    catalog.authorizeOperation values operation supplied principal matcher .preflight =
      catalog.authorizeOperation values operation supplied principal matcher .complete := by
  have known : ∀ reference ∈ selectionReferences operation.selections,
      (effectiveVariables values operation supplied (variableName reference)).isSome = true :=
    fun reference mem => effectiveVariables_isSome (used reference mem)
  unfold AuthorizationCatalog.authorizeOperation
  simp only
  rw [collectIncludedRootFields_known _ known]
  refine List.filterMap_congr fun field mem => ?_
  cases described : catalog (rootOperationType operation.operationKind) field.name with
  | none => rfl
  | some descriptor =>
    refine congrArg AuthorizationDecision.denial (authorizeField_congr fun caller template listed => ?_)
    unfold templateOutcome
    split
    · rfl
    next missing =>
      rw [if_neg, if_neg fun preflight => by cases preflight.1]
      rintro ⟨_, references⟩
      obtain ⟨given, here, byVariable⟩ := List.any_eq_true.mp references
      have takes {name : String} (among : name ∈ template.referencedArguments) :=
        templatable_of_valid (valid _ _ _ described) listed among
      have rendered := renderText_isSome (template_checked template) fun name among =>
        render field mem descriptor described given (takes here) byVariable name (takes among)
      rw [Option.map_eq_none_iff.mp missing] at rendered
      cases rendered

/-! ### Scopes that tell the checks apart -/

theorem filterMap_length_lt {α β : Type} {g h : α → Option β} {xs : List α}
    (less : ∀ x, (g x).isSome = true → (h x).isSome = true) {x : α} (mem : x ∈ xs)
    (without : g x = none) (own : (h x).isSome = true) :
    (xs.filterMap g).length < (xs.filterMap h).length := by
  have every (ys : List α) : (ys.filterMap g).length ≤ (ys.filterMap h).length := by
    rw [List.length_filterMap_eq_countP, List.length_filterMap_eq_countP]
    exact List.countP_mono_left fun y _ => less y
  obtain ⟨before, after, rfl⟩ := List.append_of_mem mem
  obtain ⟨value, found⟩ := Option.isSome_iff_exists.mp own
  have first := every before
  have last := every after
  rw [List.filterMap_append, List.filterMap_append, List.filterMap_cons_none without,
    List.filterMap_cons_some found, List.length_append, List.length_append, List.length_cons]
  omega

section Demanding

variable {catalog : AuthorizationCatalog} {descriptor : OperationDescriptor}
  {root : RootOperationType} {called : String} {template : ScopeTemplate}

def demanding (root : RootOperationType) (called : String) (template : ScopeTemplate)
    (other : RootOperationType) (name : String) : AuthorizationRequirement :=
  if other = root ∧ name = called then .allScopes [template] else .isPublic

theorem requiring_own (described : catalog root called = some descriptor) :
    catalog.requiring (demanding root called template) root called =
      some { descriptor with authorization := .allScopes [template] } := by
  unfold AuthorizationCatalog.requiring demanding
  rw [described, Option.map_some, if_pos ⟨rfl, rfl⟩]

theorem requiring_other (different : name ≠ called) {operation : OperationDescriptor}
    (found : catalog.requiring (demanding root called template) root name = some operation) :
    operation.authorization = .isPublic := by
  obtain ⟨base, _, rfl⟩ := Option.map_eq_some_iff.mp found
  exact if_neg fun both => different both.2

theorem requiring_valid (described : catalog root called = some descriptor)
    (takes : ∀ name ∈ template.referencedArguments, templateArgumentError descriptor name = none) :
    (catalog.requiring (demanding root called template)).Valid := by
  intro other name checked found
  obtain ⟨base, stored, rfl⟩ := Option.map_eq_some_iff.mp found
  unfold validateTemplateArgumentContract demanding
  by_cases here : other = root ∧ name = called
  · obtain ⟨rfl, rfl⟩ := here
    obtain rfl := Option.some.inj (described.symm.trans stored)
    have none : template.referencedArguments.findSome? (templateArgumentError
        { descriptor with authorization := .allScopes [template] }) = none :=
      List.findSome?_eq_none_iff.mpr takes
    simp only [true_and, if_true, AuthorizationRequirement.templates, List.flatMap_cons,
      List.flatMap_nil, List.append_nil]
    rw [none]
  · simp only [if_neg here]
    rfl

theorem templateOutcome_missing {known : Variables} {caller : AuthenticatedPrincipal}
    (missing : renderTemplate values template descriptor field known = none) :
    templateOutcome values descriptor field known caller matcher resolution template =
      if resolution = .preflight ∧ templateReferencesVariable template field then .deferred
      else .denied := by
  unfold templateOutcome
  rw [missing]

/-- Where nobody is granted anything, the final check denies every required scope. -/
theorem denied_of_no_grant (field : FieldSelection φ) (known : Variables) (subject : String)
    (required : descriptor.authorization = .allScopes [template]) :
    (authorizeField values descriptor field known (some ⟨subject, [], none⟩) (fun _ _ => false)
      .complete).denial.isSome = true := by
  rw [← Option.ne_none_iff_isSome, Ne, scopes_denial required, not_not]
  unfold templateOutcome
  split
  · rfl
  · exact if_neg fun preflight => by cases preflight.1

end Demanding

theorem renderTemplate_pair {given : String}
    (named : ∀ other ∈ [given, name], isGraphqlName other.toList = true)
    {descriptor : OperationDescriptor} {known : Variables}
    (missing : renderArgument values descriptor field known name = none) :
    renderTemplate values (ofPlaceholders [given, name] (List.cons_ne_nil _ _) named) descriptor
      field known = none := by
  unfold renderTemplate ofPlaceholders
  simp only [String.toList_ofList]
  rw [renderText_placeholders_cons (named given (.head _)),
    renderText_placeholders_cons (named name (.tail _ (.head _))), missing]
  cases renderArgument values descriptor field known given <;> rfl

/-- A scope that takes both arguments is denied in the end only. -/
theorem scopesRender_of_agree {catalog : AuthorizationCatalog}
    (used : ∀ reference ∈ selectionReferences operation.selections,
      (supplied (variableName reference)).isSome = true)
    (agree : ∀ requirement, (catalog.requiring requirement).Valid →
      ∀ (principal : Option AuthenticatedPrincipal) (matcher : ScopeMatcher),
        (catalog.requiring requirement).authorizeOperation values operation supplied principal
            matcher .preflight =
          (catalog.requiring requirement).authorizeOperation values operation supplied principal
            matcher .complete) :
    ScopesRender values catalog operation (effectiveVariables values operation supplied) := by
  intro field mem descriptor described given takesGiven byVariable name takes
  by_contra unrendered
  have unrendered : renderArgument values descriptor field
      (effectiveVariables values operation supplied) name = none := by simpa using unrendered
  have named : ∀ other ∈ [given, name], isGraphqlName other.toList = true := by
    rintro other (_ | ⟨_, _ | ⟨_, ⟨⟩⟩⟩)
    · exact takesGiven.1
    · exact takes.1
  have names : (ofPlaceholders [given, name] (List.cons_ne_nil _ _) named).referencedArguments =
      [given, name] := by
    unfold ScopeTemplate.referencedArguments ofPlaceholders
    rw [String.toList_ofList]
    exact referencedNames_placeholders named
  have missing := renderTemplate_pair named unrendered
  generalize ofPlaceholders [given, name] (List.cons_ne_nil _ _) named = template at names missing
  have valid : (catalog.requiring (demanding (rootOperationType operation.operationKind) field.name
      template)).Valid := requiring_valid described fun other among => by
    rw [names, List.mem_cons, List.mem_singleton] at among
    obtain rfl | rfl := among
    · exact takesGiven.2
    · exact takes.2
  have own : catalog.requiring (demanding (rootOperationType operation.operationKind) field.name
      template) (rootOperationType operation.operationKind) field.name = some _ :=
    requiring_own described
  have same := agree _ valid (some ⟨"caller", [], none⟩) fun _ _ => false
  refine absurd (congrArg List.length same) (Nat.ne_of_lt ?_)
  unfold AuthorizationCatalog.authorizeOperation
  simp only
  rw [collectIncludedRootFields_known _ fun reference mem =>
    effectiveVariables_isSome (used reference mem)]
  -- Nobody is granted the scope, so that only what is deferred is not denied.
  refine filterMap_length_lt ?_ mem ?_ ?_
  · intro other refused
    by_cases here : other.name = field.name
    · rw [here, own]
      exact denied_of_no_grant other _ "caller" rfl
    · exfalso
      obtain ⟨denial, refused⟩ := Option.isSome_iff_exists.mp refused
      obtain ⟨base, found, refused⟩ := Option.bind_eq_some_iff.mp refused
      have passes : (authorizeField values base other
          (effectiveVariables values operation supplied) (some ⟨"caller", [], none⟩)
          (fun _ _ => false) .preflight).denial = none :=
        authorizeField_denial.mpr (.inl (.inl (requiring_other here found)))
      rw [refused] at passes
      cases passes
  · rw [own]
    refine (scopes_denial rfl).mpr ?_
    rw [templateOutcome_missing, if_pos]
    · nofun
    · refine ⟨rfl, List.any_eq_true.mpr ⟨given, ?_, byVariable⟩⟩
      rw [names]
      exact .head _
    · exact missing
  · rw [own]
    exact denied_of_no_grant field _ "caller" rfl

/-! ### Both checks -/

/-- For all operations with these variables, what the final check lets pass is not refused before
planning exactly where the defaults agree with the values. With all variables known, both checks are
the same under all requirements exactly where the scopes render. -/
theorem checks_agree_iff (values : Values φ) :
    (∀ (definitions : Option (List (VariableDefinition φ))) (known full : Variables),
      (∀ name value, known name = some value → full name = some value) →
      ((∀ (catalog : AuthorizationCatalog), catalog.Valid →
        ∀ (operation : OperationDefinition φ), operation.variableDefinitions = definitions →
        ∀ (principal : Option AuthenticatedPrincipal) (matcher : ScopeMatcher),
          catalog.authorizeOperation values operation full principal matcher .complete = [] →
          catalog.authorizeOperation values operation known principal matcher .preflight = []) ↔
        DefaultsAgree values definitions known full)) ∧
    ∀ (catalog : AuthorizationCatalog) (operation : OperationDefinition φ) (supplied : Variables),
      (∀ reference ∈ selectionReferences operation.selections,
        (supplied (variableName reference)).isSome = true) →
      ((∀ requirement, (catalog.requiring requirement).Valid →
        ∀ (principal : Option AuthenticatedPrincipal) (matcher : ScopeMatcher),
          (catalog.requiring requirement).authorizeOperation values operation supplied principal
              matcher .preflight =
            (catalog.requiring requirement).authorizeOperation values operation supplied principal
              matcher .complete) ↔
        ScopesRender values catalog operation
          (effectiveVariables values operation supplied)) := by
  refine ⟨fun definitions known full sub => ⟨defaultsAgree_of_sound, ?_⟩,
    fun catalog operation supplied used => ⟨scopesRender_of_agree used, ?_⟩⟩
  · rintro agree catalog _ operation rfl principal matcher passes
    exact preflight_sound sub agree passes
  · intro render requirement valid principal matcher
    refine modes_agree valid used (fun field mem descriptor described => ?_) principal matcher
    -- What renders does not depend on the requirement.
    obtain ⟨base, stored, rfl⟩ := Option.map_eq_some_iff.mp described
    exact render field mem base stored

def textValues : Values Unit where
  asF64 _ := none
  floatText _ := ""
  ofDefault
    | .string value => .text value
    | _ => .null

/-- `query ($id: ID! = "archived") { record(id: $id) }` -/
def recordQuery : OperationDefinition Unit :=
  asking (some [⟨"id", some (.string "archived")⟩]) (byVariable "$id")

def recordCatalog : AuthorizationCatalog :=
  single "record" [⟨"id", "ID!", true⟩] (.allScopes [⟨"record:{id}", by decide⟩])

def supplying (value : JsonValue) : Variables := fun name => if name = "id" then some value else none

def reader : AuthenticatedPrincipal := ⟨"reader", ["record:current"], none⟩

/-- The default is refused in place of the supplied value, and a value without text only in the
end. -/
theorem checks_disagree :
    (recordCatalog.authorizeOperation textValues recordQuery (supplying (.text "current"))
        (some reader) (fun granted required => granted = required) .complete = [] ∧
      recordCatalog.authorizeOperation textValues recordQuery (fun _ => none) (some reader)
        (fun granted required => granted = required) .preflight = [scopeMissing]) ∧
    recordCatalog.authorizeOperation textValues recordQuery (supplying .null) (some reader)
        (fun granted required => granted = required) .complete = [scopeMissing] ∧
      recordCatalog.authorizeOperation textValues recordQuery (supplying .null) (some reader)
        (fun granted required => granted = required) .preflight = [] := by
  decide

/-- Nothing is refused early when the variable has no default, and with its value known both
checks are the same under all requirements. -/
theorem checks_agree_iff_supplied :
    (∀ (catalog : AuthorizationCatalog), catalog.Valid →
      ∀ (operation : OperationDefinition Unit), operation.variableDefinitions = some [⟨"id", none⟩] →
      ∀ (principal : Option AuthenticatedPrincipal) (matcher : ScopeMatcher),
        catalog.authorizeOperation textValues operation (supplying (.text "current")) principal
          matcher .complete = [] →
        catalog.authorizeOperation textValues operation (fun _ => none) principal
          matcher .preflight = []) ∧
    ∀ requirement, (recordCatalog.requiring requirement).Valid →
      ∀ (principal : Option AuthenticatedPrincipal) (matcher : ScopeMatcher),
        (recordCatalog.requiring requirement).authorizeOperation textValues recordQuery
            (supplying (.text "current")) principal matcher .preflight =
          (recordCatalog.requiring requirement).authorizeOperation textValues recordQuery
            (supplying (.text "current")) principal matcher .complete := by
  obtain ⟨first, second⟩ := checks_agree_iff textValues
  have agree : DefaultsAgree textValues (some [⟨"id", none⟩]) (fun _ => none)
      (supplying (.text "current")) := by
    intro reference default value found
    simp [defaultOf] at found
  have used : ∀ reference ∈ selectionReferences recordQuery.selections,
      (supplying (.text "current") (variableName reference)).isSome = true := by decide
  have renders : ScopesRender textValues recordCatalog recordQuery
      (effectiveVariables textValues recordQuery (supplying (.text "current"))) := by
    intro field mem descriptor described given _ _ name takes
    have only : field = byVariable "$id" := by
      rw [show collectIncludedRootFields _ _ recordQuery.selections = [byVariable "$id"] from rfl]
        at mem
      exact List.mem_singleton.mp mem
    subst only
    obtain rfl : _ = descriptor := Option.some.inj described
    obtain rfl : name = "id" := takes.eq_of_single
    decide
  exact ⟨(first _ _ _ fun _ _ absent => by cases absent).mpr agree,
    (second recordCatalog recordQuery _ used).mpr renders⟩

end GraphqlOrm.Router
