import GraphqlOrm.Router.Authorization

/-!
# Decisions under more or less knowledge of the variables

How the texts of templates, the included fields and the decisions depend on what is known.
-/
namespace GraphqlOrm.Router

open Protocol

variable {φ : Type} {values : Values φ}

/-! ### Templates -/

section Templates

attribute [local simp] renderText referencedNames checkTemplate

variable {argument other : String → Option String} {opened : Option (List Char)}
  {text rendered : List Char}

theorem renderText_plain {c : Char} (notOpening : c ≠ '{') (notClosing : c ≠ '}') :
    renderText argument none (c :: text) = (renderText argument none text).map (c :: ·) := by
  rw [renderText]
  · exact notOpening
  · exact notClosing

theorem renderText_name {name : List Char} {c : Char} (notClosing : c ≠ '}') :
    renderText argument (some name) (c :: text) = renderText argument (some (c :: name)) text := by
  rw [renderText]
  exact notClosing

theorem renderText_close (name : List Char) :
    renderText argument (some name) ('}' :: text) =
      (argument (String.ofList name.reverse)).bind fun value =>
        (renderText argument none text).map (value.toList ++ ·) := by
  rw [renderText]
  cases argument (String.ofList name.reverse) with
  | none => rfl
  | some value => cases renderText argument none text <;> rfl

/-- Knowing more arguments renders no text differently. -/
theorem renderText_mono (more : ∀ name value, argument name = some value → other name = some value)
    (known : renderText argument opened text = some rendered) :
    renderText other opened text = some rendered := by
  induction opened, text using renderText.induct generalizing rendered with
  | case1 => exact known
  | case2 rest ih => exact ih known
  | case3 rest later ih =>
    rw [renderText, if_pos later] at known ⊢
    obtain ⟨after, here, rfl⟩ := Option.map_eq_some_iff.mp known
    rw [ih here, Option.map_some]
  | case4 rest last =>
    rw [renderText, if_neg last] at known
    cases known
  | case5 c rest notOpening notClosing ih =>
    rw [renderText_plain notOpening notClosing] at known ⊢
    obtain ⟨after, here, rfl⟩ := Option.map_eq_some_iff.mp known
    rw [ih here, Option.map_some]
  | case6 => cases known
  | case7 name rest ih =>
    rw [renderText_close] at known ⊢
    obtain ⟨value, found, after⟩ := Option.bind_eq_some_iff.mp known
    obtain ⟨tail, here, rfl⟩ := Option.map_eq_some_iff.mp after
    rw [more _ _ found, Option.bind_some, ih here, Option.map_some]
  | case8 name c rest notClosing ih =>
    rw [renderText_name notClosing] at known ⊢
    exact ih known

/-- Where the arguments that both know have the same texts, a template that both render has too. -/
theorem renderText_agree {second : List Char}
    (agree : ∀ name value value', argument name = some value → other name = some value' →
      value = value')
    (left : renderText argument opened text = some rendered)
    (right : renderText other opened text = some second) : rendered = second := by
  induction opened, text using renderText.induct generalizing rendered second with
  | case1 => exact Option.some.inj (left.symm.trans right)
  | case2 rest ih => exact ih left right
  | case3 rest later ih =>
    rw [renderText, if_pos later] at left right
    obtain ⟨_, here, rfl⟩ := Option.map_eq_some_iff.mp left
    obtain ⟨_, there, rfl⟩ := Option.map_eq_some_iff.mp right
    rw [ih here there]
  | case4 rest last =>
    rw [renderText, if_neg last] at left
    cases left
  | case5 c rest notOpening notClosing ih =>
    rw [renderText_plain notOpening notClosing] at left right
    obtain ⟨_, here, rfl⟩ := Option.map_eq_some_iff.mp left
    obtain ⟨_, there, rfl⟩ := Option.map_eq_some_iff.mp right
    rw [ih here there]
  | case6 => cases left
  | case7 name rest ih =>
    rw [renderText_close] at left right
    obtain ⟨value, found, after⟩ := Option.bind_eq_some_iff.mp left
    obtain ⟨_, here, rfl⟩ := Option.map_eq_some_iff.mp after
    obtain ⟨value', found', after'⟩ := Option.bind_eq_some_iff.mp right
    obtain ⟨_, there, rfl⟩ := Option.map_eq_some_iff.mp after'
    rw [agree _ _ _ found found', ih here there]
  | case8 name c rest notClosing ih =>
    rw [renderText_name notClosing] at left right
    exact ih left right

theorem referencedNames_plain {c : Char} (notOpening : c ≠ '{') :
    referencedNames none (c :: text) = referencedNames none text := by
  rw [referencedNames]
  exact notOpening

/-- A template that only the other renders has a placeholder that only the other knows. -/
theorem renderText_missing (unknown : renderText argument opened text = none)
    (right : renderText other opened text = some rendered) :
    ∃ name ∈ referencedNames opened text, argument name = none ∧ (other name).isSome := by
  induction opened, text using renderText.induct generalizing rendered with
  | case1 => cases unknown
  | case2 rest ih => exact ih unknown right
  | case3 rest later ih =>
    rw [renderText, if_pos later] at unknown right
    obtain ⟨_, there, _⟩ := Option.map_eq_some_iff.mp right
    rw [referencedNames_plain (by decide)]
    exact ih (Option.map_eq_none_iff.mp unknown) there
  | case4 rest last =>
    rw [renderText, if_neg last] at right
    cases right
  | case5 c rest notOpening notClosing ih =>
    rw [renderText_plain notOpening notClosing] at unknown right
    obtain ⟨_, there, _⟩ := Option.map_eq_some_iff.mp right
    rw [referencedNames_plain notOpening]
    exact ih (Option.map_eq_none_iff.mp unknown) there
  | case6 => cases right
  | case7 name rest ih =>
    rw [renderText_close] at unknown right
    obtain ⟨value', found', after'⟩ := Option.bind_eq_some_iff.mp right
    obtain ⟨_, there, _⟩ := Option.map_eq_some_iff.mp after'
    rw [referencedNames]
    cases found : argument (String.ofList name.reverse) with
    | none => exact ⟨_, .head _, found, by rw [found']; rfl⟩
    | some value =>
      rw [found, Option.bind_some, Option.map_eq_none_iff] at unknown
      obtain ⟨missing, mem, rest⟩ := ih unknown there
      exact ⟨missing, List.mem_cons_of_mem _ mem, rest⟩
  | case8 name c rest notClosing ih =>
    rw [renderText_name notClosing] at unknown right
    rw [referencedNames]
    · exact ih unknown right
    · exact notClosing

/-- A valid template renders where all its placeholders do. -/
theorem renderText_isSome (valid : checkTemplate opened text = .ok ())
    (each : ∀ name ∈ referencedNames opened text, (argument name).isSome = true) :
    (renderText argument opened text).isSome = true := by
  induction opened, text using renderText.induct with
  | case1 => rfl
  | case2 rest ih => exact ih valid each
  | case3 rest later ih | case4 rest last | case6 => cases valid
  | case5 c rest notOpening notClosing ih =>
    rw [checkTemplate] at valid
    · rw [referencedNames_plain notOpening] at each
      rw [renderText_plain notOpening notClosing, Option.isSome_map]
      exact ih valid each
    · exact notOpening
    · exact notClosing
  | case7 name rest ih =>
    rw [checkTemplate] at valid
    rw [referencedNames] at each
    split at valid
    next named =>
      obtain ⟨value, found⟩ := Option.isSome_iff_exists.mp (each _ (.head _))
      rw [renderText_close, found, Option.bind_some, Option.isSome_map]
      exact ih valid fun other mem => each other (.tail _ mem)
    · cases valid
  | case8 name c rest notClosing ih =>
    rw [checkTemplate] at valid
    · rw [referencedNames] at each
      · rw [renderText_name notClosing]
        exact ih valid each
      · exact notClosing
    · exact notClosing

/-! ### Templates of placeholders only -/

def placeholders (names : List String) : List Char :=
  names.flatMap fun name => '{' :: (name.toList ++ ['}'])

theorem isGraphqlName_plain {name : List Char} (valid : isGraphqlName name = true) :
    ∀ c ∈ name, c ≠ '}' := by
  rintro c mem rfl
  cases name with
  | nil => cases mem
  | cons first rest =>
    simp only [isGraphqlName, Bool.and_eq_true, List.all_eq_true] at valid
    rcases List.mem_cons.mp mem with rfl | later
    · exact absurd valid.1 (by decide)
    · exact absurd (valid.2 _ later) (by decide)

/-- A loop over a template that collects the letters of a name reads a placeholder whole. -/
theorem scan_placeholder {β : Type} (scan : Option (List Char) → List Char → β)
    (opens : ∀ rest, scan none ('{' :: rest) = scan (some []) rest)
    (collects : ∀ {c}, c ≠ '}' → ∀ seen rest, scan (some seen) (c :: rest) =
      scan (some (c :: seen)) rest) {name : String} (named : isGraphqlName name.toList = true)
    (rest : List String) :
    scan none (placeholders (name :: rest)) =
      scan (some name.toList.reverse) ('}' :: placeholders rest) := by
  have inside (letters seen rest : List Char) (plain : ∀ c ∈ letters, c ≠ '}') :
      scan (some seen) (letters ++ rest) = scan (some (letters.reverse ++ seen)) rest := by
    induction letters generalizing seen with
    | nil => rfl
    | cons c letters ih =>
      rw [List.cons_append, collects (plain c (.head _)), ih _ fun d mem => plain d (.tail _ mem),
        List.reverse_cons, List.append_assoc]
      rfl
  show scan none ('{' :: ((name.toList ++ ['}']) ++ placeholders rest)) = _
  rw [opens, List.append_assoc, inside _ _ _ (isGraphqlName_plain named), List.append_nil]
  rfl

section Placeholders

variable {names : List String} (valid : ∀ name ∈ names, isGraphqlName name.toList = true)

include valid in
theorem checkTemplate_placeholders : checkTemplate none (placeholders names) = .ok () := by
  induction names with
  | nil => rfl
  | cons name rest ih =>
    have named := valid name (.head _)
    rw [scan_placeholder checkTemplate (fun _ => rfl)
      (fun other _ _ => by rw [checkTemplate]; exact other) named, checkTemplate, List.reverse_reverse, if_pos named]
    exact ih fun other mem => valid other (.tail _ mem)

include valid in
theorem referencedNames_placeholders : referencedNames none (placeholders names) = names := by
  induction names with
  | nil => rfl
  | cons name rest ih =>
    have named := valid name (.head _)
    rw [scan_placeholder referencedNames (fun _ => rfl)
      (fun other _ _ => by rw [referencedNames]; exact other) named, referencedNames, List.reverse_reverse, String.ofList_toList,
      ih fun other mem => valid other (.tail _ mem)]

theorem renderText_placeholders_cons {name : String} (named : isGraphqlName name.toList = true)
    (rest : List String) :
    renderText argument none (placeholders (name :: rest)) =
      (argument name).bind fun value =>
        (renderText argument none (placeholders rest)).map (value.toList ++ ·) := by
  rw [scan_placeholder (renderText argument) (fun _ => rfl)
    (fun other _ _ => renderText_name other) named, renderText_close, List.reverse_reverse, String.ofList_toList]

def ofPlaceholders (names : List String) (filled : names ≠ [])
    (valid : ∀ name ∈ names, isGraphqlName name.toList = true) : ScopeTemplate where
  text := String.ofList (placeholders names)
  valid := by
    unfold validateScopeTemplate
    rw [if_neg, String.toList_ofList]
    · exact checkTemplate_placeholders valid
    · intro empty
      cases names with
      | nil => exact filled rfl
      | cons name rest => cases congrArg String.toList empty |>.symm.trans (String.toList_ofList)

end Placeholders

end Templates

/-! ### Arguments -/

section Arguments

variable {operation : OperationDescriptor} {field : FieldSelection φ} {known full : Variables}
  {name : String}

/-- The text of an argument, with the value it is of. -/
theorem renderArgument_eq (values : Values φ) (operation : OperationDescriptor)
    (field : FieldSelection φ) (known : Variables) (name : String) :
    renderArgument values operation field known name =
      (operation.arguments.find? fun argument => argument.name = name).bind fun descriptor =>
        (field.arguments.bind fun arguments => arguments.lookup name).bind fun value =>
          canonicalScalar values value descriptor known := by
  unfold renderArgument
  cases operation.arguments.find? fun argument => argument.name = name with
  | none => rfl
  | some descriptor => cases field.arguments <;> rfl

theorem isVariable_iff {value : GraphqlValue φ} :
    value.isVariable = true ↔ ∃ reference, value = .variable reference := by
  cases value <;> simp [GraphqlValue.isVariable]

theorem canonicalScalar_literal {value : GraphqlValue φ} (literal : value.isVariable = false)
    (descriptor : ArgumentDescriptor) (known full : Variables) :
    canonicalScalar values value descriptor known = canonicalScalar values value descriptor full := by
  cases value <;> first | rfl | cases literal

end Arguments

/-! ### Decisions -/

section Decisions

variable {operation : OperationDescriptor} {field : FieldSelection φ} {known full : Variables}
  {principal : AuthenticatedPrincipal} {matcher : ScopeMatcher} {resolution : VariableResolution}

def requiredAlternatives : AuthorizationRequirement → List (List ScopeTemplate)
  | .allScopes scopes => [scopes]
  | .anyScopes alternatives => alternatives.map ScopeSet.scopes
  | .isPublic | .authenticated | .subgraphOnly _ => []

theorem mem_templates {requirement : AuthorizationRequirement} {alternative : List ScopeTemplate}
    {template : ScopeTemplate} (listed : alternative ∈ requiredAlternatives requirement)
    (mem : template ∈ alternative) : template ∈ AuthorizationRequirement.templates requirement := by
  cases requirement with
  | allScopes scopes =>
    rw [requiredAlternatives, List.mem_singleton] at listed
    rwa [← listed]
  | anyScopes alternatives =>
    obtain ⟨set, here, rfl⟩ := List.mem_map.mp listed
    exact List.mem_flatMap.mpr ⟨set, here, mem⟩
  | isPublic | authenticated | subgraphOnly policy => cases listed

theorem alternativeOutcome_denied {outcomes : List TemplateOutcome} :
    alternativeOutcome outcomes = .denied ↔ .denied ∈ outcomes := by
  unfold alternativeOutcome
  constructor
  · intro denied
    split at denied
    next mem => exact mem
    · split at denied <;> cases denied
  · exact fun mem => if_pos mem

theorem authorizeAlternatives_denial {outcomes : List TemplateOutcome} :
    (authorizeAlternatives outcomes).denial = none ↔ ∃ outcome ∈ outcomes, outcome ≠ .denied := by
  unfold authorizeAlternatives
  constructor
  · intro passes
    split at passes
    next granted => exact ⟨_, granted, nofun⟩
    · split at passes
      next deferred => exact ⟨_, deferred, nofun⟩
      · cases passes
  · rintro ⟨outcome, mem, open_⟩
    split
    · rfl
    next noGranted =>
      rw [if_pos]
      · rfl
      · cases outcome with
        | granted => exact absurd mem noGranted
        | deferred => exact mem
        | denied => exact absurd rfl open_

theorem templateOutcome_complete (template : ScopeTemplate) :
    templateOutcome values operation field known principal matcher .complete template ≠
      .deferred := by
  unfold templateOutcome
  split
  · split <;> nofun
  · rw [if_neg fun preflight => by cases preflight.1]
    nofun

theorem templateOutcome_granted {template : ScopeTemplate} :
    templateOutcome values operation field known principal matcher resolution template = .granted ↔
      ∃ required, renderTemplate values template operation field known = some required ∧
        (principal.scopes.any fun granted => matcher granted required) = true := by
  unfold templateOutcome
  split
  next required rendered =>
    rw [rendered]
    constructor
    · intro granted
      split at granted
      next passes => exact ⟨required, rfl, passes⟩
      · cases granted
    · rintro ⟨_, ⟨⟩, passes⟩
      exact if_pos passes
  next unknown =>
    rw [unknown]
    constructor
    · intro granted
      split at granted <;> cases granted
    · rintro ⟨_, ⟨⟩, _⟩

/-- A decision is a question of the alternatives, or the same for all values of variables. -/
theorem authorizeField_denial {principal : Option AuthenticatedPrincipal} :
    (authorizeField values operation field known principal matcher resolution).denial = none ↔
      (operation.authorization = .isPublic ∨ (∃ policy, operation.authorization =
          .subgraphOnly policy) ∨
        operation.authorization = .authenticated ∧ principal.isSome) ∨
      ∃ caller, principal = some caller ∧
        ∃ alternative ∈ requiredAlternatives operation.authorization,
          alternativeOutcome (alternative.map (templateOutcome values operation field known caller
            matcher resolution)) ≠ .denied := by
  unfold authorizeField authorizeScopes requiredAlternatives
  cases operation.authorization with
  | isPublic | subgraphOnly policy => simp [AuthorizationDecision.denial]
  | authenticated => cases principal <;> simp [AuthorizationDecision.denial]
  | allScopes scopes | anyScopes alternatives =>
    cases principal with
    | none => simp [AuthorizationDecision.denial]
    | some caller => simp [authorizeAlternatives_denial]

/-- A field that passes in the end passes where no template that was granted is denied. -/
theorem denial_of_granted {principal : Option AuthenticatedPrincipal}
    (granted : ∀ caller template,
      templateOutcome values operation field known caller matcher .complete template = .granted →
        templateOutcome values operation field full caller matcher resolution template ≠ .denied)
    (passes : (authorizeField values operation field known principal matcher .complete).denial =
      none) :
    (authorizeField values operation field full principal matcher resolution).denial = none := by
  rw [authorizeField_denial] at passes ⊢
  refine passes.imp id ?_
  rintro ⟨caller, rfl, alternative, listed, open_⟩
  refine ⟨caller, rfl, alternative, listed, fun denied => ?_⟩
  rw [alternativeOutcome_denied] at denied
  obtain ⟨template, mem, refused⟩ := List.mem_map.mp denied
  refine granted caller template ?_ refused
  -- Nothing is deferred in the end.
  cases final : templateOutcome values operation field known caller matcher .complete template with
  | granted => rfl
  | deferred => exact absurd final (templateOutcome_complete template)
  | denied =>
    rw [Ne, alternativeOutcome_denied] at open_
    exact absurd (List.mem_map.mpr ⟨template, mem, final⟩) open_

end Decisions

/-! ### Included fields -/

mutual

theorem mem_includedRootFields {known full : Variables} {first second : VariableResolution}
    (included : ∀ skipIf includeIf,
      directiveInclusion skipIf includeIf known first = .included →
        directiveInclusion skipIf includeIf full second = .included)
    {field : FieldSelection φ} : (item : SelectionItem φ) →
      field ∈ item.includedRootFields known first → field ∈ item.includedRootFields full second
  | .field own, mem => by
    unfold SelectionItem.includedRootFields at mem ⊢
    split at mem
    next here =>
      rw [if_pos (included _ _ here)]
      exact mem
    · cases mem
  | .inlineFragment skipIf includeIf selections, mem => by
    unfold SelectionItem.includedRootFields at mem ⊢
    split at mem
    next here =>
      rw [if_pos (included _ _ here)]
      exact mem_collectIncludedRootFields included selections mem
    · cases mem
  | .fragmentSpread name, mem => by
    unfold SelectionItem.includedRootFields at mem
    cases mem

theorem mem_collectIncludedRootFields {known full : Variables} {first second : VariableResolution}
    (included : ∀ skipIf includeIf,
      directiveInclusion skipIf includeIf known first = .included →
        directiveInclusion skipIf includeIf full second = .included)
    {field : FieldSelection φ} : (items : List (SelectionItem φ)) →
      field ∈ collectIncludedRootFields known first items →
        field ∈ collectIncludedRootFields full second items
  | [], mem => by
    unfold collectIncludedRootFields at mem
    cases mem
  | item :: rest, mem => by
    unfold collectIncludedRootFields at mem ⊢
    rcases List.mem_append.mp mem with here | later
    · exact List.mem_append_left _ (mem_includedRootFields included item here)
    · exact List.mem_append_right _ (mem_collectIncludedRootFields included rest later)

end

theorem conditionValue_some {known : Variables} {reference : String} {value : JsonValue}
    (found : known (variableName reference) = some value) :
    conditionValue known (some reference) = value.asBool := by
  unfold conditionValue
  rw [Option.bind_some, found, Option.bind_some]

theorem directiveInclusion_complete {skipIf includeIf : Option String} {known : Variables} :
    directiveInclusion skipIf includeIf known .complete = .included ↔
      conditionValue known skipIf ≠ some true ∧ conditionValue known includeIf ≠ some false := by
  unfold directiveInclusion
  rw [if_neg fun preflight => by cases preflight.1]
  cases conditionValue known skipIf with
  | none => cases conditionValue known includeIf with
    | none => simp
    | some b => cases b <;> simp
  | some a => cases conditionValue known includeIf with
    | none => cases a <;> simp
    | some b => cases a <;> cases b <;> simp

/-- Before planning, a field is included where its conditions are known and say so. -/
theorem directiveInclusion_preflight {skipIf includeIf : Option String} {known : Variables} :
    directiveInclusion skipIf includeIf known .preflight = .included ↔
      (∀ name, skipIf = some name ∨ includeIf = some name →
        ∃ value, known (variableName name) = some value) ∧
      directiveInclusion skipIf includeIf known .complete = .included := by
  unfold directiveInclusion
  rw [if_neg (show ¬(VariableResolution.complete = .preflight ∧ _) from fun h => by cases h.1)]
  split
  next unknown =>
    obtain ⟨name, mem, missing⟩ := List.any_eq_true.mp unknown.2
    constructor
    · intro included
      cases included
    · rintro ⟨each, _⟩
      have used : skipIf = some name ∨ includeIf = some name := by
        simpa [eq_comm] using mem
      obtain ⟨value, found⟩ := each name used
      rw [found] at missing
      cases missing
  next every =>
    refine ⟨fun included => ⟨fun name used => ?_, included⟩, And.right⟩
    cases found : known (variableName name) with
    | some value => exact ⟨value, rfl⟩
    | none =>
      refine absurd ⟨rfl, List.any_eq_true.mpr ⟨name, ?_, ?_⟩⟩ every
      · simpa [eq_comm] using used
      · rw [found]
        rfl

/-! ### Operations -/

theorem authorizeOperation_eq_nil {catalog : AuthorizationCatalog}
    {operation : OperationDefinition φ} {supplied : Variables}
    {principal : Option AuthenticatedPrincipal} {matcher : ScopeMatcher}
    {resolution : VariableResolution} :
    catalog.authorizeOperation values operation supplied principal matcher resolution = [] ↔
      ∀ field ∈ collectIncludedRootFields (effectiveVariables values operation supplied) resolution
          operation.selections,
        ∀ descriptor, catalog (rootOperationType operation.operationKind) field.name =
            some descriptor →
          (authorizeField values descriptor field (effectiveVariables values operation supplied)
            principal matcher resolution).denial = none := by
  unfold AuthorizationCatalog.authorizeOperation
  rw [List.filterMap_eq_nil_iff]
  refine forall₂_congr fun field _ => ?_
  cases catalog (rootOperationType operation.operationKind) field.name with
  | none => simp
  | some descriptor => simp

/-- The default that is taken for a variable without a supplied value. -/
def defaultOf (values : Values φ) (definitions : Option (List (VariableDefinition φ)))
    (name : String) : Option JsonValue :=
  (definitions.getD []).findSome? fun definition =>
    if name = definition.name then definition.defaultValue.map values.ofDefault else none

theorem effectiveVariables_eq (operation : OperationDefinition φ) (supplied : Variables)
    (name : String) :
    effectiveVariables values operation supplied name =
      (supplied name).or (defaultOf values operation.variableDefinitions name) := by
  unfold effectiveVariables defaultOf
  induction operation.variableDefinitions.getD [] generalizing supplied with
  | nil => exact Option.or_none.symm
  | cons definition rest ih =>
    rw [List.foldl_cons, ih, List.findSome?_cons]
    cases definition.defaultValue with
    | none => by_cases own : name = definition.name <;> simp [own]
    | some default =>
      by_cases own : name = definition.name
      · subst own
        cases found : supplied definition.name <;> simp [found]
      · simp [own]

end GraphqlOrm.Router
