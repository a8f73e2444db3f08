import GraphqlOrm.Ai.Pricing
import GraphqlOrm.Foundation.Sha256
import Mathlib.Tactic.Ring

/-!
# Settlements against quotes

A quote prices all input at the ordinary rate and rounds it up once. A settlement prices the cached
part at its own rate and rounds both parts up, so the parts together can cost one microunit more
than the whole.

## Main result

- `coversSettlement_iff`: a quote covers every settlement within its bounds exactly when rounding up
  the two parts of the input never adds to rounding up the whole.
-/
namespace GraphqlOrm.Ai

open Outcome Checked

variable {sha256 : List UInt8 → String}

/-! ### Rounding up -/

def roundUp (amount : Nat) : Nat := (amount + (rateDenominator - 1)) / rateDenominator

theorem roundUp_mono {a b : Nat} (below : a ≤ b) : roundUp a ≤ roundUp b :=
  Nat.div_le_div_right (Nat.add_le_add_right below _)

@[simp] theorem roundUp_zero : roundUp 0 = 0 := rfl

theorem roundUp_mul (n : Nat) : roundUp (n * rateDenominator) = n := by
  unfold roundUp rateDenominator
  omega

/-- No cached part of the tokens costs more when it is rounded up by itself. -/
def RoundsOnce (tokens rate cachedRate : Nat) : Prop :=
  ∀ cached ≤ tokens, roundUp ((tokens - cached) * rate) + roundUp (cached * cachedRate) ≤
    roundUp (tokens * rate)

/-- Rates of whole microunits per token are never rounded. -/
theorem roundsOnce_of_whole (tokens perToken : Nat) {cachedRate : Nat}
    (cheaper : cachedRate ≤ perToken * rateDenominator) :
    RoundsOnce tokens (perToken * rateDenominator) cachedRate := by
  intro cached below
  have part : roundUp (cached * cachedRate) ≤ cached * perToken := by
    rw [← roundUp_mul (cached * perToken), Nat.mul_assoc]
    exact roundUp_mono (Nat.mul_le_mul_left _ cheaper)
  rw [← Nat.mul_assoc, ← Nat.mul_assoc, roundUp_mul, roundUp_mul]
  have whole : (tokens - cached) * perToken + cached * perToken = tokens * perToken := by
    rw [← Nat.add_mul, Nat.sub_add_cancel below]
  omega

/-! ### Prices -/

/-- The product of a dimension can be rounded up inside a `u64`. -/
def Fits (amount : Nat) : Prop := amount = 0 ∨ amount + (rateDenominator - 1) < 2 ^ 64

theorem Fits.of_le {a b : Nat} (below : a ≤ b) (fits : Fits b) : Fits a := by
  unfold Fits at *
  omega

theorem priceDimension_eq_ok {units rate cost : Nat} :
    priceDimension units rate = .ok cost ↔ Fits (units * rate) ∧ cost = roundUp (units * rate) := by
  unfold priceDimension Fits
  split
  next free =>
    have none_ : units * rate = 0 := Nat.mul_eq_zero.mpr free
    rw [none_, Except.ok.injEq, roundUp_zero, eq_comm]
    exact (and_iff_right (Or.inl rfl)).symm
  next charged =>
    have some_ : units * rate ≠ 0 := fun none_ => charged (Nat.mul_eq_zero.mp none_)
    rw [okOr_eq_ok, Option.map_eq_some_iff, or_iff_right some_]
    constructor
    · rintro ⟨value, computed, rfl⟩
      obtain ⟨product, multiplied, added⟩ := Option.bind_eq_some_iff.mp computed
      obtain ⟨_, rfl⟩ := mulU64_eq_some.mp multiplied
      obtain ⟨small, rfl⟩ := addU64_eq_some.mp added
      exact ⟨small, rfl⟩
    · rintro ⟨small, rfl⟩
      refine ⟨units * rate + (rateDenominator - 1), ?_, rfl⟩
      rw [mulU64, if_pos (by omega), Option.bind_some, addU64, if_pos small]

theorem priceCalls_eq_ok {calls rate cost : Nat} :
    priceCalls calls rate = .ok cost ↔ calls * rate < 2 ^ 64 ∧ cost = calls * rate := by
  rw [priceCalls, okOr_eq_ok, mulU64_eq_some]

theorem sum_eq_ok {fixed input cached output cost : Nat} :
    okOr overflow (((addU64 fixed input).bind fun value => addU64 value cached).bind
        fun value => addU64 value output) = .ok cost ↔
      fixed + input + cached + output < 2 ^ 64 ∧ cost = fixed + input + cached + output := by
  rw [okOr_eq_ok]
  constructor
  · intro summed
    obtain ⟨value, others, last⟩ := Option.bind_eq_some_iff.mp summed
    obtain ⟨first, begin_, next_⟩ := Option.bind_eq_some_iff.mp others
    obtain ⟨_, rfl⟩ := addU64_eq_some.mp begin_
    obtain ⟨_, rfl⟩ := addU64_eq_some.mp next_
    exact addU64_eq_some.mp last
  · rintro ⟨small, rfl⟩
    rw [addU64, if_pos (by omega), Option.bind_some, addU64, if_pos (by omega), Option.bind_some,
      addU64, if_pos small]

/-- What the checks of a stored version establish about its rates. -/
structure ValidRates (record : AiPricingPolicyRecord) : Prop where
  fixed : 0 ≤ record.fixedCallMicrounits
  input : 0 ≤ record.inputMicrounitsPerMillion
  cached : 0 ≤ record.cachedInputMicrounitsPerMillion
  output : 0 ≤ record.outputMicrounitsPerMillion
  builtin : ∀ kind, 0 ≤ builtinRate record kind
  cheaper : record.cachedInputMicrounitsPerMillion ≤ record.inputMicrounitsPerMillion

theorem validRates_of_validateRecord {record : AiPricingPolicyRecord} {u : Unit}
    (valid : validateRecord sha256 record = .ok u) : ValidRates record := by
  obtain ⟨_, _, referenced⟩ := bind_eq_ok.mp valid
  obtain ⟨_, _, checked⟩ := bind_eq_ok.mp referenced
  have facts := require_eq_ok.mp checked
  simp only [Bool.and_eq_true, decide_eq_true_eq] at facts
  obtain ⟨⟨⟨⟨⟨⟨⟨⟨⟨_, fixed⟩, input⟩, cached⟩, output⟩, webSearch⟩, fileSearch⟩, cheaper⟩, _⟩, _⟩ :=
    facts
  refine ⟨fixed, input, cached, output, fun kind => ?_, cheaper⟩
  cases kind with
  | webSearch => exact webSearch
  | fileSearch => exact fileSearch

theorem exactVersion_valid {rows : List AiPricingPolicyRecord} {reference : String}
    {record : AiPricingPolicyRecord} (found : exactVersion sha256 rows reference = .ok record) :
    ValidRates record := by
  unfold exactVersion at found
  obtain ⟨_, _, matched⟩ := bind_eq_ok.mp found
  split at matched
  · cases matched
  · obtain ⟨_, valid, same⟩ := bind_eq_ok.mp matched
    cases same
    exact validRates_of_validateRecord valid
  · cases matched

def tokenCost (record : AiPricingPolicyRecord) (uncached cached output : Nat) : Nat :=
  record.fixedCallMicrounits.toNat +
    roundUp (uncached * record.inputMicrounitsPerMillion.toNat) +
    roundUp (cached * record.cachedInputMicrounitsPerMillion.toNat) +
    roundUp (output * record.outputMicrounitsPerMillion.toNat)

theorem priceTokens_eq_ok {record : AiPricingPolicyRecord} (rates : ValidRates record)
    {input cached output cost : Nat} :
    priceTokens record input cached output = .ok cost ↔
      cached ≤ input ∧ Fits ((input - cached) * record.inputMicrounitsPerMillion.toNat) ∧
        Fits (cached * record.cachedInputMicrounitsPerMillion.toNat) ∧
        Fits (output * record.outputMicrounitsPerMillion.toNat) ∧
        tokenCost record (input - cached) cached output < 2 ^ 64 ∧
        cost = tokenCost record (input - cached) cached output := by
  unfold priceTokens storedRate tokenCost
  rw [if_pos rates.fixed, if_pos rates.input, if_pos rates.cached, if_pos rates.output]
  constructor
  · intro priced
    obtain ⟨_, inside, priced⟩ := bind_eq_ok.mp priced
    obtain ⟨fixed, stored, priced⟩ := bind_eq_ok.mp priced
    cases stored
    obtain ⟨rate, stored, priced⟩ := bind_eq_ok.mp priced
    cases stored
    obtain ⟨uncachedCost, first, priced⟩ := bind_eq_ok.mp priced
    obtain ⟨rate, stored, priced⟩ := bind_eq_ok.mp priced
    cases stored
    obtain ⟨cachedCost, second, priced⟩ := bind_eq_ok.mp priced
    obtain ⟨rate, stored, priced⟩ := bind_eq_ok.mp priced
    cases stored
    obtain ⟨outputCost, third, priced⟩ := bind_eq_ok.mp priced
    obtain ⟨fits, rfl⟩ := priceDimension_eq_ok.mp first
    obtain ⟨fits', rfl⟩ := priceDimension_eq_ok.mp second
    obtain ⟨fits'', rfl⟩ := priceDimension_eq_ok.mp third
    obtain ⟨small, total⟩ := sum_eq_ok.mp priced
    exact ⟨by simpa using require_eq_ok.mp inside, fits, fits', fits'', small, total⟩
  · rintro ⟨inside, fits, fits', fits'', small, rfl⟩
    refine bind_eq_ok.mpr ⟨(), require_eq_ok.mpr (by simpa using inside), ?_⟩
    refine bind_eq_ok.mpr ⟨_, rfl, bind_eq_ok.mpr ⟨_, rfl, ?_⟩⟩
    refine bind_eq_ok.mpr ⟨_, priceDimension_eq_ok.mpr ⟨fits, rfl⟩, bind_eq_ok.mpr ⟨_, rfl, ?_⟩⟩
    refine bind_eq_ok.mpr ⟨_, priceDimension_eq_ok.mpr ⟨fits', rfl⟩, bind_eq_ok.mpr ⟨_, rfl, ?_⟩⟩
    refine bind_eq_ok.mpr ⟨_, priceDimension_eq_ok.mpr ⟨fits'', rfl⟩, ?_⟩
    exact sum_eq_ok.mpr ⟨small, rfl⟩

def greatestRate (record : AiPricingPolicyRecord) (kinds : List AiPricedBuiltinToolKind) : Nat :=
  kinds.foldl (fun maximum kind => max maximum (builtinRate record kind).toNat) 0

theorem foldl_max_spec (rate : AiPricedBuiltinToolKind → Nat) (kinds : List AiPricedBuiltinToolKind)
    (start : Nat) :
    start ≤ kinds.foldl (fun maximum kind => max maximum (rate kind)) start ∧
      (∀ kind ∈ kinds, rate kind ≤ kinds.foldl (fun maximum kind => max maximum (rate kind)) start) ∧
      (kinds.foldl (fun maximum kind => max maximum (rate kind)) start = start ∨
        ∃ kind ∈ kinds, kinds.foldl (fun maximum kind => max maximum (rate kind)) start = rate kind) := by
  induction kinds generalizing start with
  | nil => exact ⟨Nat.le_refl _, nofun, .inl rfl⟩
  | cons first rest ih =>
    obtain ⟨above, each, attained⟩ := ih (max start (rate first))
    rw [List.foldl_cons]
    refine ⟨Nat.le_trans (Nat.le_max_left _ _) above, fun kind mem => ?_, ?_⟩
    · rcases List.mem_cons.mp mem with rfl | later
      · exact Nat.le_trans (Nat.le_max_right _ _) above
      · exact each kind later
    · rcases attained with same | ⟨kind, mem, same⟩
      · rw [same]
        rcases Nat.le_total start (rate first) with below | below
        · exact .inr ⟨first, .head _, Nat.max_eq_right below⟩
        · exact .inl (Nat.max_eq_left below)
      · exact .inr ⟨kind, List.mem_cons_of_mem _ mem, same⟩

theorem le_greatestRate (record : AiPricingPolicyRecord) {kinds : List AiPricedBuiltinToolKind}
    {kind : AiPricedBuiltinToolKind} (mem : kind ∈ kinds) :
    (builtinRate record kind).toNat ≤ greatestRate record kinds :=
  (foldl_max_spec (fun kind => (builtinRate record kind).toNat) kinds 0).2.1 kind mem

theorem greatestRate_attained (record : AiPricingPolicyRecord)
    (kinds : List AiPricedBuiltinToolKind) : greatestRate record kinds = 0 ∨
      ∃ kind ∈ kinds, greatestRate record kinds = (builtinRate record kind).toNat :=
  (foldl_max_spec (fun kind => (builtinRate record kind).toNat) kinds 0).2.2

theorem priceBuiltinQuote_eq_ok {record : AiPricingPolicyRecord} (rates : ValidRates record)
    {kinds : List AiPricedBuiltinToolKind} {calls cost : Nat} :
    priceBuiltinQuote record kinds calls = .ok cost ↔
      calls * greatestRate record kinds < 2 ^ 64 ∧ cost = calls * greatestRate record kinds := by
  have folded (start : Nat) : kinds.foldlM (fun maximum kind => do
        return max maximum (← pricedBuiltinRate record kind)) start =
      (.ok (kinds.foldl (fun maximum kind => max maximum (builtinRate record kind).toNat) start) :
        Except AiError Nat) := by
    induction kinds generalizing start with
    | nil => rfl
    | cons kind rest ih =>
      rw [List.foldlM_cons, List.foldl_cons, ← ih, pricedBuiltinRate, storedRate,
        if_pos (rates.builtin kind)]
      rfl
  unfold priceBuiltinQuote
  rw [folded]
  exact priceCalls_eq_ok

theorem priceBuiltinActual_eq_ok {record : AiPricingPolicyRecord} (rates : ValidRates record)
    {usage : AiProviderBuiltinUsage} {cost : Nat} :
    priceBuiltinActual record usage = .ok cost ↔
      usage.webSearchCalls * (builtinRate record .webSearch).toNat +
          usage.fileSearchCalls * (builtinRate record .fileSearch).toNat < 2 ^ 64 ∧
        cost = usage.webSearchCalls * (builtinRate record .webSearch).toNat +
          usage.fileSearchCalls * (builtinRate record .fileSearch).toNat := by
  unfold priceBuiltinActual storedRate
  rw [if_pos (show 0 ≤ record.webSearchMicrounitsPerCall from rates.builtin .webSearch),
    if_pos (show 0 ≤ record.fileSearchMicrounitsPerCall from rates.builtin .fileSearch)]
  constructor
  · intro priced
    obtain ⟨rate, stored, priced⟩ := bind_eq_ok.mp priced
    cases stored
    obtain ⟨webSearch, first, priced⟩ := bind_eq_ok.mp priced
    obtain ⟨rate, stored, priced⟩ := bind_eq_ok.mp priced
    cases stored
    obtain ⟨fileSearch, second, priced⟩ := bind_eq_ok.mp priced
    obtain ⟨_, rfl⟩ := priceCalls_eq_ok.mp first
    obtain ⟨_, rfl⟩ := priceCalls_eq_ok.mp second
    exact addU64_eq_some.mp (okOr_eq_ok.mp priced)
  · rintro ⟨small, rfl⟩
    refine bind_eq_ok.mpr ⟨_, rfl, bind_eq_ok.mpr ⟨_, priceCalls_eq_ok.mpr ⟨?_, rfl⟩, ?_⟩⟩
    · exact Nat.lt_of_le_of_lt (Nat.le_add_right _ _) small
    refine bind_eq_ok.mpr ⟨_, rfl, bind_eq_ok.mpr ⟨_, priceCalls_eq_ok.mpr ⟨?_, rfl⟩, ?_⟩⟩
    · exact Nat.lt_of_le_of_lt (Nat.le_add_left _ _) small
    exact okOr_eq_ok.mpr (addU64_eq_some.mpr ⟨small, rfl⟩)

/-! ### Quotes -/

/-- What a quote has established when it succeeds. -/
structure Quoted (record : AiPricingPolicyRecord) (request : AiPricingQuoteRequest)
    (quoted : AiBudgetAmounts) : Prop where
  route : ∃ model, normalizeModel request.providerModel = .ok model ∧
    requireRoute record request.scope request.providerKind model = .ok ()
  input : Fits (request.inputTokens * record.inputMicrounitsPerMillion.toNat)
  output : Fits (request.outputTokens * record.outputMicrounitsPerMillion.toNat)
  calls : request.maximumBuiltinToolCalls ≤ 64
  cost : quoted.costMicrounits = tokenCost record request.inputTokens 0 request.outputTokens +
    request.maximumBuiltinToolCalls * greatestRate record request.builtinTools
  small : quoted.costMicrounits < 2 ^ 64
  units : quoted.toolUnits = request.maximumBuiltinToolCalls

theorem validateQuoteBuiltins_le {request : AiPricingQuoteRequest} {u : Unit}
    (valid : validateQuoteBuiltins request = .ok u) : request.maximumBuiltinToolCalls ≤ 64 := by
  have facts := require_eq_ok.mp valid
  simp only [Bool.not_eq_true', Bool.or_eq_false_iff, Bool.and_eq_false_iff, Bool.not_eq_false',
    decide_eq_false_iff_not, Bool.and_eq_true, decide_eq_true_eq] at facts
  obtain ⟨⟨_, empty⟩, some_⟩ := facts
  rcases some_ with none_ | bounded
  · rcases empty with filled | zero
    · rw [none_] at filled
      cases filled
    · omega
  · exact bounded.2

theorem quoted_of_quote {rows : List AiPricingPolicyRecord} {request : AiPricingQuoteRequest}
    {record : AiPricingPolicyRecord} {quoted : AiBudgetAmounts}
    (found : exactVersion sha256 rows request.versionReference = .ok record)
    (priced : quote sha256 rows request = .ok quoted) : Quoted record request quoted := by
  have rates := exactVersion_valid found
  unfold quote at priced
  obtain ⟨_, _, priced⟩ := bind_eq_ok.mp priced
  obtain ⟨model, normalized, priced⟩ := bind_eq_ok.mp priced
  obtain ⟨_, builtins, priced⟩ := bind_eq_ok.mp priced
  obtain ⟨same, version, priced⟩ := bind_eq_ok.mp priced
  cases found.symm.trans version
  obtain ⟨⟨⟩, route, priced⟩ := bind_eq_ok.mp priced
  obtain ⟨tokens, first, priced⟩ := bind_eq_ok.mp priced
  obtain ⟨tools, second, priced⟩ := bind_eq_ok.mp priced
  obtain ⟨cost, summed, made⟩ := bind_eq_ok.mp priced
  cases made
  obtain ⟨_, input, _, output, _, rfl⟩ := (priceTokens_eq_ok rates).mp first
  obtain ⟨_, rfl⟩ := (priceBuiltinQuote_eq_ok rates).mp second
  obtain ⟨small, rfl⟩ := addU64_eq_some.mp (okOr_eq_ok.mp summed)
  exact ⟨⟨model, normalized, route⟩, input, output, validateQuoteBuiltins_le builtins, rfl, small, rfl⟩

/-! ### Settlements -/

/-- What a provider reports of a call on the quoted route, inside the ceilings of the quote. -/
structure WithinQuote (request : AiPricingQuoteRequest) (observation : AiProviderUsageObservation) :
    Prop where
  scope : observation.scope = request.scope
  providerKind : observation.providerKind = request.providerKind
  model : normalizeModel observation.model = normalizeModel request.providerModel
  version : observation.pricingPolicyVersion = request.versionReference
  input : observation.inputTokens ≤ request.inputTokens
  cached : observation.cachedInputTokens ≤ observation.inputTokens
  output : observation.outputTokens ≤ request.outputTokens
  codeInterpreter : observation.builtinUsage.codeInterpreterCalls = 0
  imageGeneration : observation.builtinUsage.imageGenerationCalls = 0
  webSearch : observation.builtinUsage.webSearchCalls ≠ 0 → .webSearch ∈ request.builtinTools
  fileSearch : observation.builtinUsage.fileSearchCalls ≠ 0 → .fileSearch ∈ request.builtinTools
  calls : observation.builtinUsage.webSearchCalls + observation.builtinUsage.fileSearchCalls ≤
    request.maximumBuiltinToolCalls

def builtinCost (record : AiPricingPolicyRecord) (usage : AiProviderBuiltinUsage) : Nat :=
  usage.webSearchCalls * (builtinRate record .webSearch).toNat +
    usage.fileSearchCalls * (builtinRate record .fileSearch).toNat

def settlementCost (record : AiPricingPolicyRecord) (observation : AiProviderUsageObservation) : Nat :=
  tokenCost record (observation.inputTokens - observation.cachedInputTokens)
      observation.cachedInputTokens observation.outputTokens +
    builtinCost record observation.builtinUsage

section Within

variable {rows : List AiPricingPolicyRecord} {request : AiPricingQuoteRequest}
  {record : AiPricingPolicyRecord} {quoted settled : AiBudgetAmounts}
  {observation : AiProviderUsageObservation}

/-- The tools that were called cost at most the ceiling on calls at the greatest rate. -/
theorem builtinCost_le (within : WithinQuote request observation) :
    builtinCost record observation.builtinUsage ≤
      request.maximumBuiltinToolCalls * greatestRate record request.builtinTools := by
  have called {kind : AiPricedBuiltinToolKind} {calls : Nat}
      (named : calls ≠ 0 → kind ∈ request.builtinTools) : calls * (builtinRate record kind).toNat ≤
        calls * greatestRate record request.builtinTools := by
    rcases Nat.eq_zero_or_pos calls with rfl | some_
    · rw [Nat.zero_mul]
      exact Nat.zero_le _
    · exact Nat.mul_le_mul_left _ (le_greatestRate record (named (Nat.ne_of_gt some_)))
  calc builtinCost record observation.builtinUsage
      ≤ observation.builtinUsage.webSearchCalls * greatestRate record request.builtinTools +
          observation.builtinUsage.fileSearchCalls * greatestRate record request.builtinTools :=
        Nat.add_le_add (called within.webSearch) (called within.fileSearch)
    _ = (observation.builtinUsage.webSearchCalls + observation.builtinUsage.fileSearchCalls) *
          greatestRate record request.builtinTools := (Nat.add_mul _ _ _).symm
    _ ≤ request.maximumBuiltinToolCalls * greatestRate record request.builtinTools :=
        Nat.mul_le_mul_right _ within.calls

/-- Inside a quote only the final sum of a settlement can leave the range of its amounts. -/
theorem settle_eq_ok (found : exactVersion sha256 rows request.versionReference = .ok record)
    (priced : Quoted record request quoted) (within : WithinQuote request observation) :
    settle sha256 rows observation = .ok settled ↔
      settlementCost record observation < 2 ^ 64 ∧ settled = {
        inputTokens := observation.inputTokens
        outputTokens := observation.outputTokens
        toolUnits := observation.builtinUsage.webSearchCalls + observation.builtinUsage.fileSearchCalls
        imageUnits := 0
        costMicrounits := settlementCost record observation
        runs := 1 } := by
  have rates := exactVersion_valid found
  obtain ⟨model, normalized, route⟩ := priced.route
  constructor
  · intro returned
    unfold settle at returned
    obtain ⟨_, _, returned⟩ := bind_eq_ok.mp returned
    obtain ⟨_, _, returned⟩ := bind_eq_ok.mp returned
    obtain ⟨_, _, returned⟩ := bind_eq_ok.mp returned
    obtain ⟨same, version, returned⟩ := bind_eq_ok.mp returned
    rw [within.version] at version
    cases found.symm.trans version
    obtain ⟨_, _, returned⟩ := bind_eq_ok.mp returned
    obtain ⟨units, counted, returned⟩ := bind_eq_ok.mp returned
    obtain ⟨tokens, first, returned⟩ := bind_eq_ok.mp returned
    obtain ⟨tools, second, returned⟩ := bind_eq_ok.mp returned
    obtain ⟨cost, summed, made⟩ := bind_eq_ok.mp returned
    cases made
    obtain ⟨_, rfl⟩ := addU64_eq_some.mp (okOr_eq_ok.mp counted)
    obtain ⟨_, _, _, _, _, rfl⟩ := (priceTokens_eq_ok rates).mp first
    obtain ⟨_, rfl⟩ := (priceBuiltinActual_eq_ok rates).mp second
    obtain ⟨small, rfl⟩ := addU64_eq_some.mp (okOr_eq_ok.mp summed)
    exact ⟨small, rfl⟩
  · rintro ⟨small, rfl⟩
    have cheaper := Int.toNat_le_toNat rates.cheaper
    have calls := Nat.le_trans within.calls priced.calls
    have uncached : (observation.inputTokens - observation.cachedInputTokens) *
          record.inputMicrounitsPerMillion.toNat ≤
        request.inputTokens * record.inputMicrounitsPerMillion.toNat :=
      Nat.mul_le_mul_right _ (Nat.le_trans (Nat.sub_le _ _) within.input)
    have cached : observation.cachedInputTokens * record.cachedInputMicrounitsPerMillion.toNat ≤
        request.inputTokens * record.inputMicrounitsPerMillion.toNat :=
      Nat.mul_le_mul (Nat.le_trans within.cached within.input) cheaper
    have output : observation.outputTokens * record.outputMicrounitsPerMillion.toNat ≤
        request.outputTokens * record.outputMicrounitsPerMillion.toNat :=
      Nat.mul_le_mul_right _ within.output
    unfold settlementCost at small
    unfold settle
    refine bind_eq_ok.mpr ⟨(), require_eq_ok.mpr ?_, ?_⟩
    · rw [within.codeInterpreter, within.imageGeneration]
      rfl
    refine bind_eq_ok.mpr ⟨(), require_eq_ok.mpr (decide_eq_true within.cached), ?_⟩
    refine bind_eq_ok.mpr ⟨model, within.model.trans normalized, ?_⟩
    refine bind_eq_ok.mpr ⟨record, by rw [within.version]; exact found, ?_⟩
    refine bind_eq_ok.mpr ⟨(), by rw [within.scope, within.providerKind]; exact route, ?_⟩
    refine bind_eq_ok.mpr ⟨_, okOr_eq_ok.mpr (addU64_eq_some.mpr ⟨by omega, rfl⟩), ?_⟩
    refine bind_eq_ok.mpr ⟨_, (priceTokens_eq_ok rates).mpr ⟨within.cached,
      priced.input.of_le uncached, priced.input.of_le cached, priced.output.of_le output,
      Nat.lt_of_le_of_lt (Nat.le_add_right _ _) small, rfl⟩, ?_⟩
    refine bind_eq_ok.mpr ⟨_, (priceBuiltinActual_eq_ok rates).mpr
      ⟨Nat.lt_of_le_of_lt (Nat.le_add_left _ _) small, rfl⟩, ?_⟩
    exact bind_eq_ok.mpr ⟨_, okOr_eq_ok.mpr (addU64_eq_some.mpr ⟨small, rfl⟩), rfl⟩

end Within

/-- Every settlement inside the bounds of a quote succeeds, and costs and counts no more. -/
def CoversSettlement (sha256 : List UInt8 → String) (rows : List AiPricingPolicyRecord)
    (request : AiPricingQuoteRequest) (quoted : AiBudgetAmounts) : Prop :=
  ∀ observation, WithinQuote request observation →
    ∃ settled, settle sha256 rows observation = .ok settled ∧
      settled.costMicrounits ≤ quoted.costMicrounits ∧ settled.toolUnits ≤ quoted.toolUnits

/-- The most expensive call inside a quote: all its tokens, so many of them cached, and all its tool
calls at the greatest rate. -/
def fullUsage (record : AiPricingPolicyRecord) (request : AiPricingQuoteRequest) (cached : Nat) :
    AiProviderUsageObservation where
  scope := request.scope
  providerKind := request.providerKind
  model := request.providerModel
  pricingPolicyVersion := request.versionReference
  inputTokens := request.inputTokens
  outputTokens := request.outputTokens
  cachedInputTokens := cached
  builtinUsage :=
    if greatestRate record request.builtinTools = 0 then ⟨0, 0, 0, 0⟩
    else if .webSearch ∈ request.builtinTools ∧
        greatestRate record request.builtinTools = (builtinRate record .webSearch).toNat then
      ⟨request.maximumBuiltinToolCalls, 0, 0, 0⟩
    else ⟨0, request.maximumBuiltinToolCalls, 0, 0⟩

theorem fullUsage_within (record : AiPricingPolicyRecord) (request : AiPricingQuoteRequest)
    {cached : Nat} (below : cached ≤ request.inputTokens) :
    WithinQuote request (fullUsage record request cached) ∧
      builtinCost record (fullUsage record request cached).builtinUsage =
        request.maximumBuiltinToolCalls * greatestRate record request.builtinTools := by
  have attained := greatestRate_attained record request.builtinTools
  by_cases free : greatestRate record request.builtinTools = 0
  · have usage : (fullUsage record request cached).builtinUsage = ⟨0, 0, 0, 0⟩ := if_pos free
    refine ⟨⟨rfl, rfl, rfl, rfl, Nat.le_refl _, below, Nat.le_refl _, ?_, ?_, ?_, ?_, ?_⟩, ?_⟩ <;>
      simp [usage, builtinCost, free]
  · by_cases web : .webSearch ∈ request.builtinTools ∧
        greatestRate record request.builtinTools = (builtinRate record .webSearch).toNat
    · have usage : (fullUsage record request cached).builtinUsage =
          ⟨request.maximumBuiltinToolCalls, 0, 0, 0⟩ := (if_neg free).trans (if_pos web)
      refine ⟨⟨rfl, rfl, rfl, rfl, Nat.le_refl _, below, Nat.le_refl _, ?_, ?_, ?_, ?_, ?_⟩, ?_⟩ <;>
        simp [usage, builtinCost, web.1, web.2]
    · have usage : (fullUsage record request cached).builtinUsage =
          ⟨0, request.maximumBuiltinToolCalls, 0, 0⟩ := (if_neg free).trans (if_neg web)
      -- The greatest rate is that of the other tool.
      obtain ⟨kind, mem, same⟩ := attained.resolve_left free
      obtain rfl : kind = .fileSearch := by
        cases kind with
        | webSearch => exact absurd ⟨mem, same⟩ web
        | fileSearch => rfl
      refine ⟨⟨rfl, rfl, rfl, rfl, Nat.le_refl _, below, Nat.le_refl _, ?_, ?_, ?_, ?_, ?_⟩, ?_⟩ <;>
        simp [usage, builtinCost, mem, same]

/-- A quote covers the settlements inside its bounds exactly when no split of its input into an
uncached and a cached part costs more in two roundings than in one. -/
theorem coversSettlement_iff {rows : List AiPricingPolicyRecord} {request : AiPricingQuoteRequest}
    {record : AiPricingPolicyRecord} {quoted : AiBudgetAmounts}
    (found : exactVersion sha256 rows request.versionReference = .ok record)
    (priced : quote sha256 rows request = .ok quoted) :
    CoversSettlement sha256 rows request quoted ↔
      RoundsOnce request.inputTokens record.inputMicrounitsPerMillion.toNat
        record.cachedInputMicrounitsPerMillion.toNat := by
  have facts := quoted_of_quote found priced
  constructor
  · intro covers cached below
    obtain ⟨within, tools⟩ := fullUsage_within record request below
    obtain ⟨settled, returned, cost, _⟩ := covers _ within
    obtain ⟨_, rfl⟩ := (settle_eq_ok found facts within).mp returned
    rw [facts.cost] at cost
    simp only [settlementCost, tools, tokenCost, Nat.zero_mul, roundUp_zero] at cost
    have input : (fullUsage record request cached).inputTokens = request.inputTokens := rfl
    have part : (fullUsage record request cached).cachedInputTokens = cached := rfl
    have output : (fullUsage record request cached).outputTokens = request.outputTokens := rfl
    rw [input, part, output] at cost
    omega
  · intro once observation within
    have tools := @builtinCost_le _ record _ within
    have split := once observation.cachedInputTokens (Nat.le_trans within.cached within.input)
    have uncached : roundUp ((observation.inputTokens - observation.cachedInputTokens) *
          record.inputMicrounitsPerMillion.toNat) ≤
        roundUp ((request.inputTokens - observation.cachedInputTokens) *
          record.inputMicrounitsPerMillion.toNat) :=
      roundUp_mono (Nat.mul_le_mul_right _ (Nat.sub_le_sub_right within.input _))
    have output : roundUp (observation.outputTokens * record.outputMicrounitsPerMillion.toNat) ≤
        roundUp (request.outputTokens * record.outputMicrounitsPerMillion.toNat) :=
      roundUp_mono (Nat.mul_le_mul_right _ within.output)
    have cost : settlementCost record observation ≤ quoted.costMicrounits := by
      rw [facts.cost]
      simp only [settlementCost, tokenCost, Nat.zero_mul, roundUp_zero]
      omega
    refine ⟨_, (settle_eq_ok found facts within).mpr
      ⟨Nat.lt_of_le_of_lt cost facts.small, rfl⟩, cost, ?_⟩
    rw [facts.units]
    exact within.calls

/-! ### A version with one rate for all input -/

def sampleRecord (rate : Int) : AiPricingPolicyRecord where
  id := 1
  versionReference := "pricing:1"
  scopeKey := aiScopeKey Sha256.hex ⟨"tenant", "a", some "a"⟩
  scopeKind := "tenant"
  scopeId := "a"
  tenantId := some "a"
  providerKind := "openai"
  providerModel := "model"
  fixedCallMicrounits := 0
  inputMicrounitsPerMillion := rate
  cachedInputMicrounitsPerMillion := rate
  outputMicrounitsPerMillion := 0
  webSearchMicrounitsPerCall := 0
  fileSearchMicrounitsPerCall := 0
  createdByPrincipalKind := "user"
  createdBySubject := "admin"

def sampleRequest : AiPricingQuoteRequest where
  scope := ⟨"tenant", "a", some "a"⟩
  providerKind := .openAi
  providerModel := "model"
  versionReference := "pricing:1"
  inputTokens := 2
  outputTokens := 0
  builtinTools := []
  maximumBuiltinToolCalls := 0

def sampleObservation : AiProviderUsageObservation where
  scope := ⟨"tenant", "a", some "a"⟩
  providerKind := .openAi
  model := "model"
  pricingPolicyVersion := "pricing:1"
  inputTokens := 2
  outputTokens := 0
  cachedInputTokens := 1
  builtinUsage := ⟨0, 0, 0, 0⟩

theorem exactVersion_single {record : AiPricingPolicyRecord}
    (named : validateReference record.versionReference = .ok ())
    (valid : validateRecord sha256 record = .ok ()) :
    exactVersion sha256 [record] record.versionReference = .ok record := by
  have only : [record].filter (fun row => row.versionReference = record.versionReference) =
      [record] := List.filter_cons_of_pos (decide_eq_true rfl)
  unfold exactVersion
  rw [only]
  exact bind_eq_ok.mpr ⟨(), named, bind_eq_ok.mpr ⟨(), valid, rfl⟩⟩

theorem exactVersion_sample {rate : Int} (nonneg : 0 ≤ rate) :
    exactVersion Sha256.hex [sampleRecord rate] "pricing:1" = .ok (sampleRecord rate) := by
  have scope : validateScope ⟨"tenant", "a", some "a"⟩ = .ok () := by decide
  have reference : validateReference "pricing:1" = .ok () := by decide
  refine exactVersion_single reference (bind_eq_ok.mpr ⟨(), scope, bind_eq_ok.mpr ⟨(), reference,
    require_eq_ok.mpr ?_⟩⟩)
  have key : (sampleRecord rate).scopeKey = aiScopeKey Sha256.hex (recordScope (sampleRecord rate)) :=
    rfl
  have model : normalizeModel (sampleRecord rate).providerModel =
      .ok (sampleRecord rate).providerModel := by
    show normalizeModel "model" = .ok "model"
    decide
  have kind : isBlank (sampleRecord rate).createdByPrincipalKind = false := by
    show isBlank "user" = false
    decide
  have subject : isBlank (sampleRecord rate).createdBySubject = false := by
    show isBlank "admin" = false
    decide
  rw [decide_eq_true key, decide_eq_true model, kind, subject]
  simp [sampleRecord, isProviderKind, nonneg]

theorem quote_sample (rate : Int) (cost : Nat) (nonneg : 0 ≤ rate)
    (tokens : priceTokens (sampleRecord rate) 2 0 0 = .ok cost)
    (tools : priceBuiltinQuote (sampleRecord rate) [] 0 = .ok 0) (small : cost < 2 ^ 64) :
    quote Sha256.hex [sampleRecord rate] sampleRequest = .ok ⟨2, 0, 0, 0, cost, 1⟩ := by
  have scope : validateScope sampleRequest.scope = .ok () := by decide
  have model : normalizeModel sampleRequest.providerModel = .ok "model" := by decide
  have builtins : validateQuoteBuiltins sampleRequest = .ok () := by decide
  refine bind_eq_ok.mpr ⟨(), scope, bind_eq_ok.mpr ⟨_, model, bind_eq_ok.mpr ⟨(), builtins, ?_⟩⟩⟩
  refine bind_eq_ok.mpr ⟨_, exactVersion_sample nonneg, bind_eq_ok.mpr ⟨(), rfl, ?_⟩⟩
  refine bind_eq_ok.mpr ⟨_, tokens, bind_eq_ok.mpr ⟨_, tools, ?_⟩⟩
  exact bind_eq_ok.mpr ⟨cost, okOr_eq_ok.mpr (addU64_eq_some.mpr ⟨small, rfl⟩), rfl⟩

theorem sampleObservation_within : WithinQuote sampleRequest sampleObservation :=
  ⟨rfl, rfl, rfl, rfl, Nat.le_refl _, by decide, Nat.le_refl _, rfl, rfl, nofun, nofun, Nat.le_refl _⟩

/-- Half a microunit per token: two tokens are quoted at one microunit, and settled at two when one of
them was cached. -/
theorem halfRates_exceed :
    quote Sha256.hex [sampleRecord 500000] sampleRequest = .ok ⟨2, 0, 0, 0, 1, 1⟩ ∧
      WithinQuote sampleRequest sampleObservation ∧
      settle Sha256.hex [sampleRecord 500000] sampleObservation = .ok ⟨2, 0, 0, 0, 2, 1⟩ := by
  have found : exactVersion Sha256.hex [sampleRecord 500000] sampleRequest.versionReference = .ok _ :=
    exactVersion_sample (by decide)
  have priced := quote_sample 500000 1 (by decide) (by decide) (by decide) (by decide)
  refine ⟨priced, sampleObservation_within, ?_⟩
  exact (settle_eq_ok found (quoted_of_quote found priced) sampleObservation_within).mpr
    ⟨by decide, rfl⟩

/-! ### A version with tools -/

def toolRecord : AiPricingPolicyRecord :=
  { sampleRecord 2000000 with
    cachedInputMicrounitsPerMillion := 500000
    outputMicrounitsPerMillion := 6000000
    webSearchMicrounitsPerCall := 10
    fileSearchMicrounitsPerCall := 4 }

def toolRequest : AiPricingQuoteRequest :=
  { sampleRequest with
    inputTokens := 1000
    outputTokens := 100
    builtinTools := [.webSearch, .fileSearch]
    maximumBuiltinToolCalls := 3 }

/-- Whole rates for the input cover every settlement with up to three calls of two tools, however
much of the input was cached. -/
theorem wholeRates_covered :
    CoversSettlement Sha256.hex [toolRecord] toolRequest ⟨1000, 100, 3, 0, 2630, 1⟩ := by
  have scope : validateScope toolRequest.scope = .ok () := by decide
  have reference : validateReference "pricing:1" = .ok () := by decide
  have key : toolRecord.scopeKey = aiScopeKey Sha256.hex (recordScope toolRecord) := rfl
  have valid : validateRecord Sha256.hex toolRecord = .ok () := by
    refine bind_eq_ok.mpr ⟨(), scope, bind_eq_ok.mpr ⟨(), reference, require_eq_ok.mpr ?_⟩⟩
    rw [decide_eq_true key]
    decide
  have found : exactVersion Sha256.hex [toolRecord] toolRequest.versionReference = .ok toolRecord :=
    exactVersion_single reference valid
  have priced : quote Sha256.hex [toolRecord] toolRequest = .ok ⟨1000, 100, 3, 0, 2630, 1⟩ := by
    have model : normalizeModel toolRequest.providerModel = .ok "model" := by decide
    have builtins : validateQuoteBuiltins toolRequest = .ok () := by decide
    refine bind_eq_ok.mpr ⟨(), scope, bind_eq_ok.mpr ⟨_, model, bind_eq_ok.mpr ⟨(), builtins, ?_⟩⟩⟩
    have tokens : priceTokens toolRecord 1000 0 100 = .ok 2600 := by decide
    have tools : priceBuiltinQuote toolRecord [.webSearch, .fileSearch] 3 = .ok 30 := by decide
    refine bind_eq_ok.mpr ⟨_, found, bind_eq_ok.mpr ⟨(), rfl, ?_⟩⟩
    refine bind_eq_ok.mpr ⟨_, tokens, bind_eq_ok.mpr ⟨_, tools, ?_⟩⟩
    exact bind_eq_ok.mpr ⟨2630, okOr_eq_ok.mpr (addU64_eq_some.mpr ⟨by decide, rfl⟩), rfl⟩
  exact (coversSettlement_iff found priced).mpr (roundsOnce_of_whole 1000 2 (by decide))

end GraphqlOrm.Ai
