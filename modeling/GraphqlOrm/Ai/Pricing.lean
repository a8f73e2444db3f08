import GraphqlOrm.Foundation.Bytes
import GraphqlOrm.Foundation.Checked
import GraphqlOrm.Foundation.Outcome

/-!
# Pricing of provider calls

A call is quoted before it is made, from ceilings on its tokens and tool calls, and settled after it
from what the provider reports. Both price the same immutable version of the catalog.

Amounts are values of a `u64`; the operations that could leave its range are checked.
-/
namespace GraphqlOrm.Ai

open Outcome Checked

inductive AiError where
  | invalidInput (message : String)
  | invalidConfiguration (message : String)
  | notFound
deriving DecidableEq

structure AiScope where
  kind : String
  id : String
  tenantId : Option String
deriving DecidableEq

inductive ProviderKind where
  | openAi | anthropic | xai | ollama | openAiCompatible | localHarness | chatCompletions

def ProviderKind.asStr : ProviderKind → String
  | openAi => "openai"
  | anthropic => "anthropic"
  | xai => "xai"
  | ollama => "ollama"
  | openAiCompatible => "openai_compatible"
  | localHarness => "local_harness"
  | chatCompletions => "chat_completions"

inductive AiPricedBuiltinToolKind where
  | webSearch | fileSearch
deriving DecidableEq

structure AiPricingPolicyRecord where
  id : BitVec 128
  versionReference : String
  scopeKey : String
  scopeKind : String
  scopeId : String
  tenantId : Option String
  providerKind : String
  providerModel : String
  fixedCallMicrounits : Int
  inputMicrounitsPerMillion : Int
  cachedInputMicrounitsPerMillion : Int
  outputMicrounitsPerMillion : Int
  webSearchMicrounitsPerCall : Int
  fileSearchMicrounitsPerCall : Int
  createdByPrincipalKind : String
  createdBySubject : String

structure AiPricingQuoteRequest where
  scope : AiScope
  providerKind : ProviderKind
  providerModel : String
  versionReference : String
  inputTokens : Nat
  outputTokens : Nat
  builtinTools : List AiPricedBuiltinToolKind
  maximumBuiltinToolCalls : Nat

structure AiProviderBuiltinUsage where
  webSearchCalls : Nat
  fileSearchCalls : Nat
  codeInterpreterCalls : Nat
  imageGenerationCalls : Nat

structure AiProviderUsageObservation where
  scope : AiScope
  providerKind : ProviderKind
  model : String
  pricingPolicyVersion : String
  inputTokens : Nat
  outputTokens : Nat
  cachedInputTokens : Nat
  builtinUsage : AiProviderBuiltinUsage

structure AiBudgetAmounts where
  inputTokens : Nat
  outputTokens : Nat
  toolUnits : Nat
  imageUnits : Nat
  costMicrounits : Nat
  runs : Nat

def rateDenominator : Nat := 1000000

def maximumModelLength : Nat := 200

/-! ### Checks -/

/-- `char::is_control`. -/
def isControl (c : Char) : Bool := c.toNat < 0x20 || (0x7f ≤ c.toNat && c.toNat ≤ 0x9f)

def isBlank (s : String) : Bool := Text.trim s = ""

def validateReference (reference : String) : Except AiError Unit :=
  require (!(isBlank reference || reference.utf8ByteSize > 200 || reference.toList.any isControl))
    (.invalidInput "invalid pricing version reference")

def validateScope (scope : AiScope) : Except AiError Unit :=
  require (!(isBlank scope.kind || scope.kind.utf8ByteSize > 128 || isBlank scope.id ||
      scope.id.utf8ByteSize > 512 ||
      scope.tenantId.any fun tenant => isBlank tenant || tenant.utf8ByteSize > 512))
    (.invalidInput "invalid AI pricing scope")

def isProviderKind (kind : String) : Bool :=
  kind ∈ ["openai", "anthropic", "xai", "ollama", "openai_compatible", "local_harness",
    "chat_completions"]

def normalizeModel (model : String) : Except AiError String := do
  require (!(Text.trim model = "" || (Text.trim model).utf8ByteSize > maximumModelLength ||
      (Text.trim model).toList.any isControl))
    (.invalidInput "invalid pricing provider model")
  return Text.trim model

/-- One field of a scope key: a missing value is told apart from every text. -/
def scopeKeyField : Option String → List UInt8
  | some value =>
    1 :: ((List.range 8).map fun i => UInt8.ofNat (value.utf8ByteSize / 256 ^ (7 - i))) ++
      Bytes.utf8 value
  | none => [0]

def aiScopeKey (sha256 : List UInt8 → String) (scope : AiScope) : String :=
  sha256 (Bytes.utf8 "graphql-orm-ai/scope/v1\x00" ++ scopeKeyField (some scope.kind) ++
    scopeKeyField (some scope.id) ++ scopeKeyField scope.tenantId)

def recordScope (record : AiPricingPolicyRecord) : AiScope :=
  ⟨record.scopeKind, record.scopeId, record.tenantId⟩

def validateRecord (sha256 : List UInt8 → String) (record : AiPricingPolicyRecord) :
    Except AiError Unit := do
  validateScope (recordScope record)
  validateReference record.versionReference
  require (record.scopeKey = aiScopeKey sha256 (recordScope record) && record.id ≠ 0 &&
      isProviderKind record.providerKind &&
      normalizeModel record.providerModel = .ok record.providerModel &&
      0 ≤ record.fixedCallMicrounits && 0 ≤ record.inputMicrounitsPerMillion &&
      0 ≤ record.cachedInputMicrounitsPerMillion && 0 ≤ record.outputMicrounitsPerMillion &&
      0 ≤ record.webSearchMicrounitsPerCall && 0 ≤ record.fileSearchMicrounitsPerCall &&
      record.cachedInputMicrounitsPerMillion ≤ record.inputMicrounitsPerMillion &&
      !isBlank record.createdByPrincipalKind && !isBlank record.createdBySubject)
    (.invalidConfiguration "immutable pricing record is corrupt")

def requireRoute (record : AiPricingPolicyRecord) (scope : AiScope) (providerKind : ProviderKind)
    (providerModel : String) : Except AiError Unit :=
  require (recordScope record = scope && record.providerKind = providerKind.asStr &&
    record.providerModel = providerModel) .notFound

def exactVersion (sha256 : List UInt8 → String) (rows : List AiPricingPolicyRecord)
    (versionReference : String) : Except AiError AiPricingPolicyRecord := do
  validateReference versionReference
  match (rows.filter fun row => row.versionReference = versionReference).take 2 with
  | [] => .error .notFound
  | [record] => do
    validateRecord sha256 record
    return record
  | _ => .error (.invalidConfiguration "pricing version uniqueness is corrupt")

/-! ### Prices -/

def overflow : AiError := .invalidConfiguration "pricing arithmetic overflow"

def storedRate (value : Int) : Except AiError Nat :=
  if 0 ≤ value then .ok value.toNat
  else .error (.invalidConfiguration "negative stored pricing rate")

def priceDimension (units rate : Nat) : Except AiError Nat :=
  if units = 0 ∨ rate = 0 then .ok 0
  else okOr overflow (((mulU64 units rate).bind fun value => addU64 value (rateDenominator - 1)).map
    fun value => value / rateDenominator)

def priceCalls (calls rate : Nat) : Except AiError Nat := okOr overflow (mulU64 calls rate)

def priceTokens (record : AiPricingPolicyRecord) (inputTokens cachedInputTokens outputTokens : Nat) :
    Except AiError Nat := do
  require (cachedInputTokens ≤ inputTokens)
    (.invalidConfiguration "cached input exceeds total input")
  let fixed ← storedRate record.fixedCallMicrounits
  let inputRate ← storedRate record.inputMicrounitsPerMillion
  let input ← priceDimension (inputTokens - cachedInputTokens) inputRate
  let cachedRate ← storedRate record.cachedInputMicrounitsPerMillion
  let cached ← priceDimension cachedInputTokens cachedRate
  let outputRate ← storedRate record.outputMicrounitsPerMillion
  let output ← priceDimension outputTokens outputRate
  okOr overflow (((addU64 fixed input).bind fun value => addU64 value cached).bind
    fun value => addU64 value output)

def validateQuoteBuiltins (request : AiPricingQuoteRequest) : Except AiError Unit :=
  require (!(request.builtinTools.dedup.length ≠ request.builtinTools.length ||
      request.builtinTools.length > 2 ||
      (request.builtinTools.isEmpty && request.maximumBuiltinToolCalls ≠ 0) ||
      (!request.builtinTools.isEmpty &&
        !(1 ≤ request.maximumBuiltinToolCalls && request.maximumBuiltinToolCalls ≤ 64))))
    (.invalidInput "invalid built-in pricing quote")

def builtinRate (record : AiPricingPolicyRecord) : AiPricedBuiltinToolKind → Int
  | .webSearch => record.webSearchMicrounitsPerCall
  | .fileSearch => record.fileSearchMicrounitsPerCall

def pricedBuiltinRate (record : AiPricingPolicyRecord) (kind : AiPricedBuiltinToolKind) :
    Except AiError Nat := storedRate (builtinRate record kind)

def priceBuiltinQuote (record : AiPricingPolicyRecord) (kinds : List AiPricedBuiltinToolKind)
    (maximumCalls : Nat) : Except AiError Nat := do
  let maximumRate ← kinds.foldlM
    (fun maximum kind => do return max maximum (← pricedBuiltinRate record kind)) 0
  priceCalls maximumCalls maximumRate

def priceBuiltinActual (record : AiPricingPolicyRecord) (usage : AiProviderBuiltinUsage) :
    Except AiError Nat := do
  let webSearchRate ← storedRate record.webSearchMicrounitsPerCall
  let webSearch ← priceCalls usage.webSearchCalls webSearchRate
  let fileSearchRate ← storedRate record.fileSearchMicrounitsPerCall
  let fileSearch ← priceCalls usage.fileSearchCalls fileSearchRate
  okOr overflow (addU64 webSearch fileSearch)

/-! ### Quotes and settlements -/

def quote (sha256 : List UInt8 → String) (rows : List AiPricingPolicyRecord)
    (request : AiPricingQuoteRequest) : Except AiError AiBudgetAmounts := do
  validateScope request.scope
  let model ← normalizeModel request.providerModel
  validateQuoteBuiltins request
  let record ← exactVersion sha256 rows request.versionReference
  requireRoute record request.scope request.providerKind model
  -- No input is taken to be cached before the call.
  let tokenCost ← priceTokens record request.inputTokens 0 request.outputTokens
  let builtinCost ← priceBuiltinQuote record request.builtinTools request.maximumBuiltinToolCalls
  let cost ← okOr overflow (addU64 tokenCost builtinCost)
  return {
    inputTokens := request.inputTokens
    outputTokens := request.outputTokens
    toolUnits := request.maximumBuiltinToolCalls
    imageUnits := 0
    costMicrounits := cost
    runs := 1 }

def settle (sha256 : List UInt8 → String) (rows : List AiPricingPolicyRecord)
    (observation : AiProviderUsageObservation) : Except AiError AiBudgetAmounts := do
  require (observation.builtinUsage.codeInterpreterCalls = 0 &&
      observation.builtinUsage.imageGenerationCalls = 0)
    (.invalidConfiguration "pricing cannot settle unsupported provider built-in units")
  require (observation.cachedInputTokens ≤ observation.inputTokens)
    (.invalidConfiguration "provider cached input exceeds total input")
  let model ← normalizeModel observation.model
  let record ← exactVersion sha256 rows observation.pricingPolicyVersion
  requireRoute record observation.scope observation.providerKind model
  let toolUnits ← okOr overflow
    (addU64 observation.builtinUsage.webSearchCalls observation.builtinUsage.fileSearchCalls)
  let tokenCost ← priceTokens record observation.inputTokens observation.cachedInputTokens
    observation.outputTokens
  let builtinCost ← priceBuiltinActual record observation.builtinUsage
  let cost ← okOr overflow (addU64 tokenCost builtinCost)
  return {
    inputTokens := observation.inputTokens
    outputTokens := observation.outputTokens
    toolUnits := toolUnits
    imageUnits := 0
    costMicrounits := cost
    runs := 1 }

end GraphqlOrm.Ai
