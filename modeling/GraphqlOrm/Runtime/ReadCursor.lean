import GraphqlOrm.Query.Cursor
import GraphqlOrm.Runtime.Read

/-!
# Cursors of runtime reads

The opaque position of a row: its order values in a checksummed JSON envelope that also
names the schema, the collection, the order and the search it belongs to. The texts of
numbers, UUIDs, times and decimals are those of other libraries.
-/
namespace GraphqlOrm.Runtime

open Json Bytes Outcome

/-! ### Texts of values -/

/-- What other libraries write and read. -/
structure ValueTexts (φ : Type) where
  floats : Query.FloatText φ
  floatBits : φ → Nat
  uuid : List UInt8 → String
  readUuid : String → Option (List UInt8)
  readDateTime : String → Option RuntimeDateTime
  decimal : DecimalValue → String
  readDecimal : DecimalDef → String → Option DecimalValue

/-- `{"tag": content}`, a variant with content. -/
def variant (tag : String) (content : Value String) : Value String := .object [(tag, content)]

def DecimalDef.toJson (definition : DecimalDef) : Value String :=
  .object ([("precision", .number (.ofNat definition.precision)),
      ("scale", .number (.ofNat definition.scale))] ++
    if definition.mssqlMoney then [("mssql_money", .bool true)] else [])

def RuntimeNullPlacement.asStr : RuntimeNullPlacement → String
  | .first => "first"
  | .last => "last"

abbrev OrderSignature := List (FieldId × RuntimeOrderDirection × RuntimeNullPlacement)

def OrderSignature.toJson (signature : OrderSignature) : Value String :=
  .array (signature.map fun (id, direction, nulls) =>
    .array [.text id, .text direction.asStr, .text nulls.asStr])

structure CursorEnvelope (φ : Type) where
  version : UInt8
  schema : SchemaFingerprint
  collection : CollectionId
  order : OrderSignature
  values : List (RuntimeValue φ)
  checksum : String
  search : Option String
  score : Option φ

section Codec

variable {φ : Type} (texts : ValueTexts φ)

/-! ### Writing -/

def RuntimeValue.toJson : RuntimeValue φ → Value String
  | .null => .text "null"
  | .boolean value => variant "boolean" (.bool value)
  | .integer value => variant "integer" (.number (.ofInt value))
  | .float value => variant "float" ((texts.floats.write value).elim .null .number)
  | .string value => variant "string" (.text value)
  | .uuid value => variant "uuid" (.text (texts.uuid value))
  | .json value => variant "json" value
  | .bytes value => variant "bytes" (.array (value.map fun b => .number (.ofNat b.toNat)))
  | .dateTime value => variant "date_time" (.text value.text)
  | .decimal value => variant "decimal"
    (.object [("value", .text (texts.decimal value)), ("definition", value.definition.toJson)])

/-- The members of a search stand in the payload only when there is one. -/
def cursorPayload (version : UInt8) (schema : SchemaFingerprint) (collection : CollectionId)
    (order : OrderSignature) (values : List (RuntimeValue φ)) (search : Option String)
    (score : Option φ) : List UInt8 :=
  let parts : List (Value String) := [.number (.ofNat version.toNat), .text schema,
    .text collection, order.toJson, .array (values.map (RuntimeValue.toJson texts))]
  utf8 (Value.array (parts ++ search.elim [] fun binding =>
    [.text binding, score.elim .null fun x => .number (.ofNat (texts.floatBits x))])).write

/-- `fnv`. -/
def fnv (bytes : List UInt8) : String := Migration.hex64 (Migration.fnv1a64 bytes)

def CursorEnvelope.toJson (envelope : CursorEnvelope φ) : Value String :=
  .object ([("version", .number (.ofNat envelope.version.toNat)), ("schema", .text envelope.schema),
      ("collection", .text envelope.collection), ("order", envelope.order.toJson),
      ("values", .array (envelope.values.map (RuntimeValue.toJson texts))),
      ("checksum", .text envelope.checksum)] ++
    envelope.search.elim [] (fun binding => [("search", .text binding)]) ++
    envelope.score.elim []
      fun x => [("score", (texts.floats.write x).elim .null .number)])

def orderSignature (order : RuntimeOrder) : OrderSignature :=
  order.terms.map fun term => (term.field.id, term.direction, term.nulls)

def RuntimeReadRequest.searchBinding (request : RuntimeReadRequest φ) : Option String :=
  request.search.map (·.binding)

def cursorEnvelope (request : RuntimeReadRequest φ) (values : List (RuntimeValue φ))
    (score : Option φ) : CursorEnvelope φ :=
  let score := if request.ranks then score else none
  { version := 1
    schema := request.schema
    collection := request.collection.id
    order := orderSignature request.order
    values
    checksum := fnv (cursorPayload texts 1 request.schema request.collection.id
      (orderSignature request.order) values request.searchBinding score)
    search := request.searchBinding
    score }

def encodeCursor (request : RuntimeReadRequest φ) (values : List (RuntimeValue φ))
    (score : Option φ) : Except RuntimeQueryError String := do
  let bytes := utf8 ((cursorEnvelope texts request values score).toJson texts).write
  require (bytes.length ≤ request.limits.maxCursorBytes) (limitError request.collection.id)
  return RUNTIME_CURSOR_PREFIX ++ hexEncode bytes

/-! ### Reading -/

def validStableId (id : String) : Bool :=
  !id.isEmpty && id.utf8ByteSize ≤ 128 &&
    id.toList.all fun c => 0x21 ≤ c.val && c.val ≤ 0x7e && c != '|' && c != '"'

def validFingerprint (text : String) : Bool :=
  text.length == 16 && text.toList.all fun c => c.isDigit || ('a' ≤ c && c ≤ 'f')

theorem validFingerprint_hex64 (value : UInt64) : validFingerprint (Migration.hex64 value) = true := by
  have digit : ∀ n < 16, ((Text.hexDigit n).isDigit ||
      decide ('a' ≤ Text.hexDigit n) && decide (Text.hexDigit n ≤ 'f')) = true := by decide
  rw [validFingerprint, Migration.hex64, Bool.and_eq_true, String.length_ofList, String.toList_ofList,
    List.all_eq_true]
  refine ⟨by simp, fun c mem => ?_⟩
  obtain ⟨i, _, rfl⟩ := List.mem_map.mp mem
  exact digit _ (Nat.mod_lt _ (by decide))

def asStableId (v : Value String) : Option String := v.asStr.filter (validStableId ·)

def asFingerprint (v : Value String) : Option SchemaFingerprint := v.asStr.filter (validFingerprint ·)

/-- A variant without content: its name, or the name with a null. -/
def unitVariant : Value String → Option String
  | .text tag => some tag
  | .object [(tag, .null)] => some tag
  | _ => none

def RuntimeOrderDirection.ofJson (v : Value String) : Option RuntimeOrderDirection := do
  let tag ← unitVariant v
  if tag = "asc" then some .asc else if tag = "desc" then some .desc else none

def RuntimeNullPlacement.ofJson (v : Value String) : Option RuntimeNullPlacement := do
  let tag ← unitVariant v
  if tag = "first" then some .first else if tag = "last" then some .last else none

def readSignaturePart : Value String → Option (FieldId × RuntimeOrderDirection × RuntimeNullPlacement)
  | .array [id, direction, nulls] => do
    return (← asStableId id, ← RuntimeOrderDirection.ofJson direction,
      ← RuntimeNullPlacement.ofJson nulls)
  | _ => none

def knownMembers (keys : List String) (members : List (String × Value String)) : Option Unit :=
  if members.all (fun m => keys.contains m.1) && (members.map (·.1)).Nodup then some () else none

def DecimalDef.ofParts (precision scale : Value String) (money : Bool) : Option DecimalDef := do
  let precision := (← Query.asU8 precision).toNat
  let scale := (← Query.asU8 scale).toNat
  if money then
    if precision = 19 ∧ scale = 4 then some ⟨19, 4, true⟩ else none
  else if precision = 0 ∨ precision > 18 ∨ scale > precision then none
  else some ⟨precision, scale, false⟩

def DecimalDef.ofJson : Value String → Option DecimalDef
  | .object members => do
    knownMembers ["precision", "scale", "mssql_money"] members
    let money ← Query.optionalMember "mssql_money" members
    DecimalDef.ofParts (← Query.requiredMember "precision" members)
      (← Query.requiredMember "scale" members) (← money.elim (some false) Value.asBool)
  | .array [precision, scale] => DecimalDef.ofParts precision scale false
  | .array [precision, scale, money] => do DecimalDef.ofParts precision scale (← money.asBool)
  | _ => none

def decimalInput : Value String → Option String
  | .text s => some s
  | v => (v.asI64.map toString).or (v.asU64.map Nat.repr)

def readDecimalParts (value definition : Value String) : Option DecimalValue := do
  let definition ← DecimalDef.ofJson definition
  let input ← decimalInput value
  if definition.mssqlMoney then none else texts.readDecimal definition input

def readDecimalValue : Value String → Option DecimalValue
  | .object members => do
    knownMembers ["value", "definition"] members
    readDecimalParts texts (← Query.requiredMember "value" members)
      (← Query.requiredMember "definition" members)
  | .array [value, definition] => readDecimalParts texts value definition
  | _ => none

def RuntimeValue.ofTagged (tag : String) (content : Value String) : Option (RuntimeValue φ) :=
  if tag = "null" then (if content = .null then some .null else none)
  else if tag = "boolean" then content.asBool.map .boolean
  else if tag = "integer" then content.asI64.map .integer
  else if tag = "float" then (Query.asFloat texts.floats content).map .float
  else if tag = "string" then content.asStr.map .string
  else if tag = "uuid" then (content.asStr.bind texts.readUuid).map .uuid
  else if tag = "json" then some (.json content)
  else if tag = "bytes" then (Query.asBytes content).map .bytes
  else if tag = "date_time" then (content.asStr.bind texts.readDateTime).map .dateTime
  else if tag = "decimal" then (readDecimalValue texts content).map .decimal
  else none

def RuntimeValue.ofJson : Value String → Option (RuntimeValue φ)
  | .text tag => if tag = "null" then some .null else none
  | .object [(tag, content)] => RuntimeValue.ofTagged texts tag content
  | _ => none

/-- A member that may be left out or null. -/
def readOptional {α : Type} (read : Value String → Option α) : Option (Value String) →
    Option (Option α)
  | none => some none
  | some .null => some none
  | some v => (read v).map some

def CursorEnvelope.ofParts (version schema collection order values checksum : Value String)
    (search score : Option (Value String)) : Option (CursorEnvelope φ) := do
  return ⟨← Query.asU8 version, ← asFingerprint schema, ← asStableId collection,
    ← (← order.asArray).mapM readSignaturePart, ← (← values.asArray).mapM (RuntimeValue.ofJson texts),
    ← checksum.asStr, ← readOptional Value.asStr search,
    ← readOptional (Query.asFloat texts.floats) score⟩

def CursorEnvelope.ofJson : Value String → Option (CursorEnvelope φ)
  | .object members => do
    CursorEnvelope.ofParts texts (← Query.requiredMember "version" members)
      (← Query.requiredMember "schema" members) (← Query.requiredMember "collection" members)
      (← Query.requiredMember "order" members) (← Query.requiredMember "values" members)
      (← Query.requiredMember "checksum" members) (← Query.optionalMember "search" members)
      (← Query.optionalMember "score" members)
  | .array (version :: schema :: collection :: order :: values :: checksum :: rest) =>
    if rest.length ≤ 2 then
      CursorEnvelope.ofParts texts version schema collection order values checksum rest[0]? rest[1]?
    else none
  | _ => none

def CursorEnvelope.fromSlice (payload : List UInt8) : Option (CursorEnvelope φ) := do
  CursorEnvelope.ofJson texts (← parse (← fromUtf8 payload))

/-- A cursor holds a value for each term, of its kind, and null only where the field may be. -/
def checkCursorValue (entry : RuntimeValue φ × RuntimeEffectiveOrderTerm) :
    Except RuntimeQueryError Unit :=
  match entry.1.kind with
  | some kind => require (kind = entry.2.field.valueKind) (.ofField .cursorInvalid entry.2.field)
  | none => require entry.2.field.nullable (.ofField .cursorInvalid entry.2.field)

def decodeCursor (request : RuntimeReadRequest φ) (cursor : String) :
    Except RuntimeQueryError (List (RuntimeValue φ) × Option φ) := do
  let limits := request.limits
  let invalid : RuntimeQueryError := .ofCollection .cursorInvalid request.collection.id
  require (cursor.utf8ByteSize ≤ (maxEncodedCursor limits).getD (2 ^ 64 - 1))
    (limitError request.collection.id)
  let bytes ← okOr invalid ((stripLead RUNTIME_CURSOR_PREFIX cursor).bind hexDecode)
  require (bytes.length ≤ limits.maxCursorBytes) (limitError request.collection.id)
  let envelope ← okOr invalid (CursorEnvelope.fromSlice texts bytes)
  require (envelope.version = 1 && envelope.checksum = fnv (cursorPayload texts envelope.version
    envelope.schema envelope.collection envelope.order envelope.values envelope.search
    envelope.score)) invalid
  require (envelope.schema = request.schema && envelope.collection = request.collection.id)
    (.ofCollection .cursorSchemaMismatch request.collection.id)
  require (envelope.search = request.searchBinding && envelope.score.isSome = request.ranks) invalid
  require (envelope.order = orderSignature request.order &&
    envelope.values.length = request.order.terms.length &&
    envelope.values.length ≤ limits.maxCursorValues) invalid
  (envelope.values.zip request.order.terms).forM checkCursorValue
  return (envelope.values, envelope.score)

/-! ### Round trips -/

/-- A definition that every backend supports. -/
structure DecimalDef.Portable (definition : DecimalDef) : Prop where
  positive : definition.precision ≠ 0
  bounded : definition.precision ≤ 18
  scaled : definition.scale ≤ definition.precision
  plain : definition.mssqlMoney = false

def RuntimeValue.Survives : RuntimeValue φ → Prop
  | .integer value => Checked.InRange value
  | .float value => texts.floats.Survives value
  | .uuid value => texts.readUuid (texts.uuid value) = some value
  | .dateTime value => texts.readDateTime value.text = some value
  | .decimal value =>
    value.definition.Portable ∧ texts.readDecimal value.definition (texts.decimal value) = some value
  | _ => True

variable {texts}

theorem asU8_small {n : Nat} (small : n < 256) :
    Query.asU8 (.number (.ofNat n)) = some (UInt8.ofNat n) := by
  rw [Query.asU8, Value.asU64_ofNat (by omega)]
  simp [Option.filter, small]

theorem definition_ofJson_toJson {definition : DecimalDef} (portable : definition.Portable) :
    DecimalDef.ofJson definition.toJson = some definition := by
  obtain ⟨precision, scale, money⟩ := definition
  obtain ⟨positive, bounded, scaled, plain⟩ := portable
  simp only at positive bounded scaled plain
  subst plain
  have known : knownMembers ["precision", "scale", "mssql_money"]
      [("precision", .number (.ofNat precision)), ("scale", .number (.ofNat scale))] = some () := by
    simp [knownMembers]
  have accepted : ¬(precision = 0 ∨ 18 < precision ∨ precision < scale) := by omega
  simp [DecimalDef.toJson, DecimalDef.ofJson, known, Query.optionalMember, Query.requiredMember,
    DecimalDef.ofParts, asU8_small (show precision < 256 by omega),
    asU8_small (show scale < 256 by omega), accepted, Nat.mod_eq_of_lt (show precision < 256 by omega),
    Nat.mod_eq_of_lt (show scale < 256 by omega)]

theorem value_ofJson_toJson {value : RuntimeValue φ} (survives : value.Survives texts) :
    RuntimeValue.ofJson texts (value.toJson texts) = some value := by
  cases value with
  | null => simp [RuntimeValue.toJson, RuntimeValue.ofJson]
  | boolean value | string value | json value =>
    simp [RuntimeValue.toJson, RuntimeValue.ofJson, variant, RuntimeValue.ofTagged]
  | integer value =>
    simp [RuntimeValue.toJson, RuntimeValue.ofJson, variant, RuntimeValue.ofTagged,
      Value.asI64_ofInt survives.1 survives.2]
  | float value =>
    obtain ⟨n, written, read⟩ := survives
    simp [RuntimeValue.toJson, RuntimeValue.ofJson, variant, RuntimeValue.ofTagged, written,
      Query.asFloat, read]
  | uuid value =>
    have read : texts.readUuid (texts.uuid value) = some value := survives
    simp [RuntimeValue.toJson, RuntimeValue.ofJson, variant, RuntimeValue.ofTagged, read]
  | bytes value =>
    have all : Query.asBytes (.array (value.map fun b => Value.number (.ofNat b.toNat))) =
        some value := Query.mapM_map_some fun b _ => Query.asU8_ofNat b
    simp [RuntimeValue.toJson, RuntimeValue.ofJson, variant, RuntimeValue.ofTagged, all]
  | dateTime value =>
    have read : texts.readDateTime value.text = some value := survives
    simp [RuntimeValue.toJson, RuntimeValue.ofJson, variant, RuntimeValue.ofTagged, read]
  | decimal value =>
    obtain ⟨portable, read⟩ := survives
    have known : knownMembers ["value", "definition"] [("value", .text (texts.decimal value)),
        ("definition", value.definition.toJson)] = some () := by
      simp [knownMembers]
    simp [RuntimeValue.toJson, RuntimeValue.ofJson, variant, RuntimeValue.ofTagged,
      readDecimalValue, known, Query.requiredMember, Query.optionalMember, readDecimalParts,
      definition_ofJson_toJson portable, decimalInput, portable.plain, read]

theorem signature_ofJson_toJson {signature : OrderSignature}
    (stable : ∀ part ∈ signature, validStableId part.1 = true) :
    (signature.map fun (id, direction, nulls) =>
        Value.array [.text id, .text direction.asStr, .text nulls.asStr]).mapM readSignaturePart =
      some signature := by
  refine Query.mapM_map_some fun part mem => ?_
  obtain ⟨id, direction, nulls⟩ := part
  have valid : validStableId id = true := stable _ mem
  cases direction <;> cases nulls <;>
    simp [readSignaturePart, asStableId, Option.filter, valid, RuntimeOrderDirection.ofJson,
      RuntimeNullPlacement.ofJson, unitVariant, RuntimeOrderDirection.asStr,
      RuntimeNullPlacement.asStr]

/-- What a cursor needs of the schema's identifiers and of its values to be read back. -/
structure Readable (texts : ValueTexts φ) (request : RuntimeReadRequest φ)
    (values : List (RuntimeValue φ)) : Prop where
  fingerprint : validFingerprint request.schema = true
  collection : validStableId request.collection.id = true
  fields : ∀ term ∈ request.order.terms, validStableId term.field.id = true
  survives : ∀ value ∈ values, value.Survives texts

/-- An envelope is read back if its identifiers are valid and its values survive. -/
theorem envelope_ofJson_toJson (envelope : CursorEnvelope φ)
    (fingerprint : validFingerprint envelope.schema = true)
    (collection : validStableId envelope.collection = true)
    (order : ∀ part ∈ envelope.order, validStableId part.1 = true)
    (values : ∀ value ∈ envelope.values, value.Survives texts) (unscored : envelope.score = none) :
    CursorEnvelope.ofJson texts (envelope.toJson texts) = some envelope := by
  obtain ⟨version, schema, id, signature, kept, checksum, search, score⟩ := envelope
  simp only at fingerprint collection order values unscored
  subst unscored
  have parts := signature_ofJson_toJson order
  have back := Query.mapM_map_some fun value mem => value_ofJson_toJson (values value mem)
  have read (binding : Option (Value String)) : CursorEnvelope.ofParts texts
      (.number (.ofNat version.toNat)) (.text schema) (.text id) signature.toJson
      (.array (kept.map (RuntimeValue.toJson texts))) (.text checksum) binding none =
        (readOptional Value.asStr binding).map fun search =>
          ⟨version, schema, id, signature, kept, checksum, search, none⟩ := by
    have stable : asStableId (.text id) = some id := by
      rw [asStableId, Value.asStr_text, Option.filter_some, if_pos collection]
    have printed : asFingerprint (.text schema) = some schema := by
      rw [asFingerprint, Value.asStr_text, Option.filter_some, if_pos fingerprint]
    rw [CursorEnvelope.ofParts, Query.asU8_ofNat, stable, printed, OrderSignature.toJson,
      Value.asArray_array, Value.asArray_array, Value.asStr_text]
    simp only [Option.bind_eq_bind, Option.bind_some, parts, back]
    cases readOptional Value.asStr binding <;> rfl
  cases search <;>
    simp [CursorEnvelope.toJson, CursorEnvelope.ofJson, Query.requiredMember, Query.optionalMember,
      read, readOptional]

theorem fromSlice_cursorEnvelope {request : RuntimeReadRequest φ} {values : List (RuntimeValue φ)}
    (readable : Readable texts request values) (unranked : request.ranks = false)
    (score : Option φ) :
    CursorEnvelope.fromSlice texts
        (utf8 ((cursorEnvelope texts request values score).toJson texts).write) =
      some (cursorEnvelope texts request values score) := by
  rw [CursorEnvelope.fromSlice, fromUtf8_utf8, Option.bind_eq_bind, Option.bind_some, parse_write]
  refine envelope_ofJson_toJson _ readable.fingerprint readable.collection (fun part mem => ?_)
    readable.survives ?_
  · obtain ⟨term, among, rfl⟩ := List.mem_map.mp mem
    exact readable.fields term among
  · rw [cursorEnvelope]
    simp only [unranked, Bool.false_eq_true, if_false]

/-- A value that stands for a field: of its kind, and null only where the field may be. -/
def FitsField (value : RuntimeValue φ) (field : RuntimeFieldHandle) : Prop :=
  match value.kind with
  | some kind => kind = field.valueKind
  | none => field.nullable = true

theorem checkCursorValue_ok {value : RuntimeValue φ} {term : RuntimeEffectiveOrderTerm}
    (fits : FitsField value term.field) : checkCursorValue (value, term) = .ok () := by
  rw [FitsField] at fits
  rw [checkCursorValue]
  cases kind : value.kind with
  | none =>
    rw [kind] at fits
    exact require_eq_ok.mpr fits
  | some k =>
    rw [kind] at fits
    exact require_eq_ok.mpr (decide_eq_true fits)

/-- The position of a row is read back by the request that wrote it. -/
theorem decode_encodeCursor {request : RuntimeReadRequest φ} {values : List (RuntimeValue φ)}
    {score : Option φ} {cursor : String} (readable : Readable texts request values)
    (unranked : request.ranks = false) {longest : Nat}
    (bounded : maxEncodedCursor request.limits = some longest)
    (fits : List.Forall₂ (fun value term => FitsField value term.field) values request.order.terms)
    (few : values.length ≤ request.limits.maxCursorValues)
    (encoded : encodeCursor texts request values score = .ok cursor) :
    decodeCursor texts request cursor = .ok (values, none) := by
  obtain ⟨_, short, made⟩ := bind_eq_ok.mp encoded
  cases made
  have short := of_decide_eq_true (require_eq_ok.mp short)
  have longest_eq : longest = request.limits.maxCursorBytes * 2 +
      RUNTIME_CURSOR_PREFIX.utf8ByteSize := by
    rw [maxEncodedCursor] at bounded
    split at bounded
    · exact (Option.some.inj bounded).symm
    · cases bounded
  have size : (RUNTIME_CURSOR_PREFIX ++ hexEncode
      (utf8 ((cursorEnvelope texts request values score).toJson texts).write)).utf8ByteSize ≤
        longest := by
    rw [String.utf8ByteSize_append, utf8ByteSize_hexEncode]
    omega
  have each : (values.zip request.order.terms).forM checkCursorValue =
      (.ok () : Except RuntimeQueryError Unit) := by
    refine forM_ok fun entry mem => ?_
    exact checkCursorValue_ok ((List.forall₂_iff_zip.mp fits).2 mem)
  have same : values.length = request.order.terms.length := fits.length_eq
  have payload : (stripLead RUNTIME_CURSOR_PREFIX (RUNTIME_CURSOR_PREFIX ++ hexEncode
      (utf8 ((cursorEnvelope texts request values score).toJson texts).write))).bind hexDecode =
        some (utf8 ((cursorEnvelope texts request values score).toJson texts).write) := by
    rw [stripLead_append, Option.bind_some, hexDecode_hexEncode]
  have read := fromSlice_cursorEnvelope readable unranked score
  rw [decodeCursor]
  refine bind_eq_ok.mpr ⟨(), require_eq_ok.mpr ?_, bind_eq_ok.mpr ⟨_, okOr_eq_ok.mpr payload,
    bind_eq_ok.mpr ⟨(), require_eq_ok.mpr (decide_eq_true short), bind_eq_ok.mpr
      ⟨_, okOr_eq_ok.mpr read, bind_eq_ok.mpr ⟨(), require_eq_ok.mpr ?_, bind_eq_ok.mpr
        ⟨(), require_eq_ok.mpr ?_, bind_eq_ok.mpr ⟨(), require_eq_ok.mpr ?_, bind_eq_ok.mpr
          ⟨(), require_eq_ok.mpr ?_, bind_eq_ok.mpr ⟨(), each, ?_⟩⟩⟩⟩⟩⟩⟩⟩⟩
  · rw [bounded]
    exact decide_eq_true size
  · simp [cursorEnvelope, unranked]
  · simp [cursorEnvelope]
  · simp [cursorEnvelope, unranked]
  · simp [cursorEnvelope, same, same ▸ few]
  · simp [cursorEnvelope, unranked, pure, Except.pure]

end Codec

end GraphqlOrm.Runtime
