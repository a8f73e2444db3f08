import GraphqlOrm.Formats.Payload

/-!
# Payloads as JSON

The depth bound of the conversion never refuses what the constructor takes, so a JSON value
is accepted by its payload alone. The canonical text is the compact JSON of the payload, and
determines it.

## Main result

`payloadCodec`: the round trip, the accepted values, and the canonical texts of payloads and
of field formats.
-/
namespace GraphqlOrm.Formats

open Json Outcome Text OrderedMap

/-! ### The two depth bounds -/

variable {es : Entries}

theorem checkEntries_each {depth nodes count : Nat}
    (checked : checkEntries depth nodes es = .ok count) :
    ∀ e ∈ es, ∃ before after, checkValue depth before e.2 = .ok after := by
  induction es generalizing nodes with
  | nil => simp
  | cons e rest ih =>
    obtain ⟨key, value⟩ := e
    rw [checkEntries] at checked
    obtain ⟨_, _, continued⟩ := bind_eq_ok.mp checked
    obtain ⟨after, here, later⟩ := bind_eq_ok.mp continued
    intro other mem
    rcases List.mem_cons.mp mem with rfl | mem
    · exact ⟨nodes, after, here⟩
    · exact ih later other mem

theorem keys_denoteMembers {ms : List (String × Value String)}
    (denotes : denoteMembers ms = some es) : es.map Prod.fst = ms.map Prod.fst := by
  induction ms generalizing es with
  | nil =>
    cases denotes
    rfl
  | cons m ms ih =>
    obtain ⟨key, v⟩ := m
    obtain ⟨first, _, rest⟩ := Option.bind_eq_some_iff.mp denotes
    obtain ⟨others, later, made⟩ := Option.bind_eq_some_iff.mp rest
    cases made
    rw [List.map_cons, List.map_cons, ih later]

theorem shallow {depth : Nat} (inside : depth ≤ maxFormatPayloadDepth) :
    require (ε := RuntimeFormatProblem) (depth + 1 ≤ maxFormatPayloadDepth + 1) .payloadTooDeep =
      .ok () :=
  require_eq_ok.mpr (decide_eq_true (Nat.succ_le_succ inside))

mutual

/-- A value that passes the check one level down is not too deep for the conversion. -/
theorem fromJson_of_checked {depth nodes count : Nat} (inside : depth ≤ maxFormatPayloadDepth)
    (v : Value String) (unique : UniqueKeys v) {r : RuntimeFormatValue}
    (denotes : denote v = some r) (checked : checkValue depth nodes r = .ok count) :
    fromJson (depth + 1) v = .ok r := by
  cases v with
  | null | bool value | text value =>
    cases denotes
    rw [fromJson, shallow inside]
    rfl
  | number number =>
    obtain ⟨n, found, rfl⟩ := Option.map_eq_some_iff.mp denotes
    rw [fromJson, shallow inside]
    change ofNumber number = _
    rw [ofNumber, found]
  | array values =>
    obtain ⟨rs, inner, rfl⟩ := Option.map_eq_some_iff.mp denotes
    rw [checkValue] at checked
    obtain ⟨_, _, rest⟩ := bind_eq_ok.mp checked
    obtain ⟨_, deeper, each⟩ := bind_eq_ok.mp rest
    have bounded : depth + 1 ≤ maxFormatPayloadDepth :=
      of_decide_eq_true (require_eq_ok.mp deeper)
    rw [fromJson, shallow inside]
    change (fromElements (depth + 1 + 1) values >>= _) = _
    rw [fromElements_of_checked bounded values unique inner each]
    rfl
  | object members =>
    obtain ⟨es, inner, rfl⟩ := Option.map_eq_some_iff.mp denotes
    rw [checkValue] at checked
    obtain ⟨_, _, rest⟩ := bind_eq_ok.mp checked
    obtain ⟨_, deeper, each⟩ := bind_eq_ok.mp rest
    have bounded : depth + 1 ≤ maxFormatPayloadDepth :=
      of_decide_eq_true (require_eq_ok.mp deeper)
    have keys : (es.map Prod.fst).Nodup := keys_denoteMembers inner ▸ unique.1
    rw [fromJson, shallow inside]
    change (fromMembers (depth + 1 + 1) members >>= _) = _
    rw [fromMembers_of_checked bounded members unique.2 inner fun e mem =>
      checkEntries_each each e (mem_collectEntries keys mem)]
    rfl

theorem fromElements_of_checked {depth nodes count : Nat} (inside : depth ≤ maxFormatPayloadDepth)
    (vs : List (Value String)) (unique : UniqueElements vs) {rs : List RuntimeFormatValue}
    (denotes : denoteElements vs = some rs) (checked : checkValues depth nodes rs = .ok count) :
    fromElements (depth + 1) vs = .ok rs := by
  cases vs with
  | nil =>
    cases denotes
    rfl
  | cons v vs =>
    obtain ⟨first, here, rest⟩ := Option.bind_eq_some_iff.mp denotes
    obtain ⟨others, later, made⟩ := Option.bind_eq_some_iff.mp rest
    cases made
    rw [checkValues] at checked
    obtain ⟨_, head, tail⟩ := bind_eq_ok.mp checked
    rw [fromElements, fromJson_of_checked inside v unique.1 here head]
    change (fromElements (depth + 1) vs >>= _) = _
    rw [fromElements_of_checked inside vs unique.2 later tail]
    rfl

theorem fromMembers_of_checked {depth : Nat} (inside : depth ≤ maxFormatPayloadDepth)
    (ms : List (String × Value String)) (unique : UniqueMembers ms) {es : Entries}
    (denotes : denoteMembers ms = some es)
    (checked : ∀ e ∈ es, ∃ nodes count, checkValue depth nodes e.2 = .ok count) :
    fromMembers (depth + 1) ms = .ok es := by
  cases ms with
  | nil =>
    cases denotes
    rfl
  | cons m ms =>
    obtain ⟨key, v⟩ := m
    obtain ⟨first, here, rest⟩ := Option.bind_eq_some_iff.mp denotes
    obtain ⟨others, later, made⟩ := Option.bind_eq_some_iff.mp rest
    cases made
    obtain ⟨_, _, head⟩ := checked (key, first) (.head _)
    rw [fromMembers, fromJson_of_checked inside v unique.1 here head]
    change (fromMembers (depth + 1) ms >>= _) = _
    rw [fromMembers_of_checked inside ms unique.2 later fun e mem =>
      checked e (.tail _ mem)]
    rfl

end

/-- Below the top the two bounds count the same levels. -/
theorem fromJson_of_check {members : List (String × Value String)}
    (unique : UniqueKeys (.object members)) (denotes : denote (.object members) = some (.object es))
    (checked : check es = .ok ()) :
    fromJson 0 (.object members) = .ok (.object es) := by
  obtain ⟨inner, found, same⟩ := Option.map_eq_some_iff.mp denotes
  cases same
  obtain ⟨count, each, _⟩ := bind_eq_ok.mp checked
  obtain ⟨_, _, each⟩ := bind_eq_ok.mp each
  have keys : (inner.map Prod.fst).Nodup := keys_denoteMembers found ▸ unique.1
  have converted := fromMembers_of_checked (Nat.zero_le _) members unique.2 found fun e mem =>
    checkEntries_each each e (mem_collectEntries keys mem)
  rw [fromJson]
  change (fromMembers (0 + 1) members >>= _) = _
  rw [converted]
  rfl

variable {p : RuntimeFormatPayload}

theorem RuntimeFormatPayload.new_ok_iff {typed : Typed (.object es)} :
    RuntimeFormatPayload.new es typed = .ok p ↔ p.entries = es := by
  unfold RuntimeFormatPayload.new
  split
  next checked =>
    constructor
    · rintro ⟨rfl⟩
      rfl
    · rintro rfl
      rfl
  next problem failed =>
    constructor
    · exact nofun
    · rintro rfl
      cases failed.symm.trans p.checked

/-- A JSON value is accepted exactly if the payload that it denotes is one. -/
theorem RuntimeFormatPayload.ofJson_eq_ok {json : JsonValue} :
    RuntimeFormatPayload.ofJson json = .ok p ↔ denote json.value = some (.object p.entries) := by
  constructor
  · intro accepted
    unfold ofJson at accepted
    split at accepted
    · cases accepted
    next entries converted =>
      rw [new_ok_iff.mp accepted]
      exact fromJson_denote _ converted
    · cases accepted
  · intro denotes
    obtain ⟨value, unique⟩ := json
    cases value with
    | object members =>
      have converted := fromJson_of_check unique denotes p.checked
      unfold ofJson
      split
      next problem failed => cases failed.symm.trans converted
      next entries converted' =>
        cases converted'.symm.trans converted
        exact new_ok_iff.mpr rfl
      next other converted' => exact absurd (Except.ok.inj (converted'.symm.trans converted)) (other _)
    | null | bool value | text value => cases denotes
    | number number | array values =>
      obtain ⟨_, _, other⟩ := Option.map_eq_some_iff.mp denotes
      cases other

/-! ### From payloads to JSON -/

mutual

theorem denote_toJson (r : RuntimeFormatValue) (typed : Typed r) : denote (toJson r) = some r := by
  cases r with
  | null | boolean value | string value => rfl
  | integer value =>
    rw [toJson, denote, Value.asI64_ofInt typed.1 typed.2]
    rfl
  | list values =>
    rw [toJson, denote, denoteElements_toElements values typed]
    rfl
  | object entries =>
    rw [toJson, denote, denoteMembers_toMembers entries typed.2, Option.map_some,
      collectEntries_sorted typed.1]

theorem denoteElements_toElements (rs : List RuntimeFormatValue) (typed : TypedValues rs) :
    denoteElements (toElements rs) = some rs := by
  cases rs with
  | nil => rfl
  | cons r rs =>
    rw [toElements, denoteElements, denote_toJson r typed.1, denoteElements_toElements rs typed.2]
    rfl

theorem denoteMembers_toMembers (es : Entries) (typed : TypedEntries es) :
    denoteMembers (toMembers es) = some es := by
  cases es with
  | nil => rfl
  | cons e es =>
    obtain ⟨key, r⟩ := e
    rw [toMembers, denoteMembers, denote_toJson r typed.1, denoteMembers_toMembers es typed.2]
    rfl

end

theorem keys_toMembers (es : Entries) : (toMembers es).map Prod.fst = es.map Prod.fst := by
  induction es with
  | nil => rfl
  | cons e es ih =>
    obtain ⟨key, r⟩ := e
    rw [toMembers, List.map_cons, List.map_cons, ih]

mutual

theorem uniqueKeys_toJson (r : RuntimeFormatValue) (typed : Typed r) : UniqueKeys (toJson r) := by
  cases r with
  | null | boolean value | integer value | string value => trivial
  | list values => exact uniqueElements_toElements values typed
  | object entries =>
    refine ⟨?_, uniqueMembers_toMembers entries typed.2⟩
    rw [keys_toMembers, List.Nodup, List.pairwise_map]
    exact typed.1.imp fun less => ne_of_lt less

theorem uniqueElements_toElements (rs : List RuntimeFormatValue) (typed : TypedValues rs) :
    UniqueElements (toElements rs) := by
  cases rs with
  | nil => trivial
  | cons r rs => exact ⟨uniqueKeys_toJson r typed.1, uniqueElements_toElements rs typed.2⟩

theorem uniqueMembers_toMembers (es : Entries) (typed : TypedEntries es) :
    UniqueMembers (toMembers es) := by
  cases es with
  | nil => trivial
  | cons e es =>
    obtain ⟨key, r⟩ := e
    exact ⟨uniqueKeys_toJson r typed.1, uniqueMembers_toMembers es typed.2⟩

end

/-- `From<RuntimeFormatPayload>`. -/
def RuntimeFormatPayload.toJson (p : RuntimeFormatPayload) : JsonValue :=
  ⟨Formats.toJson (.object p.entries), uniqueKeys_toJson _ p.typed⟩

theorem RuntimeFormatPayload.ofJson_toJson (p : RuntimeFormatPayload) :
    RuntimeFormatPayload.ofJson p.toJson = .ok p :=
  RuntimeFormatPayload.ofJson_eq_ok.mpr (denote_toJson _ p.typed)

/-! ### The canonical text is compact JSON -/

theorem literal_ofInt (n : Int) : (Number.ofInt n).literal = n.repr := by
  cases n with
  | ofNat n => rfl
  | negSucc n =>
    rw [← String.toList_inj, Int.repr_eq_if, if_neg (by omega)]
    simp [Number.ofInt, String.toList_append, Int.negSucc_eq]

mutual

theorem writeValue_eq (r : RuntimeFormatValue) : writeValue r = (toJson r).write := by
  cases r with
  | null => rfl
  | boolean value => cases value <;> rfl
  | integer value =>
    rw [writeValue, ← literal_ofInt, toJson]
    simp [Value.write, Value.map, Value.print, Value.tokens, Token.chars]
  | string value =>
    rw [writeValue, toJson]
    simp [Value.write, Value.map, Value.print, Value.tokens, Token.chars, writeJsonString,
      jsonString, quoted]
  | list values =>
    rw [writeValue, toJson, Value.write, Value.map, print_array, writeValues_eq values]
  | object entries =>
    rw [writeValue, toJson, Value.write, Value.map, print_object, writeEntries_eq entries]

theorem writeValues_eq (rs : List RuntimeFormatValue) :
    writeValues rs =
      (mapElements (fun s : String => s.toList.flatMap jsonChar) (toElements rs)).map Value.print := by
  cases rs with
  | nil => rfl
  | cons r rs =>
    rw [writeValues, writeValue_eq r, writeValues_eq rs]
    rfl

theorem writeEntries_eq (es : Entries) :
    writeEntries es =
      (mapMembers (fun s : String => s.toList.flatMap jsonChar) (toMembers es)).map
        fun (key, v) => String.ofList (quoted key) ++ ":" ++ v.print := by
  cases es with
  | nil => rfl
  | cons e es =>
    obtain ⟨key, r⟩ := e
    rw [writeEntries, writeValue_eq r, writeEntries_eq es]
    rfl

end

/-- A payload is read off its canonical text. -/
theorem RuntimeFormatPayload.canonicalJson_injective {q : RuntimeFormatPayload}
    (same : canonicalJson p.entries = canonicalJson q.entries) : p = q := by
  have texts : (Formats.toJson (.object p.entries)).write = (Formats.toJson (.object q.entries)).write := by
    rw [← writeValue_eq, ← writeValue_eq]
    exact same
  have denoted := congrArg denote (write_injective texts)
  rw [denote_toJson _ p.typed, denote_toJson _ q.typed] at denoted
  have entries := RuntimeFormatValue.object.inj (Option.some.inj denoted)
  cases p
  cases q
  cases entries
  rfl

end GraphqlOrm.Formats
