import GraphqlOrm.Runtime.ReadRun

/-!
# Resolved reads

What the checks of an order and of a request leave to know: every field is one of the
collection, and the order tells rows with different primary keys apart.
-/
namespace GraphqlOrm.Runtime

open Outcome

variable {φ : Type} {schema : RuntimeSchema} {handle : RuntimeCollectionHandle}

/-! ### Orders -/

def ResolvesTo (schema : RuntimeSchema) (handle : RuntimeCollectionHandle)
    (field : RuntimeFieldHandle) : Prop :=
  schema.resolveField handle field.id = .ok field

theorem checkHandle_ok {field : RuntimeFieldHandle} (checked : schema.checkHandle handle field = .ok ()) :
    ResolvesTo schema handle field := by
  rw [RuntimeSchema.checkHandle] at checked
  split at checked
  · cases checked
  next current resolved =>
    obtain rfl : current = field := of_decide_eq_true (require_eq_ok.mp checked)
    exact resolved

variable {seen : List FieldId}

theorem suppliedTerms_ok {inputs : List RuntimeOrderInput}
    {found : List FieldId × List RuntimeEffectiveOrderTerm}
    (ok : schema.suppliedTerms handle seen inputs = .ok found) :
    (∀ term ∈ found.2, ResolvesTo schema handle term.field) ∧
      ∀ id ∈ found.1, id ∈ seen ∨ ∃ term ∈ found.2, term.field.id = id := by
  induction inputs generalizing seen found with
  | nil =>
    cases ok
    exact ⟨fun _ mem => absurd mem List.not_mem_nil, fun _ => .inl⟩
  | cons input rest ih =>
    obtain ⟨_, own, more⟩ := bind_eq_ok.mp ok
    obtain ⟨_, _, more⟩ := bind_eq_ok.mp more
    obtain ⟨_, _, more⟩ := bind_eq_ok.mp more
    obtain ⟨⟨seen', terms⟩, later, made⟩ := bind_eq_ok.mp more
    cases made
    obtain ⟨resolved, covered⟩ := ih later
    refine ⟨List.forall_mem_cons.mpr ⟨checkHandle_ok own, resolved⟩, fun id among => ?_⟩
    rcases covered id among with here | ⟨term, mem, same⟩
    · rcases List.mem_cons.mp here with rfl | before
      · exact .inr ⟨_, .head _, rfl⟩
      · exact .inl before
    · exact .inr ⟨term, List.mem_cons_of_mem _ mem, same⟩

variable {terms : List RuntimeEffectiveOrderTerm}

theorem tieBreakers_ok {key : List FieldId} (ok : schema.tieBreakers handle seen key = .ok terms) :
    (∀ term ∈ terms, ResolvesTo schema handle term.field) ∧
      ∀ id ∈ key, id ∈ seen ∨ ∃ term ∈ terms, term.field.id = id := by
  induction key generalizing seen terms with
  | nil =>
    cases ok
    exact ⟨fun _ mem => absurd mem List.not_mem_nil,
      fun _ mem => absurd mem List.not_mem_nil⟩
  | cons id rest ih =>
    rw [RuntimeSchema.tieBreakers] at ok
    split at ok
    next known =>
      obtain ⟨resolved, covered⟩ := ih ok
      exact ⟨resolved, List.forall_mem_cons.mpr ⟨.inl (by simpa using known), covered⟩⟩
    next unknown =>
      split at ok
      · cases ok
      next field resolved =>
        obtain ⟨_, _, more⟩ := bind_eq_ok.mp ok
        obtain ⟨others, later, made⟩ := bind_eq_ok.mp more
        cases made
        obtain ⟨each, covered⟩ := ih later
        obtain ⟨_, _, _, named⟩ := resolveField_ok resolved
        have own : ResolvesTo schema handle field := by rw [ResolvesTo, named, resolved]
        refine ⟨List.forall_mem_cons.mpr ⟨own, each⟩, List.forall_mem_cons.mpr
          ⟨.inr ⟨_, .head _, named⟩, fun other among => ?_⟩⟩
        rcases covered other among with here | ⟨term, mem, same⟩
        · rcases List.mem_cons.mp here with rfl | before
          · exact .inr ⟨_, .head _, named⟩
          · exact .inl before
        · exact .inr ⟨term, List.mem_cons_of_mem _ mem, same⟩

/-- An order has terms for fields of the collection, among them all of the primary key. -/
theorem runtimeOrder_ok {inputs : Option (List RuntimeOrderInput)} {limits : RuntimeQueryLimits}
    {order : RuntimeOrder} (ok : schema.runtimeOrder handle inputs limits = .ok order) :
    ∃ collection, schema.collection? handle.id = some collection ∧ order.terms ≠ [] ∧
      (∀ term ∈ order.terms, ResolvesTo schema handle term.field) ∧
      ∀ id ∈ collection.primaryKey, ∃ term ∈ order.terms, term.field.id = id := by
  obtain ⟨_, _, more⟩ := bind_eq_ok.mp ok
  obtain ⟨collection, known, more⟩ := bind_eq_ok.mp more
  obtain ⟨supplied, seen, terms, own, more⟩ : ∃ supplied seen terms,
      schema.suppliedTerms handle [] supplied = .ok (seen, terms) ∧
        (do
          let terms := terms ++ (← schema.tieBreakers handle seen collection.primaryKey)
          require (!terms.isEmpty && terms.length ≤ limits.maxOrderTerms &&
            terms.length ≤ limits.maxCursorValues) (limitError handle.id)
          return (⟨schema.fingerprint, handle.id, terms⟩ : RuntimeOrder)) = .ok order := by
    cases inputs with
    | none =>
      obtain ⟨supplied, _, more⟩ := bind_eq_ok.mp more
      obtain ⟨⟨seen, terms⟩, own, more⟩ := bind_eq_ok.mp more
      exact ⟨supplied, seen, terms, own, more⟩
    | some supplied =>
      obtain ⟨_, given, more⟩ := bind_eq_ok.mp more
      cases given
      obtain ⟨⟨seen, terms⟩, own, more⟩ := bind_eq_ok.mp more
      exact ⟨supplied, seen, terms, own, more⟩
  obtain ⟨ties, tied, more⟩ := bind_eq_ok.mp more
  obtain ⟨_, bounded, made⟩ := bind_eq_ok.mp more
  cases made
  obtain ⟨resolved, covered⟩ := suppliedTerms_ok own
  obtain ⟨resolvedTies, coveredTies⟩ := tieBreakers_ok tied
  have filled := require_eq_ok.mp bounded
  simp only [Bool.and_eq_true, Bool.not_eq_true', List.isEmpty_eq_false_iff] at filled
  refine ⟨collection, okOr_eq_ok.mp known, filled.1.1, fun term mem => ?_, fun id key => ?_⟩
  · exact (List.mem_append.mp mem).elim (resolved term) (resolvedTies term)
  · rcases coveredTies id key with before | ⟨term, mem, same⟩
    · rcases covered id before with none | ⟨term, mem, same⟩
      · exact absurd none List.not_mem_nil
      · exact ⟨term, List.mem_append_left _ mem, same⟩
    · exact ⟨term, List.mem_append_right _ mem, same⟩

/-! ### Requests -/

/-- The fields of a request are those of its collection, and it decodes all that it needs. -/
structure Resolved (schema : RuntimeSchema) (collection : RuntimeCollection)
    (request : RuntimeReadRequest φ) : Prop where
  found : schema.collection? request.collection.id = some collection
  table : request.collection.physicalTable = collection.physicalTable
  fingerprint : request.schema = schema.fingerprint
  fields : ∀ field ∈ request.decodeProjection.fields, ResolvesTo schema request.collection field
  decodeSchema : request.decodeProjection.schemaFingerprint = schema.fingerprint
  decodeCollection : request.decodeProjection.collection.id = request.collection.id
  kinds : request.decodeProjection.collectionFieldKinds =
    collection.fields.foldl (fun kinds field => kinds.insert field.id field.valueKind)
      OrderedMap.empty
  outputSchema : request.outputProjection.schemaFingerprint = schema.fingerprint
  outputCollection : request.outputProjection.collection.id = request.collection.id
  output : ∀ field ∈ request.outputProjection.fields, field ∈ request.decodeProjection.fields
  order : ∀ term ∈ request.order.terms, term.field ∈ request.decodeProjection.fields

theorem unionFields_left {union : List RuntimeFieldHandle} :
    ∀ field ∈ union, field ∈ unionFields union terms := by
  induction terms generalizing union with
  | nil => exact fun _ => id
  | cons term rest ih =>
    intro field mem
    rw [unionFields]
    split
    · exact ih field mem
    · exact ih field (List.mem_append_left _ mem)

theorem unionFields_right {union : List RuntimeFieldHandle} :
    ∀ term ∈ terms, ∃ field ∈ unionFields union terms, field.id = term.field.id := by
  induction terms generalizing union with
  | nil => exact fun _ mem => absurd mem List.not_mem_nil
  | cons term rest ih =>
    refine List.forall_mem_cons.mpr ⟨?_, fun other mem => ?_⟩
    · rw [unionFields]
      split
      next known =>
        obtain ⟨field, mem, same⟩ := List.mem_map.mp (List.contains_iff_mem.mp known)
        exact ⟨field, unionFields_left field mem, same⟩
      next unknown =>
        exact ⟨term.field, unionFields_left _ (List.mem_append_right _ (.head _)), rfl⟩
    · rw [unionFields]
      split
      · exact ih other mem
      · exact ih other mem

theorem resolveMembers_ok {fields : List RuntimeFieldHandle}
    (ok : schema.resolveMembers handle seen fields = .ok ()) :
    ∀ field ∈ fields, ResolvesTo schema handle field := by
  induction fields generalizing seen with
  | nil => exact fun _ mem => absurd mem List.not_mem_nil
  | cons field rest ih =>
    obtain ⟨_, own, later⟩ := bind_eq_ok.mp ok
    obtain ⟨_, _, more⟩ := bind_eq_ok.mp own
    obtain ⟨_, _, more⟩ := bind_eq_ok.mp more
    obtain ⟨_, _, more⟩ := bind_eq_ok.mp more
    obtain ⟨current, resolved, same⟩ := bind_eq_ok.mp more
    obtain rfl : current = field := of_decide_eq_true (require_eq_ok.mp same)
    exact List.forall_mem_cons.mpr ⟨resolved, ih later⟩

theorem resolveProjection_ok {fields : List RuntimeFieldHandle} {projection : RuntimeProjection}
    (ok : schema.resolveProjection handle fields = .ok projection) :
    ∃ collection, schema.collection? handle.id = some collection ∧
      handle.schemaFingerprint = schema.fingerprint ∧
      (∀ field ∈ fields, ResolvesTo schema handle field) ∧
      projection = ⟨handle.schemaFingerprint, handle, fields,
        collection.fields.foldl (fun kinds field => kinds.insert field.id field.valueKind)
          OrderedMap.empty⟩ := by
  obtain ⟨collection, checked, more⟩ := bind_eq_ok.mp ok
  obtain ⟨_, _, more⟩ := bind_eq_ok.mp more
  obtain ⟨_, members, made⟩ := bind_eq_ok.mp more
  obtain ⟨_, current, known⟩ := bind_eq_ok.mp checked
  cases made
  exact ⟨collection, okOr_eq_ok.mp known, of_decide_eq_true (require_eq_ok.mp current),
    resolveMembers_ok members, rfl⟩

/-- A request that is accepted is resolved, for an order of the same collection. -/
theorem runtimeReadRequest_ok {projection : RuntimeProjection}
    {predicate : Option (RuntimePredicate φ)} {order : RuntimeOrder} {page : RuntimePageRequest}
    {includeTotalCount : Bool} {limits : RuntimeQueryLimits} {request : RuntimeReadRequest φ}
    (ordered : ∀ term ∈ order.terms, ResolvesTo schema handle term.field)
    (ok : schema.runtimeReadRequest handle projection predicate order page includeTotalCount limits =
      .ok request) :
    ∃ collection decodeProjection longest, Resolved schema collection request ∧
      request = ⟨schema.fingerprint, handle, projection, decodeProjection, predicate, order, page,
        includeTotalCount, limits, none⟩ ∧
      0 < page.size ∧ maxEncodedCursor limits = some longest ∧
      ∀ page' : RuntimePageRequest, page'.size = page.size →
        (page'.cursor.all fun text => text.utf8ByteSize ≤ longest) = true →
          schema.runtimeReadRequest handle projection predicate order page' includeTotalCount limits =
            .ok { request with page := page' } := by
  obtain ⟨_, current, more⟩ := bind_eq_ok.mp ok
  obtain ⟨_, bound, more⟩ := bind_eq_ok.mp more
  obtain ⟨_, projected, more⟩ := bind_eq_ok.mp more
  obtain ⟨_, filtered, more⟩ := bind_eq_ok.mp more
  obtain ⟨_, sized, more⟩ := bind_eq_ok.mp more
  obtain ⟨longest, capped, more⟩ := bind_eq_ok.mp more
  obtain ⟨_, _, more⟩ := bind_eq_ok.mp more
  split at more
  · cases more
  next decodeProjection resolved =>
    cases more
    obtain ⟨owner, located, physical⟩ := checkCollection_ok current
    obtain ⟨collection, known, printed, each, rfl⟩ := resolveProjection_ok resolved
    obtain rfl : collection = owner := Option.some.inj (known.symm.trans located)
    have bound := require_eq_ok.mp bound
    simp only [Bool.and_eq_true, decide_eq_true_eq] at bound
    refine ⟨collection, _, longest, ?_, rfl, ?_, okOr_eq_ok.mp capped, fun page' same short => ?_⟩
    · exact {
        found := known
        table := physical
        fingerprint := rfl
        fields := each
        decodeSchema := printed
        decodeCollection := rfl
        kinds := rfl
        outputSchema := bound.1.1.1
        outputCollection := bound.1.1.2
        output := unionFields_left
        order := fun term mem => by
          -- A field of the union has the term's identifier, which resolves to one handle.
          obtain ⟨field, among, same⟩ := unionFields_right term mem
          have own := each field among
          rw [ResolvesTo, same, ordered term mem] at own
          exact Except.ok.inj own ▸ among }
    · have sized := require_eq_ok.mp sized
      simp only [Bool.and_eq_true, decide_eq_true_eq] at sized
      exact sized.1.1
    · rw [← same] at sized
      refine bind_eq_ok.mpr ⟨(), current, bind_eq_ok.mpr ⟨(), require_eq_ok.mpr ?_, bind_eq_ok.mpr
        ⟨(), projected, bind_eq_ok.mpr ⟨(), filtered, bind_eq_ok.mpr ⟨(), sized, bind_eq_ok.mpr
          ⟨longest, capped, bind_eq_ok.mpr ⟨(), require_eq_ok.mpr short, ?_⟩⟩⟩⟩⟩⟩⟩
      · simpa using bound
      · rw [resolved]
        rfl

end GraphqlOrm.Runtime
