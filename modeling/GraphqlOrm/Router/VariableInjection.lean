import GraphqlOrm.Router.Projection

/-!
# What is written into a subscribe message

The extension with the projected variables is the only part of a message that the gateway writes,
whatever the client has put there and however the message is formed.

## Main results

* `injectOperationVariables_cases`: what becomes of a message
* `injectOperationVariables_safe_iff`: when the written message keeps all its bounds
-/
namespace GraphqlOrm.Router

/-! ### Parts of a message -/

def reservedEntry (message : JsonValue) : Option JsonValue :=
  (payloadMember "extensions" message).bind fun extensions =>
    extensions.get? internalSubscriptionVariablesExtension

def withoutReserved (message : JsonValue) : JsonValue :=
  ((asObject message).bind fun members =>
    (objectMember "payload" members).bind fun payload =>
      (objectMember "extensions" payload).map fun extensions =>
        withExtension members payload extensions none).getD message

def withExtensions (message : JsonValue) : JsonValue :=
  ((asObject message).bind fun members =>
    (objectMember "payload" members).bind fun payload =>
      if (payload.get? "extensions").isNone then
        some (ofObject (members.insert "payload" (ofObject (payload.insert "extensions" (.object [])))))
      else none).getD message

/-- Supplied scalars, each and together within the bounds of the projection. -/
structure IsProjection (message reserved : JsonValue) : Prop where
  entries : ∃ map, asObject reserved = some map ∧
    (∀ name value, map.get? name = some value → suppliedVariables message name = some value ∧
      isScalar value = true ∧ encodedLength value ≤ maxAuthorizationVariableValueBytes) ∧
    (map.entries.map fun entry => entry.1.utf8ByteSize + encodedLength entry.2).sum ≤
      maxAuthorizationVariableBytes

/-! ### The cases of the function -/

section Parts

variable {message : JsonValue} {members payload extensions : OrderedMap String JsonValue}

/-- What is read back of a message with an extension. -/
theorem payload_withExtension (kept : Option (List (String × JsonValue))) :
    ∃ members' payload' extensions' : OrderedMap String JsonValue,
      asObject (withExtension members payload extensions kept) = some members' ∧
      objectMember "payload" members' = some payload' ∧
      objectMember "extensions" payload' = some extensions' ∧
      payload'.get? "extensions" = some (ofObject extensions') ∧
      objectMember "variables" payload' = objectMember "variables" payload ∧
      extensions'.get? internalSubscriptionVariablesExtension = kept.map Json.Value.object ∧
      withExtension members' payload' extensions' = withExtension members payload extensions := by
  obtain ⟨extensions', written, entry, same⟩ : ∃ extensions' : OrderedMap String JsonValue,
      withExtension members payload extensions kept = ofObject (members.insert "payload"
        (ofObject (payload.insert "extensions" (ofObject extensions')))) ∧
      extensions'.get? internalSubscriptionVariablesExtension = kept.map Json.Value.object ∧
      withExtension members payload extensions' = withExtension members payload extensions := by
    cases kept with
    | none =>
      refine ⟨_, rfl, by rw [OrderedMap.get?_erase, if_pos rfl]; rfl, funext fun later => ?_⟩
      cases later with
      | none => simp only [withExtension, OrderedMap.erase_erase]
      | some later => simp only [withExtension, OrderedMap.insert_erase]
    | some kept =>
      refine ⟨_, rfl, by rw [OrderedMap.get?_insert, if_pos rfl]; rfl, funext fun later => ?_⟩
      cases later with
      | none => simp only [withExtension, OrderedMap.erase_insert]
      | some later => simp only [withExtension, OrderedMap.insert_insert]
  refine ⟨_, _, extensions', by rw [written, asObject_ofObject], by rw [objectMember_insert, if_pos rfl],
    by rw [objectMember_insert, if_pos rfl], by rw [OrderedMap.get?_insert, if_pos rfl],
    by rw [objectMember_insert, if_neg (by decide)], entry, ?_⟩
  rw [← same]
  funext later
  simp only [withExtension, OrderedMap.insert_insert]

theorem withoutReserved_eq (read : asObject message = some members)
    (inner : objectMember "payload" members = some payload)
    (held : objectMember "extensions" payload = some extensions) :
    withoutReserved message = withExtension members payload extensions none := by
  rw [withoutReserved, read, Option.bind_some, inner, Option.bind_some, held, Option.map_some,
    Option.getD_some]

theorem withoutReserved_withExtension (kept : Option (List (String × JsonValue))) :
    withoutReserved (withExtension members payload extensions kept) =
      withExtension members payload extensions none := by
  obtain ⟨members', payload', extensions', read, inner, held, -, -, -, same⟩ :=
    @payload_withExtension members payload extensions kept
  rw [withoutReserved_eq read inner held, same]

/-- What is kept of the variables, if the message gets short enough at all. -/
theorem truncate_cases (write : Option (List (String × JsonValue)) → JsonValue)
    (internalMaxBytes : Nat) (left : List (String × JsonValue)) :
    ∃ kept, truncate write internalMaxBytes left = write kept ∧
      (kept.getD []).Sublist left.reverse ∧
      (kept = none ∨ encodedLength (write kept) ≤ internalMaxBytes) := by
  induction left with
  | nil =>
    rw [truncate]
    split
    next => exact ⟨none, rfl, List.nil_sublist _, .inl rfl⟩
    next fits => exact ⟨some [], rfl, List.nil_sublist _, .inr (Nat.le_of_not_lt fits)⟩
  | cons last earlier ih =>
    rw [truncate]
    split
    next =>
      obtain ⟨kept, same, sub, short⟩ := ih
      refine ⟨kept, same, ?_, short⟩
      rw [List.reverse_cons]
      exact sub.trans (List.sublist_append_left _ _)
    next fits => exact ⟨some _, rfl, List.Sublist.refl _, .inr (Nat.le_of_not_lt fits)⟩

theorem inject_eq (read : asObject message = some members)
    (inner : objectMember "payload" members = some payload)
    (held : asObject ((payload.get? "extensions").getD (.object [])) = some extensions)
    (internalMaxBytes : Nat) :
    injectOperationVariables message internalMaxBytes =
      truncate (withExtension members payload extensions) internalMaxBytes
        (takeFitting 0 (candidates ((objectMember "variables" payload).getD .empty))).reverse := by
  simp only [injectOperationVariables, read, inner, held]

/-- What was written before does not matter. -/
theorem inject_withExtension (kept : Option (List (String × JsonValue))) (internalMaxBytes : Nat) :
    injectOperationVariables (withExtension members payload extensions kept) internalMaxBytes =
      truncate (withExtension members payload extensions) internalMaxBytes
        (takeFitting 0 (candidates ((objectMember "variables" payload).getD .empty))).reverse := by
  obtain ⟨members', payload', extensions', read, inner, -, held, given, -, same⟩ :=
    @payload_withExtension members payload extensions kept
  have opened : asObject ((payload'.get? "extensions").getD (.object [])) = some extensions' := by
    rw [held, Option.getD_some, asObject_ofObject]
  rw [inject_eq read inner opened, given, same]

theorem reservedEntry_withExtension (kept : Option (List (String × JsonValue))) :
    reservedEntry (withExtension members payload extensions kept) = kept.map Json.Value.object := by
  obtain ⟨members', payload', extensions', read, inner, held, -, -, entry, -⟩ :=
    @payload_withExtension members payload extensions kept
  rw [reservedEntry, payloadMember, read, Option.bind_some, inner, Option.bind_some, held,
    Option.bind_some, entry]

end Parts

/-! ### Messages with and without the extension -/

/-- A message keeps an extension out, or it is written with one that holds some of the
variables, within the bound or with nothing left. -/
theorem injectOperationVariables_cases (message : JsonValue) (internalMaxBytes : Nat) :
    (injectOperationVariables message internalMaxBytes = message ∧ reservedEntry message = none ∧
      withoutReserved message = message ∧ withExtensions message = message) ∨
    ∃ members payload extensions kept, asObject message = some members ∧
      objectMember "payload" members = some payload ∧
      asObject ((payload.get? "extensions").getD (.object [])) = some extensions ∧
      injectOperationVariables message internalMaxBytes =
        withExtension members payload extensions kept ∧
      (kept.getD []).Sublist
        (takeFitting 0 (candidates ((objectMember "variables" payload).getD .empty))) ∧
      (kept = none ∨
        encodedLength (withExtension members payload extensions kept) ≤ internalMaxBytes) := by
  cases read : asObject message with
  | none =>
    exact .inl ⟨by simp only [injectOperationVariables, read],
      by simp [reservedEntry, payloadMember, read], by simp [withoutReserved, read],
      by simp [withExtensions, read]⟩
  | some members =>
    cases inner : objectMember "payload" members with
    | none =>
      exact .inl ⟨by simp only [injectOperationVariables, read, inner],
        by simp [reservedEntry, payloadMember, read, inner], by simp [withoutReserved, read, inner],
        by simp [withExtensions, read, inner]⟩
    | some payload =>
      cases held : asObject ((payload.get? "extensions").getD (.object [])) with
      | none =>
        -- Something else than an object stands in the place of the extensions.
        have present : (payload.get? "extensions").isNone = false := by
          cases found : payload.get? "extensions" with
          | none => rw [found] at held; cases held
          | some value => rfl
        have closed : objectMember "extensions" payload = none := by
          obtain ⟨value, found⟩ := Option.isSome_iff_exists.mp (by simpa using present)
          rw [found, Option.getD_some] at held
          rw [objectMember, found, Option.bind_some, held]
        exact .inl ⟨by simp only [injectOperationVariables, read, inner, held],
          by simp [reservedEntry, payloadMember, read, inner, closed],
          by simp [withoutReserved, read, inner, closed],
          by rw [withExtensions, read, Option.bind_some, inner, Option.bind_some, present]; rfl⟩
      | some extensions =>
        generalize left : takeFitting 0
          (candidates ((objectMember "variables" payload).getD .empty)) = projected
        obtain ⟨kept, same, sub, short⟩ :=
          truncate_cases (withExtension members payload extensions) internalMaxBytes projected.reverse
        rw [List.reverse_reverse] at sub
        exact .inr ⟨members, payload, extensions, kept, rfl, inner, held,
          by rw [inject_eq read inner held, left, same], by rwa [left], short⟩

section Written

variable {message : JsonValue} {members payload extensions : OrderedMap String JsonValue}

theorem withoutReserved_withExtensions (read : asObject message = some members)
    (inner : objectMember "payload" members = some payload)
    (held : asObject ((payload.get? "extensions").getD (.object [])) = some extensions) :
    withoutReserved (withExtensions message) = withExtension members payload extensions none := by
  rw [withExtensions, read, Option.bind_some, inner, Option.bind_some]
  cases found : payload.get? "extensions" with
  | some value =>
    rw [found, Option.getD_some] at held
    have held' : objectMember "extensions" payload = some extensions := by
      rw [objectMember, found, Option.bind_some, held]
    rw [Option.isNone_some, if_neg Bool.false_ne_true, Option.getD_none]
    exact withoutReserved_eq read inner held'
  | none =>
    -- The message with empty extensions is what is written when nothing is kept.
    rw [found, Option.getD_none] at held
    obtain rfl := Option.some.inj held
    exact @withoutReserved_withExtension members payload .empty none

theorem inject_withoutReserved (message : JsonValue) (internalMaxBytes : Nat) :
    injectOperationVariables (withoutReserved message) internalMaxBytes =
      injectOperationVariables message internalMaxBytes := by
  cases read : asObject message with
  | none => rw [withoutReserved, read, Option.bind_none, Option.getD_none]
  | some members =>
    cases inner : objectMember "payload" members with
    | none => rw [withoutReserved, read, Option.bind_some, inner, Option.bind_none, Option.getD_none]
    | some payload =>
      cases held : objectMember "extensions" payload with
      | none =>
        rw [withoutReserved, read, Option.bind_some, inner, Option.bind_some, held, Option.map_none,
          Option.getD_none]
      | some extensions =>
        obtain ⟨value, found, object⟩ := Option.bind_eq_some_iff.mp held
        have held' : asObject ((payload.get? "extensions").getD (.object [])) = some extensions := by
          rw [found, Option.getD_some, object]
        rw [withoutReserved_eq read inner held, inject_withExtension, inject_eq read inner held']

/-! ### The bounds of the projection -/

theorem takeFitting_bytes {used : Nat} {among : List Candidate}
    (room : used ≤ maxAuthorizationVariableBytes)
    (counted : ∀ candidate ∈ among, candidate.encodedBytes =
      candidate.name.utf8ByteSize + encodedLength candidate.value) :
    used + ((takeFitting used among).map fun entry =>
      entry.1.utf8ByteSize + encodedLength entry.2).sum ≤ maxAuthorizationVariableBytes := by
  induction among generalizing used with
  | nil => simpa [takeFitting] using room
  | cons candidate rest ih =>
    obtain ⟨own, later⟩ := List.forall_mem_cons.mp counted
    rw [takeFitting]
    split
    next => simpa using room
    next fits =>
      have following := ih (Nat.le_of_not_lt fits) later
      rw [List.map_cons, List.sum_cons]
      dsimp only
      omega

theorem sum_sublist {α : Type} {f : α → Nat} {xs ys : List α} (sub : xs.Sublist ys) :
    (xs.map f).sum ≤ (ys.map f).sum := by
  induction sub with
  | slnil => exact Nat.le_refl _
  | cons entry _ ih => rw [List.map_cons, List.sum_cons]; omega
  | cons_cons entry _ ih => rw [List.map_cons, List.map_cons, List.sum_cons, List.sum_cons]; omega

theorem isProjection_kept {supplied : OrderedMap String JsonValue} {kept : List (String × JsonValue)}
    (given : ∀ name, suppliedVariables message name = supplied.get? name)
    (sub : kept.Sublist (takeFitting 0 (candidates supplied))) :
    IsProjection message (.object kept) := by
  have initial := takeFitting_initial 0 (candidates supplied)
  have among : kept.Sublist ((candidates supplied).map Candidate.entry) := sub.trans initial.sublist
  have entries : ((candidates supplied).map Candidate.entry).Pairwise fun a b => a.1 < b.1 :=
    List.pairwise_map.mpr (candidates_sorted supplied)
  have sorted := entries.sublist among
  refine ⟨⟨kept, sorted⟩, asObject_ofObject ⟨kept, sorted⟩, ?_, ?_⟩
  · intro name value found
    obtain ⟨candidate, listed, own⟩ :=
      List.mem_map.mp (among.subset (OrderedMap.mem_entries.mpr found))
    obtain ⟨rfl, rfl⟩ := Prod.mk.inj own
    obtain ⟨found', scalar, small, -⟩ := mem_candidates.mp listed
    exact ⟨(given _).trans found', scalar, small⟩
  · have bound := takeFitting_bytes (Nat.zero_le _)
      fun candidate (listed : candidate ∈ candidates supplied) => (mem_candidates.mp listed).2.2.2
    rw [Nat.zero_add] at bound
    exact (sum_sublist sub).trans bound

end Written

/-! ### The written message -/

def KeepsRoom (message : JsonValue) (internalMaxBytes : Nat) : Prop :=
  encodedLength (withoutReserved message) ≤ internalMaxBytes →
    encodedLength (withoutReserved (withExtensions message)) ≤ internalMaxBytes

theorem encodedLength_withExtension_none (members payload extensions : OrderedMap String JsonValue)
    (kept : Option (List (String × JsonValue))) :
    encodedLength (withExtension members payload extensions none) ≤
      encodedLength (withExtension members payload extensions kept) := by
  cases kept with
  | none => exact Nat.le_refl _
  | some kept =>
    exact encodedLength_insert <| encodedLength_insert <|
      encodedLength_sublist (OrderedMap.erase_sublist_insert _ _ _)

/-- Whatever the message, the reserved entry is a projection of its variables, the client's
entry does not count and nothing else is changed; and the bound on the message is kept just
when extensions that are added leave room for it. -/
theorem injectOperationVariables_safe_iff (message : JsonValue) (internalMaxBytes : Nat) :
    ((∀ reserved, reservedEntry (injectOperationVariables message internalMaxBytes) = some reserved →
        IsProjection message reserved) ∧
      (∀ other, withoutReserved other = withoutReserved message →
        injectOperationVariables other internalMaxBytes =
          injectOperationVariables message internalMaxBytes) ∧
      withoutReserved (injectOperationVariables message internalMaxBytes) =
        withoutReserved (withExtensions message) ∧
      (encodedLength (withoutReserved message) ≤ internalMaxBytes →
        encodedLength (injectOperationVariables message internalMaxBytes) ≤ internalMaxBytes)) ↔
    KeepsRoom message internalMaxBytes := by
  have unforged (other : JsonValue) (same : withoutReserved other = withoutReserved message) :
      injectOperationVariables other internalMaxBytes =
        injectOperationVariables message internalMaxBytes := by
    rw [← inject_withoutReserved other, same, inject_withoutReserved]
  rcases injectOperationVariables_cases message internalMaxBytes with
    ⟨same, absent, own, open_⟩ |
      ⟨members, payload, extensions, kept, read, inner, held, written, sub, short⟩
  · rw [same] at unforged ⊢
    rw [KeepsRoom, open_, absent]
    exact ⟨fun _ fits => fits, fun _ => ⟨nofun, unforged, rfl, fun fits => own ▸ fits⟩⟩
  · have opened := withoutReserved_withExtensions read inner held
    have shorter := encodedLength_withExtension_none members payload extensions kept
    rw [KeepsRoom, opened, written]
    constructor
    · rintro ⟨-, -, -, bounded⟩ fits
      exact shorter.trans (bounded fits)
    · intro room
      refine ⟨?_, fun other alike => (unforged other alike).trans written,
        withoutReserved_withExtension kept, fun fits => ?_⟩
      · intro reserved entry
        rw [reservedEntry_withExtension] at entry
        obtain ⟨some_, rfl, rfl⟩ := Option.map_eq_some_iff.mp entry
        apply isProjection_kept _ sub
        intro name
        rw [suppliedVariables_eq read inner]
        cases objectMember "variables" payload <;> rfl
      · rcases short with rfl | short
        · exact room fits
        · exact short

def bareMessage : JsonValue :=
  .object [("id", .text "1"), ("payload", .object [("query", .text "subscription{a}")]),
    ("type", .text "subscribe")]

/-- The message takes up the whole bound, and what is written of it does not keep it. -/
theorem injectOperationVariables_exceeds :
    encodedLength (withoutReserved bareMessage) ≤ 67 ∧
      67 < encodedLength (injectOperationVariables bareMessage 67) := by
  decide

end GraphqlOrm.Router
