import GraphqlOrm.Router.OperationVariables

/-!
# What is projected

A variable goes along exactly when it is a small scalar and, together with the candidates that are
named before it, it fits the projection and the message.
-/
namespace GraphqlOrm.Router

/-! ### The greedy choice -/

def upTo (name : String) (among : List Candidate) : List Candidate :=
  among.filter fun candidate => candidate.name ≤ name

def Candidate.entry (candidate : Candidate) : String × JsonValue := (candidate.name, candidate.value)

section Greedy

variable {used : Nat} {among : List Candidate}

theorem takeFitting_initial (used : Nat) (among : List Candidate) :
    takeFitting used among <+: among.map Candidate.entry := by
  induction among generalizing used with
  | nil => exact List.nil_prefix
  | cons candidate rest ih =>
    unfold takeFitting
    split
    · exact List.nil_prefix
    · exact List.cons_prefix_cons.mpr ⟨rfl, ih _⟩

/-- A candidate is taken when those up to it fit together. -/
theorem mem_takeFitting (sorted : among.Pairwise fun a b => a.name < b.name)
    {entry : String × JsonValue} :
    entry ∈ takeFitting used among ↔ ∃ candidate ∈ among, candidate.entry = entry ∧
      used + ((upTo candidate.name among).map Candidate.encodedBytes).sum ≤
        maxAuthorizationVariableBytes := by
  induction among generalizing used with
  | nil => simp [takeFitting]
  | cons first rest ih =>
    obtain ⟨above, below⟩ := List.pairwise_cons.mp sorted
    -- The first one is counted before each other, and no other one before it.
    have alone : upTo first.name (first :: rest) = [first] := by
      unfold upTo
      rw [List.filter_cons_of_pos (by simp), List.filter_eq_nil_iff.mpr]
      intro candidate mem
      simpa using above candidate mem
    have counted (candidate : Candidate) (mem : candidate ∈ rest) :
        upTo candidate.name (first :: rest) = first :: upTo candidate.name rest := by
      unfold upTo
      rw [List.filter_cons_of_pos]
      simpa using (above candidate mem).le
    unfold takeFitting
    split
    next tooLong =>
      refine ⟨nofun, ?_⟩
      rintro ⟨candidate, mem, _, fits⟩
      rcases List.mem_cons.mp mem with rfl | later
      · rw [alone, List.map_singleton, List.sum_singleton] at fits
        omega
      · rw [counted candidate later, List.map_cons, List.sum_cons] at fits
        omega
    next fits =>
      rw [List.mem_cons, ih below]
      constructor
      · rintro (rfl | ⟨candidate, later, own, together⟩)
        · refine ⟨first, .head _, rfl, ?_⟩
          rw [alone, List.map_singleton, List.sum_singleton]
          omega
        · refine ⟨candidate, List.mem_cons_of_mem _ later, own, ?_⟩
          rw [counted candidate later, List.map_cons, List.sum_cons]
          omega
      · rintro ⟨candidate, mem, own, together⟩
        rcases List.mem_cons.mp mem with rfl | later
        · exact .inl own.symm
        · refine .inr ⟨candidate, later, own, ?_⟩
          rw [counted candidate later, List.map_cons, List.sum_cons] at together
          omega

end Greedy

theorem candidates_names (supplied : OrderedMap String JsonValue) :
    ((candidates supplied).map Candidate.name).Nodup := by
  refine ((sortBy_perm _ _).map _).nodup_iff.mpr ?_
  have chosen : ((supplied.entries.filterMap fun entry =>
      if isScalar entry.2 ∧ encodedLength entry.2 ≤ maxAuthorizationVariableValueBytes then
        some (⟨entry.1, entry.2, entry.1.utf8ByteSize + encodedLength entry.2⟩ : Candidate)
      else none).map Candidate.name).Sublist supplied.keys := by
    unfold OrderedMap.keys
    induction supplied.entries with
    | nil => exact List.Sublist.slnil
    | cons entry rest ih =>
      rw [List.filterMap_cons]
      split
      next dropped =>
        exact ih.cons _
      next candidate kept =>
        split at kept
        · obtain rfl := Option.some.inj kept
          exact ih.cons_cons _
        · cases kept
  exact chosen.nodup supplied.keys_nodup

theorem candidates_sorted (supplied : OrderedMap String JsonValue) :
    (candidates supplied).Pairwise fun a b => a.name < b.name := by
  have ordered : (candidates supplied).Pairwise fun a b => a.name ≤ b.name := sortBy_ordered _ _
  have distinct := List.pairwise_map.mp (candidates_names supplied)
  exact ordered.imp₂ (fun _ _ below other => lt_of_le_of_ne below other) distinct

theorem mem_candidates {supplied : OrderedMap String JsonValue} {candidate : Candidate} :
    candidate ∈ candidates supplied ↔
      supplied.get? candidate.name = some candidate.value ∧ isScalar candidate.value = true ∧
        encodedLength candidate.value ≤ maxAuthorizationVariableValueBytes ∧
        candidate.encodedBytes = candidate.name.utf8ByteSize + encodedLength candidate.value := by
  unfold candidates
  rw [mem_sortBy, List.mem_filterMap]
  constructor
  · rintro ⟨⟨name, value⟩, mem, chosen⟩
    split at chosen
    next small =>
      obtain rfl := Option.some.inj chosen
      exact ⟨OrderedMap.mem_entries.mp mem, small.1, small.2, rfl⟩
    · cases chosen
  · obtain ⟨name, value, encodedBytes⟩ := candidate
    rintro ⟨found, scalar, small, bytes⟩
    refine ⟨(name, value), OrderedMap.mem_entries.mpr found, ?_⟩
    rw [if_pos ⟨scalar, small⟩]
    exact congrArg (fun length => some (Candidate.mk name value length)) bytes.symm

/-! ### Lengths -/

variable {xs ys : List (String × JsonValue)}

theorem membersLength_sublist (sub : xs.Sublist ys) :
    membersLength xs ≤ membersLength ys := by
  induction sub with
  | slnil => exact Nat.le_refl _
  | cons entry _ ih | cons_cons entry _ ih =>
    simp only [membersLength]
    omega

theorem encodedLength_sublist (sub : xs.Sublist ys) :
    encodedLength (.object xs) ≤ encodedLength (.object ys) := by
  have members := membersLength_sublist sub
  have count := sub.length_le
  simp only [encodedLength]
  omega

variable {value : JsonValue}

theorem place_lengths (name : String) {other : JsonValue}
    (shorter : encodedLength value ≤ encodedLength other) (xs : List (String × JsonValue)) :
    (OrderedMap.place name value xs).length = (OrderedMap.place name other xs).length ∧
      membersLength (OrderedMap.place name value xs) ≤
        membersLength (OrderedMap.place name other xs) := by
  induction xs with
  | nil =>
    simp only [OrderedMap.place, membersLength]
    exact ⟨rfl, by omega⟩
  | cons entry rest ih =>
    simp only [OrderedMap.place]
    split
    · simp only [membersLength, List.length_cons]
      exact ⟨trivial, by omega⟩
    split
    · simp only [membersLength, List.length_cons]
      exact ⟨trivial, by omega⟩
    · simp only [membersLength, List.length_cons]
      exact ⟨by omega, by omega⟩

variable {name : String}

/-- A longer value makes an object longer. -/
theorem encodedLength_insert {map : OrderedMap String JsonValue} {other : JsonValue}
    (shorter : encodedLength value ≤ encodedLength other) :
    encodedLength (ofObject (map.insert name value)) ≤
      encodedLength (ofObject (map.insert name other)) := by
  obtain ⟨count, members⟩ := place_lengths name shorter map.entries
  simp only [ofObject, OrderedMap.insert, encodedLength]
  omega

theorem withExtension_mono (message payload extensions : OrderedMap String JsonValue)
    (sub : xs.Sublist ys) :
    encodedLength (withExtension message payload extensions (some xs)) ≤
      encodedLength (withExtension message payload extensions (some ys)) :=
  encodedLength_insert <| encodedLength_insert <| encodedLength_insert <| encodedLength_sublist sub

/-! ### The message within its bound -/

/-- What is left of the projection are the variables up to which the message keeps its bound. -/
theorem truncate_eq {message : Option (List (String × JsonValue)) → JsonValue}
    (mono : ∀ xs ys : List (String × JsonValue), xs.Sublist ys →
      encodedLength (message (some xs)) ≤ encodedLength (message (some ys)))
    (internalMaxBytes : Nat) {left : List (String × JsonValue)}
    (sorted : left.reverse.Pairwise fun a b => a.1 < b.1) :
    ∃ kept, truncate message internalMaxBytes left = message kept ∧
      (kept.getD []).Sublist left.reverse ∧
      ∀ entry, entry ∈ kept.getD [] ↔ entry ∈ left.reverse ∧
        encodedLength (message (some (left.reverse.filter fun other => other.1 ≤ entry.1))) ≤
          internalMaxBytes := by
  induction left with
  | nil =>
    unfold truncate
    split
    · exact ⟨none, rfl, List.nil_sublist _, by simp⟩
    · exact ⟨some [], rfl, List.nil_sublist _, by simp⟩
  | cons last earlier ih =>
    rw [List.reverse_cons] at sorted ⊢
    obtain ⟨before, _, below⟩ := List.pairwise_append.mp sorted
    -- The last variable is not among those up to an earlier one.
    have without (entry : String × JsonValue) (mem : entry ∈ earlier.reverse) :
        ((earlier.reverse ++ [last]).filter fun other => other.1 ≤ entry.1) =
          earlier.reverse.filter fun other => other.1 ≤ entry.1 := by
      rw [List.filter_append, List.filter_cons_of_neg, List.filter_nil, List.append_nil]
      simpa using below entry mem last (.head _)
    unfold truncate
    rw [List.reverse_cons]
    split
    next tooLong =>
      obtain ⟨kept, same, sub, iff⟩ := ih before
      refine ⟨kept, same, sub.trans (List.sublist_append_left _ _), fun entry => ?_⟩
      rw [iff, List.mem_append, List.mem_singleton]
      constructor
      · rintro ⟨mem, fits⟩
        rw [without entry mem]
        exact ⟨.inl mem, fits⟩
      · rintro ⟨mem | rfl, fits⟩
        · rw [without entry mem] at fits
          exact ⟨mem, fits⟩
        · rw [List.filter_eq_self.mpr] at fits
          · omega
          · intro other among
            rcases List.mem_append.mp among with there | here
            · simpa using (below other there entry (.head _)).le
            · simp [List.mem_singleton.mp here]
    next fits =>
      refine ⟨_, rfl, List.Sublist.refl _, fun entry => ?_⟩
      have whole := mono _ _ (List.filter_sublist (p := fun other => other.1 ≤ entry.1)
        (l := earlier.reverse ++ [last]))
      exact ⟨fun mem => ⟨mem, by omega⟩, And.left⟩

/-! ### Reading the message -/

theorem asObject_ofObject (map : OrderedMap String JsonValue) : asObject (ofObject map) = some map := by
  unfold asObject ofObject
  refine congrArg some (OrderedMap.eq_of_get? fun name => Option.ext fun value => ?_)
  rw [OrderedMap.get?_foldl_entries map.keys_nodup, OrderedMap.mem_entries]

theorem objectMember_insert (map inner : OrderedMap String JsonValue) (name other : String) :
    objectMember other (map.insert name (ofObject inner)) =
      if other = name then some inner else objectMember other map := by
  unfold objectMember
  rw [OrderedMap.get?_insert]
  split
  · exact asObject_ofObject inner
  · rfl

section Reading

variable {members payload extensions : OrderedMap String JsonValue}

/-- The extension of a message, with which its operation is analysed. -/
theorem subscriptionVariables_withExtension {kept : Option (List (String × JsonValue))}
    (unique : ((kept.getD []).map Prod.fst).Nodup) (name : String) (value : JsonValue) :
    subscriptionVariables (withExtension members payload extensions kept) name = some value ↔
      (name, value) ∈ kept.getD [] := by
  unfold subscriptionVariables payloadMember withExtension
  rw [asObject_ofObject, Option.bind_some, objectMember_insert, if_pos rfl, Option.bind_some,
    objectMember_insert, if_pos rfl, Option.bind_some]
  cases kept with
  | none =>
    unfold objectMember
    simp only
    rw [OrderedMap.get?_erase, if_pos rfl]
    simp
  | some entries =>
    unfold objectMember
    simp only
    rw [OrderedMap.get?_insert, if_pos rfl, Option.bind_some]
    exact OrderedMap.get?_foldl_entries unique

end Reading

/-! ### What is projected -/

/-- A variable of a message that fits the bounds of the projection. -/
structure Fits (members payload extensions supplied : OrderedMap String JsonValue)
    (internalMaxBytes : Nat) (name : String) (value : JsonValue) : Prop where
  found : supplied.get? name = some value
  scalar : isScalar value = true
  small : encodedLength value ≤ maxAuthorizationVariableValueBytes
  together : ((upTo name (candidates supplied)).map Candidate.encodedBytes).sum ≤
    maxAuthorizationVariableBytes
  message : encodedLength (withExtension members payload extensions
    (some ((upTo name (candidates supplied)).map Candidate.entry))) ≤ internalMaxBytes

/-- A message takes an extension when its payload is an object whose extensions are one. -/
def FitsProjection (message : JsonValue) (internalMaxBytes : Nat) (name : String)
    (value : JsonValue) : Prop :=
  ∃ members payload extensions supplied, asObject message = some members ∧
    objectMember "payload" members = some payload ∧
    asObject ((payload.get? "extensions").getD (.object [])) = some extensions ∧
    objectMember "variables" payload = some supplied ∧
    Fits members payload extensions supplied internalMaxBytes name value

variable {internalMaxBytes : Nat}

theorem mem_kept {members payload extensions supplied : OrderedMap String JsonValue} :
    ((name, value) ∈ takeFitting 0 (candidates supplied) ∧
      encodedLength (withExtension members payload extensions
        (some ((takeFitting 0 (candidates supplied)).filter fun other => other.1 ≤ name))) ≤
          internalMaxBytes) ↔
      Fits members payload extensions supplied internalMaxBytes name value := by
  have sorted := candidates_sorted supplied
  -- The taken ones are the first candidates, so that those up to a taken one are all taken.
  have same (mem : (name, value) ∈ takeFitting 0 (candidates supplied)) :
      ((takeFitting 0 (candidates supplied)).filter fun other => other.1 ≤ name) =
        (upTo name (candidates supplied)).map Candidate.entry := by
    obtain ⟨dropped, whole⟩ := takeFitting_initial 0 (candidates supplied)
    have entries : ((candidates supplied).map Candidate.entry).Pairwise fun a b => a.1 < b.1 :=
      List.pairwise_map.mpr sorted
    rw [← whole] at entries
    have after := (List.pairwise_append.mp entries).2.2 _ mem
    have filtered := congrArg (List.filter fun other => other.1 ≤ name) whole
    rw [List.filter_append, List.filter_map] at filtered
    have rest : (dropped.filter fun other => other.1 ≤ name) = [] := by
      rw [List.filter_eq_nil_iff]
      intro other among
      simpa using after other among
    rwa [rest, List.append_nil] at filtered
  constructor
  · rintro ⟨mem, message⟩
    rw [same mem] at message
    obtain ⟨candidate, listed, own, together⟩ := (mem_takeFitting sorted).mp mem
    obtain ⟨rfl, rfl⟩ := Prod.mk.inj own
    obtain ⟨found, scalar, small, _⟩ := mem_candidates.mp listed
    exact ⟨found, scalar, small, by omega, message⟩
  · rintro ⟨found, scalar, small, together, message⟩
    have mem : (name, value) ∈ takeFitting 0 (candidates supplied) :=
      (mem_takeFitting sorted).mpr ⟨⟨name, value, name.utf8ByteSize + encodedLength value⟩,
        mem_candidates.mpr ⟨found, scalar, small, rfl⟩, rfl, by rwa [Nat.zero_add]⟩
    exact ⟨mem, by rwa [same mem]⟩

variable {message : JsonValue}

theorem suppliedVariables_eq {members payload : OrderedMap String JsonValue}
    (read : asObject message = some members) (inner : objectMember "payload" members = some payload)
    (name : String) :
    suppliedVariables message name =
      (objectMember "variables" payload).bind fun supplied => supplied.get? name := by
  unfold suppliedVariables payloadMember
  rw [read, Option.bind_some, inner, Option.bind_some]

/-- The analysis sees just the supplied variables that fit. -/
theorem subscriptionVariables_eq :
    subscriptionVariables (injectOperationVariables message internalMaxBytes) name = some value ↔
      FitsProjection message internalMaxBytes name value := by
  unfold injectOperationVariables
  cases read : asObject message with
  | none =>
    simp [subscriptionVariables, payloadMember, FitsProjection, read]
  | some members =>
    cases inner : objectMember "payload" members with
    | none => simp [subscriptionVariables, payloadMember, FitsProjection, read, inner]
    | some payload =>
      simp only
      cases open_ : asObject ((payload.get? "extensions").getD (.object [])) with
      | none =>
        have closed : objectMember "extensions" payload = none := by
          unfold objectMember
          cases found : payload.get? "extensions" with
          | none => rfl
          | some value =>
            rw [found, Option.getD_some] at open_
            exact open_
        simp [subscriptionVariables, payloadMember, FitsProjection, read, inner, open_, closed]
      | some extensions =>
        generalize chosen : (objectMember "variables" payload).getD .empty = supplied
        have sorted : (takeFitting 0 (candidates supplied)).reverse.reverse.Pairwise fun a b =>
            a.1 < b.1 := by
          rw [List.reverse_reverse]
          refine List.Pairwise.sublist (takeFitting_initial 0 _).sublist ?_
          exact List.pairwise_map.mpr (candidates_sorted supplied)
        obtain ⟨kept, same, sub, iff⟩ := truncate_eq
          (fun _ _ => withExtension_mono members payload extensions) internalMaxBytes sorted
        rw [List.reverse_reverse] at sorted sub iff
        have unique : ((kept.getD []).map Prod.fst).Nodup :=
          List.pairwise_map.mpr ((sorted.sublist sub).imp ne_of_lt)
        simp only [inner, open_, chosen]
        rw [same, subscriptionVariables_withExtension unique, iff, mem_kept]
        constructor
        · intro fits
          cases given : objectMember "variables" payload with
          | none =>
            -- Without variables there is nothing to project.
            rw [given] at chosen
            obtain rfl := chosen
            cases fits.found
          | some own =>
            rw [given] at chosen
            obtain rfl := chosen
            exact ⟨members, payload, extensions, _, read, inner, open_, given, fits⟩
        · rintro ⟨members', payload', extensions', supplied', read', inner', open', given, fits⟩
          obtain rfl := Option.some.inj (read.symm.trans read')
          obtain rfl := Option.some.inj (inner.symm.trans inner')
          obtain rfl := Option.some.inj (open_.symm.trans open')
          rw [given] at chosen
          obtain rfl := chosen
          exact fits

/-- What the analysis sees of a variable is what was supplied. -/
theorem FitsProjection.supplied (fits : FitsProjection message internalMaxBytes name value) :
    suppliedVariables message name = some value := by
  obtain ⟨members, payload, extensions, supplied, read, inner, _, given, fits⟩ := fits
  rw [suppliedVariables_eq read inner, given, Option.bind_some]
  exact fits.found

end GraphqlOrm.Router
