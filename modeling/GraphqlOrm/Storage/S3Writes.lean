import GraphqlOrm.Foundation.Sha256
import GraphqlOrm.Storage.S3

/-!
# Writes to the S3 store

What a write leaves at the provider, for every chunking of the body and every combination of calls
that fail.

## Main results

- `putBlobInner_iff`: a write is all or nothing exactly when nothing fails between the creation of
  its upload and the completion, and a completion that fails is followed by an abort that works.
- `writeBody_written`: the ways in which a write ends, with the parts that it uploads.
-/
namespace GraphqlOrm.Storage.S3

open Outcome

theorem multipartPartSize_pos : 0 < multipartPartSize := by decide

/-- The first error of a body. -/
def failure : StorageByteStream → Option StorageError
  | [] => none
  | .error error :: _ => some error
  | .ok _ :: rest => failure rest

/-! ### Numbered parts -/

def numberedFrom : Nat → List Bytes → List (Nat × Bytes)
  | _, [] => []
  | n, piece :: rest => (n, piece) :: numberedFrom (n + 1) rest

theorem numberedFrom_append (n : Nat) (pieces : List Bytes) (last : Bytes) :
    numberedFrom n (pieces ++ [last]) = numberedFrom n pieces ++ [(n + pieces.length, last)] := by
  induction pieces generalizing n with
  | nil => rfl
  | cons piece rest ih =>
    rw [List.cons_append, numberedFrom, ih, numberedFrom, List.cons_append, List.length_cons,
      Nat.add_assoc, Nat.add_comm 1]

theorem map_snd_numberedFrom (n : Nat) (pieces : List Bytes) :
    (numberedFrom n pieces).map (·.2) = pieces := by
  induction pieces generalizing n with
  | nil => rfl
  | cons piece rest ih => rw [numberedFrom, List.map_cons, ih]

theorem bounds_of_mem_numberedFrom {n : Nat} {pieces : List Bytes} {part : Nat × Bytes}
    (mem : part ∈ numberedFrom n pieces) : n ≤ part.1 ∧ part.1 < n + pieces.length := by
  induction pieces generalizing n with
  | nil => cases mem
  | cons piece rest ih =>
    rw [List.length_cons]
    rcases List.mem_cons.mp mem with rfl | later
    · exact ⟨Nat.le_refl n, Nat.lt_add_of_pos_right (Nat.succ_pos _)⟩
    · obtain ⟨low, high⟩ := ih later
      exact ⟨by omega, by omega⟩

theorem pairwise_numberedFrom (n : Nat) (pieces : List Bytes) :
    ((numberedFrom n pieces).map (·.1)).Pairwise (· < ·) := by
  induction pieces generalizing n with
  | nil => exact .nil
  | cons piece rest ih =>
    refine List.pairwise_cons.mpr ⟨fun number mem => ?_, ih (n + 1)⟩
    obtain ⟨part, later, rfl⟩ := List.mem_map.mp mem
    exact Nat.lt_of_lt_of_le (Nat.lt_succ_self n) (bounds_of_mem_numberedFrom later).1

theorem find?_of_nodup {parts : List (Nat × Bytes)} (distinct : (parts.map (·.1)).Nodup)
    {part : Nat × Bytes} (mem : part ∈ parts) : parts.find? (·.1 = part.1) = some part := by
  induction parts with
  | nil => cases mem
  | cons first rest ih =>
    rw [List.map_cons, List.nodup_cons] at distinct
    rcases List.mem_cons.mp mem with rfl | later
    · exact List.find?_cons_of_pos (by simp)
    · have other : first.1 ≠ part.1 := fun same =>
        distinct.1 (same ▸ List.mem_map_of_mem later)
      rw [List.find?_cons_of_neg (by simpa using other)]
      exact ih distinct.2 later

section Writes

variable (environment : Environment) (providerKey : String)

def numbered (pieces : List Bytes) : List (Nat × Bytes) := numberedFrom 1 pieces

def completedPart (part : Nat × Bytes) : CompletedPart := ⟨some (environment.eTag part.2), part.1⟩

def stateOf (pieces : List Bytes) : MultipartUploadState :=
  ⟨environment.uploadId, pieces.length + 1, (numbered pieces).map (completedPart environment)⟩

def opened (initial : Provider) (pieces : List Bytes) : Provider :=
  { initial with
    uploads := Function.update initial.uploads environment.uploadId (some (providerKey, numbered pieces))
    received := initial.received ++ numbered pieces }

def Accepts (partNumber : Nat) : Prop :=
  environment.fault (.uploadPart partNumber) = none ∧ partNumber ≤ maximumPartNumber

/-! ### Calls on an open upload -/

variable {environment} {providerKey} {initial : Provider} {pieces : List Bytes}

theorem assemble_numbered :
    Provider.assemble environment (numbered pieces) ((numbered pieces).map (completedPart environment)) =
      some pieces := by
  have distinct : ((numbered pieces).map (·.1)).Nodup :=
    (pairwise_numberedFrom 1 pieces).imp Nat.ne_of_lt
  have listed (some_ : List (Nat × Bytes)) (inside : ∀ part ∈ some_, part ∈ numbered pieces) :
      Provider.assemble environment (numbered pieces) (some_.map (completedPart environment)) =
        some (some_.map (·.2)) := by
    induction some_ with
    | nil => rfl
    | cons part rest ih =>
      have found := find?_of_nodup distinct (inside part (.head _))
      have others := ih fun other mem => inside other (.tail _ mem)
      unfold Provider.assemble at others ⊢
      have first : (do
          let stored ← (numbered pieces).find? (·.1 = (completedPart environment part).partNumber)
          if (completedPart environment part).eTag = some (environment.eTag stored.2) then
            some stored.2 else none) = some part.2 := by
        change (((numbered pieces).find? (·.1 = part.1)).bind fun stored => _) = _
        rw [found]
        exact if_pos rfl
      rw [List.map_cons, List.mapM_cons, others, first]
      rfl
  rw [listed _ fun _ mem => mem, numbered, map_snd_numberedFrom]

theorem createMultipartUpload_ok (created : environment.fault .createUpload = none) :
    createMultipartUpload environment providerKey initial =
      (.ok (stateOf environment []), opened environment providerKey initial []) := by
  have answer : initial.createUpload environment providerKey =
      (.ok (some environment.uploadId), opened environment providerKey initial []) := by
    unfold Provider.createUpload opened
    rw [created]
    simp only [numbered, numberedFrom, List.append_nil]
  unfold createMultipartUpload
  rw [answer]
  rfl

theorem createMultipartUpload_error (failed : environment.fault .createUpload ≠ none) :
    ∃ error, createMultipartUpload environment providerKey initial = (.error error, initial) := by
  obtain ⟨message, fault⟩ := Option.ne_none_iff_exists'.mp failed
  have answer : initial.createUpload environment providerKey = (.error message, initial) := by
    unfold Provider.createUpload
    rw [fault]
  unfold createMultipartUpload
  rw [answer]
  exact ⟨_, rfl⟩

theorem opened_uploads : (opened environment providerKey initial pieces).uploads environment.uploadId =
    some (providerKey, numbered pieces) := Function.update_self ..

theorem uploadPart_ok {bytes : Bytes} (accepted : Accepts environment (pieces.length + 1)) :
    uploadPart environment providerKey (stateOf environment pieces) bytes
        (opened environment providerKey initial pieces) =
      (.ok (stateOf environment (pieces ++ [bytes])),
        opened environment providerKey initial (pieces ++ [bytes])) := by
  -- No part has the new number yet.
  have kept : (numbered pieces).filter (·.1 ≠ pieces.length + 1) = numbered pieces := by
    rw [List.filter_eq_self]
    intro part mem
    have bounds := bounds_of_mem_numberedFrom mem
    exact decide_eq_true (by omega)
  have number : numbered (pieces ++ [bytes]) = numbered pieces ++ [(pieces.length + 1, bytes)] := by
    rw [numbered, numberedFrom_append, Nat.add_comm 1]
    rfl
  have small : ¬(pieces.length + 1 < 1 ∨ maximumPartNumber < pieces.length + 1) := by
    have bound := accepted.2
    omega
  have answer : (opened environment providerKey initial pieces).uploadPart environment providerKey
        environment.uploadId (pieces.length + 1) bytes =
      (.ok (some (environment.eTag bytes)),
        opened environment providerKey initial (pieces ++ [bytes])) := by
    unfold Provider.uploadPart
    rw [accepted.1, opened_uploads]
    simp only [ne_eq, not_true_eq_false, if_false]
    rw [if_neg small]
    simp only [ne_eq] at kept
    simp only [opened, kept, number, Function.update_idem, List.append_assoc]
  unfold uploadPart
  rw [show (stateOf environment pieces).uploadId = environment.uploadId from rfl,
    show (stateOf environment pieces).nextPartNumber = pieces.length + 1 from rfl, answer]
  have next : stateOf environment (pieces ++ [bytes]) = ⟨environment.uploadId, pieces.length + 1 + 1,
      (stateOf environment pieces).completedParts ++
        [⟨some (environment.eTag bytes), pieces.length + 1⟩]⟩ := by
    rw [stateOf, number, List.map_append, List.length_append, List.length_singleton]
    rfl
  rw [next]
  rfl

theorem uploadPart_error {bytes : Bytes} (refused : ¬Accepts environment (pieces.length + 1)) :
    ∃ error, uploadPart environment providerKey (stateOf environment pieces) bytes
        (opened environment providerKey initial pieces) =
      (.error error, opened environment providerKey initial pieces) := by
  have answer : ∃ message, (opened environment providerKey initial pieces).uploadPart environment
        providerKey environment.uploadId (pieces.length + 1) bytes =
      (.error message, opened environment providerKey initial pieces) := by
    unfold Provider.uploadPart
    cases fault : environment.fault (.uploadPart (pieces.length + 1)) with
    | some message => exact ⟨_, rfl⟩
    | none =>
      have large : ¬pieces.length + 1 ≤ maximumPartNumber := fun small => refused ⟨fault, small⟩
      rw [opened_uploads]
      simp only [ne_eq, not_true_eq_false, if_false]
      rw [if_pos (by omega)]
      exact ⟨_, rfl⟩
  obtain ⟨message, answer⟩ := answer
  unfold uploadPart
  rw [show (stateOf environment pieces).uploadId = environment.uploadId from rfl,
    show (stateOf environment pieces).nextPartNumber = pieces.length + 1 from rfl, answer]
  exact ⟨_, rfl⟩

def Completes (environment : Environment) (providerKey : String) (initial : Provider)
    (ifNotExists : Bool) : Prop :=
  environment.fault .completeUpload = none ∧
    ¬(ifNotExists = true ∧ (initial.objects providerKey).isSome = true)

variable {ifNotExists : Bool}

theorem completeMultipartUpload_ok (some_ : pieces ≠ [])
    (whole : ∀ piece ∈ pieces.dropLast, piece.length = multipartPartSize)
    (completes : Completes environment providerKey initial ifNotExists) :
    completeMultipartUpload environment providerKey (stateOf environment pieces) ifNotExists
        (opened environment providerKey initial pieces) =
      (.ok (), { initial with
        objects := Function.update initial.objects providerKey (some pieces.flatten)
        uploads := Function.update initial.uploads environment.uploadId none
        received := initial.received ++ numbered pieces }) := by
  have listed : (numbered pieces).map (completedPart environment) ≠ [] := by
    intro none_
    have empty := List.map_eq_nil_iff.mp none_
    have length := congrArg List.length (map_snd_numberedFrom 1 pieces)
    rw [show numberedFrom 1 pieces = [] from empty] at length
    exact some_ (List.length_eq_zero_iff.mp length.symm)
  have ordered : (((numbered pieces).map (completedPart environment)).map
      (·.partNumber)).Pairwise (· < ·) := by
    rw [List.map_map]
    exact pairwise_numberedFrom 1 pieces
  have valid : ¬((numbered pieces).map (completedPart environment) = [] ∨
      ¬(((numbered pieces).map (completedPart environment)).map (·.partNumber)).Pairwise (· < ·) ∨
      ¬∀ piece ∈ pieces.dropLast, minimumPartSize ≤ piece.length) := by
    have large : ∀ piece ∈ pieces.dropLast, minimumPartSize ≤ piece.length := fun piece mem => by
      rw [whole piece mem]
      decide
    tauto
  have answer : (opened environment providerKey initial pieces).completeUpload environment providerKey
        environment.uploadId ((numbered pieces).map (completedPart environment)) ifNotExists =
      (.ok (), { initial with
        objects := Function.update initial.objects providerKey (some pieces.flatten)
        uploads := Function.update initial.uploads environment.uploadId none
        received := initial.received ++ numbered pieces }) := by
    unfold Provider.completeUpload
    rw [completes.1, opened_uploads]
    simp only [ne_eq, not_true_eq_false, if_false, assemble_numbered]
    rw [if_neg valid, if_neg (show ¬(ifNotExists = true ∧ ((opened environment providerKey initial
      pieces).objects providerKey).isSome = true) from completes.2)]
    simp only [opened, Function.update_idem]
  unfold completeMultipartUpload
  rw [show (stateOf environment pieces).uploadId = environment.uploadId from rfl,
    show (stateOf environment pieces).completedParts =
      (numbered pieces).map (completedPart environment) from rfl, answer]

/-- A refused completion leaves the upload to the abort. -/
theorem completeMultipartUpload_error (fresh : initial.uploads environment.uploadId = none)
    (refused : ¬Completes environment providerKey initial ifNotExists) :
    ∃ error, completeMultipartUpload environment providerKey (stateOf environment pieces) ifNotExists
        (opened environment providerKey initial pieces) =
      (.error error, if environment.fault .abortUpload = none then
          { initial with received := initial.received ++ numbered pieces }
        else opened environment providerKey initial pieces) := by
  have answer : ∃ message, (opened environment providerKey initial pieces).completeUpload environment
        providerKey environment.uploadId ((numbered pieces).map (completedPart environment))
        ifNotExists = (.error message, opened environment providerKey initial pieces) := by
    unfold Provider.completeUpload
    cases fault : environment.fault .completeUpload with
    | some message => exact ⟨_, rfl⟩
    | none =>
      have exists_ : ifNotExists = true ∧
          ((opened environment providerKey initial pieces).objects providerKey).isSome = true := by
        by_contra missing
        exact refused ⟨fault, missing⟩
      rw [opened_uploads]
      simp only [ne_eq, not_true_eq_false, if_false, assemble_numbered]
      split
      · exact ⟨_, rfl⟩
      · exact ⟨_, rfl⟩
  have aborted : ((opened environment providerKey initial pieces).abortUpload environment providerKey
        environment.uploadId).2 =
      if environment.fault .abortUpload = none then
        { initial with received := initial.received ++ numbered pieces }
      else opened environment providerKey initial pieces := by
    unfold Provider.abortUpload
    cases fault : environment.fault .abortUpload with
    | some message => rw [if_neg (by simp)]
    | none =>
      rw [opened_uploads]
      simp only [ne_eq, not_true_eq_false, if_false, if_true, opened, Function.update_idem]
      rw [← fresh, Function.update_eq_self]
  obtain ⟨message, answer⟩ := answer
  unfold completeMultipartUpload
  rw [show (stateOf environment pieces).uploadId = environment.uploadId from rfl,
    show (stateOf environment pieces).completedParts =
      (numbered pieces).map (completedPart environment) from rfl, answer]
  exact ⟨_, congrArg (Prod.mk _) aborted⟩

/-! ### The loop -/

/-- What a write has done with the bytes that it has read: whole parts are uploaded, the rest is in
the buffer. -/
structure Progress (environment : Environment) (providerKey : String) (initial : Provider)
    (seen : Bytes) (writing : Writing) (pieces : List Bytes) : Prop where
  bytes : seen = pieces.flatten ++ writing.buffer
  whole : ∀ piece ∈ pieces, piece.length = multipartPartSize
  state : pieces = [] ∧ writing.multipart = none ∧ writing.provider = initial ∨
    pieces ≠ [] ∧ environment.fault .createUpload = none ∧
      writing.multipart = some (stateOf environment pieces) ∧
      writing.provider = opened environment providerKey initial pieces
  accepted : ∀ n, 1 ≤ n → n ≤ pieces.length → Accepts environment n

/-- How a write fails while it uploads whole parts. -/
inductive Failed (environment : Environment) (providerKey : String) (initial : Provider)
    (seen : Bytes) : StorageError × Provider → Prop
  | created (error : StorageError) : multipartPartSize ≤ seen.length →
      environment.fault .createUpload ≠ none →
      Failed environment providerKey initial seen (error, initial)
  | part (error : StorageError) (pieces : List Bytes) : environment.fault .createUpload = none →
      (∀ piece ∈ pieces, piece.length = multipartPartSize) → pieces.flatten <+: seen →
      (pieces.length + 1) * multipartPartSize ≤ seen.length →
      ¬Accepts environment (pieces.length + 1) →
      Failed environment providerKey initial seen
        (error, opened environment providerKey initial pieces)

variable {seen : Bytes}

theorem Failed.append {failed : StorageError × Provider} (later : Bytes)
    (before : Failed environment providerKey initial seen failed) :
    Failed environment providerKey initial (seen ++ later) failed := by
  have longer : seen.length ≤ (seen ++ later).length := by
    rw [List.length_append]
    exact Nat.le_add_right _ _
  cases before with
  | created error large fault => exact .created error (Nat.le_trans large longer) fault
  | part error pieces created whole inside large refused =>
    exact .part error pieces created whole (inside.trans (List.prefix_append seen later))
      (Nat.le_trans large longer) refused

theorem length_flatten_of_whole (whole : ∀ piece ∈ pieces, piece.length = multipartPartSize) :
    pieces.flatten.length = pieces.length * multipartPartSize := by
  induction pieces with
  | nil => exact (Nat.zero_mul _).symm
  | cons piece rest ih =>
    rw [List.flatten_cons, List.length_append, whole piece (.head _),
      ih fun other mem => whole other (.tail _ mem), List.length_cons,
      Nat.succ_mul, Nat.add_comm]

/-- The handle and the provider for the next part. -/
theorem ensureUpload_spec {writing : Writing}
    (progress : Progress environment providerKey initial seen writing pieces) :
    (environment.fault .createUpload = none ∧ ensureUpload environment providerKey writing =
        (.ok (stateOf environment pieces), opened environment providerKey initial pieces)) ∨
      (environment.fault .createUpload ≠ none ∧
        ∃ error, ensureUpload environment providerKey writing = (.error error, initial)) := by
  unfold ensureUpload
  rcases progress.state with ⟨rfl, none_, same⟩ | ⟨_, created, open_, same⟩
  · rw [none_, same]
    by_cases created : environment.fault .createUpload = none
    · exact .inl ⟨created, createMultipartUpload_ok created⟩
    · exact .inr ⟨created, createMultipartUpload_error created⟩
  · rw [open_, same]
    exact .inl ⟨created, rfl⟩

/-- One round of the loop takes a part from the buffer. -/
theorem Progress.step {writing : Writing}
    (progress : Progress environment providerKey initial seen writing pieces)
    (large : multipartPartSize ≤ writing.buffer.length)
    (created : environment.fault .createUpload = none)
    (accepted : Accepts environment (pieces.length + 1)) :
    Progress environment providerKey initial seen
      ⟨writing.buffer.drop multipartPartSize,
        some (stateOf environment (pieces ++ [writing.buffer.take multipartPartSize])),
        opened environment providerKey initial (pieces ++ [writing.buffer.take multipartPartSize])⟩
      (pieces ++ [writing.buffer.take multipartPartSize]) := by
  refine ⟨?_, ?_, .inr ⟨by simp, created, rfl, rfl⟩, ?_⟩
  · rw [List.flatten_append, List.flatten_singleton, List.append_assoc, List.take_append_drop]
    exact progress.bytes
  · intro piece mem
    rcases List.mem_append.mp mem with earlier | last
    · exact progress.whole piece earlier
    · rw [List.mem_singleton.mp last, List.length_take, Nat.min_eq_left large]
  · intro n first last
    rw [List.length_append, List.length_singleton] at last
    rcases Nat.lt_or_ge n (pieces.length + 1) with earlier | here
    · exact progress.accepted n first (Nat.le_of_lt_succ earlier)
    · exact Nat.le_antisymm last here ▸ accepted

theorem uploadWholeParts_spec (writing : Writing) (pieces : List Bytes)
    (progress : Progress environment providerKey initial seen writing pieces) :
    (∃ next pieces', uploadWholeParts environment providerKey writing = .ok next ∧
        Progress environment providerKey initial seen next pieces' ∧
        next.buffer.length < multipartPartSize) ∨
      ∃ failed, uploadWholeParts environment providerKey writing = .error failed ∧
        Failed environment providerKey initial seen failed := by
  -- Every round shortens the buffer.
  generalize size : writing.buffer.length = length
  induction length using Nat.strong_induction_on generalizing writing pieces with
  | _ length ih =>
    unfold uploadWholeParts
    by_cases large : multipartPartSize ≤ writing.buffer.length
    · rw [if_pos large]
      have total : seen.length = pieces.length * multipartPartSize + writing.buffer.length := by
        rw [progress.bytes, List.length_append, length_flatten_of_whole progress.whole]
      rcases ensureUpload_spec progress with ⟨created, ready⟩ | ⟨fault, error, refused⟩
      · rw [ready]
        dsimp only
        by_cases accepted : Accepts environment (pieces.length + 1)
        · rw [uploadPart_ok accepted]
          have next := progress.step large created accepted
          have shorter : (writing.buffer.drop multipartPartSize).length < length := by
            have positive := multipartPartSize_pos
            rw [List.length_drop]
            omega
          exact ih _ shorter _ _ next rfl
        · obtain ⟨error, answer⟩ :=
            @uploadPart_error environment providerKey initial pieces
              (writing.buffer.take multipartPartSize) accepted
          rw [answer]
          refine .inr ⟨_, rfl, .part error pieces created progress.whole ?_ ?_ accepted⟩
          · exact progress.bytes ▸ List.prefix_append _ _
          · rw [total, Nat.add_mul, Nat.one_mul]
            exact Nat.add_le_add_left large _
      · rw [refused]
        refine .inr ⟨_, rfl, .created error ?_ fault⟩
        rw [total]
        exact Nat.le_trans large (Nat.le_add_left _ _)
    · rw [if_neg large]
      exact .inl ⟨writing, pieces, rfl, progress, Nat.lt_of_not_le large⟩

/-- How reading the body ends: at its end, at a failed call, or at an error of the body. -/
theorem readChunks_spec (body : StorageByteStream) (writing : Writing) (pieces : List Bytes)
    (progress : Progress environment providerKey initial seen writing pieces)
    (short : writing.buffer.length < multipartPartSize) :
    (∃ next pieces', readChunks environment providerKey writing body = .ok next ∧ failure body = none ∧
        Progress environment providerKey initial (seen ++ received body) next pieces' ∧
        next.buffer.length < multipartPartSize) ∨
      (∃ failed, readChunks environment providerKey writing body = .error failed ∧
        Failed environment providerKey initial (seen ++ received body) failed) ∨
      ∃ error next pieces', readChunks environment providerKey writing body =
          .error (error, next.provider) ∧ failure body = some error ∧
        Progress environment providerKey initial (seen ++ received body) next pieces' ∧
        next.buffer.length < multipartPartSize := by
  induction body generalizing seen writing pieces with
  | nil =>
    refine .inl ⟨writing, pieces, rfl, rfl, ?_, short⟩
    rw [received, List.append_nil]
    exact progress
  | cons item rest ih =>
    cases item with
    | error error =>
      refine .inr (.inr ⟨error, writing, pieces, rfl, rfl, ?_, short⟩)
      rw [received, List.append_nil]
      exact progress
    | ok chunk =>
      have filled : Progress environment providerKey initial (seen ++ chunk)
          { writing with buffer := writing.buffer ++ chunk } pieces :=
        ⟨by rw [progress.bytes, List.append_assoc], progress.whole, progress.state, progress.accepted⟩
      unfold readChunks
      rw [received, ← List.append_assoc]
      rcases uploadWholeParts_spec _ pieces filled with ⟨next, pieces', looped, after, few⟩ |
        ⟨failed, looped, stopped⟩
      · rw [looped]
        exact ih next pieces' after few
      · rw [looped]
        exact .inr (.inl ⟨failed, rfl, stopped.append _⟩)

/-! ### The whole write -/

def partCount (length : Nat) : Nat := (length + (multipartPartSize - 1)) / multipartPartSize

def Opens (environment : Environment) (body : StorageByteStream) : Prop :=
  multipartPartSize ≤ (received body).length ∧ environment.fault .createUpload = none

/-- Nothing fails between the creation of an upload and its completion, and the completion succeeds or
the abort after it does. -/
def Disposes (environment : Environment) (providerKey : String) (initial : Provider)
    (body : StorageByteStream) (ifNotExists : Bool) : Prop :=
  Opens environment body → failure body = none ∧
    (∀ n, 1 ≤ n → n ≤ partCount (received body).length → Accepts environment n) ∧
    (Completes environment providerKey initial ifNotExists ∨ environment.fault .abortUpload = none)

/-- The bytes of a body cut into parts: all but the last are whole. -/
structure CutInto (bytes : Bytes) (pieces : List Bytes) : Prop where
  inside : pieces.flatten <+: bytes
  whole : ∀ piece ∈ pieces.dropLast, piece.length = multipartPartSize

/-- The ways in which a write can end. -/
inductive Written (environment : Environment) (providerKey : String) (initial : Provider)
    (body : StorageByteStream) (ifNotExists : Bool) :
    Except StorageError (Option BlobWriteOutcome) × Provider → Prop
  | put : failure body = none → (received body).length < multipartPartSize →
      Written environment providerKey initial body ifNotExists
        (.ok (some ⟨(received body).length, environment.sha256 (received body)⟩), { initial with
          objects := Function.update initial.objects providerKey (some (received body)) })
  | untouched (result : Except StorageError (Option BlobWriteOutcome)) :
      (∀ outcome, result ≠ .ok (some outcome)) → ¬Opens environment body →
      Written environment providerKey initial body ifNotExists (result, initial)
  | left (result : Except StorageError (Option BlobWriteOutcome)) (pieces : List Bytes) :
      (∀ outcome, result ≠ .ok (some outcome)) →
      ¬Disposes environment providerKey initial body ifNotExists → CutInto (received body) pieces →
      Written environment providerKey initial body ifNotExists
        (result, opened environment providerKey initial pieces)
  | completed (pieces : List Bytes) : failure body = none →
      Disposes environment providerKey initial body ifNotExists → CutInto (received body) pieces →
      pieces.flatten = received body →
      Written environment providerKey initial body ifNotExists
        (.ok (some ⟨(received body).length, environment.sha256 (received body)⟩), { initial with
          objects := Function.update initial.objects providerKey (some pieces.flatten)
          uploads := Function.update initial.uploads environment.uploadId none
          received := initial.received ++ numbered pieces })
  | aborted (result : Except StorageError (Option BlobWriteOutcome)) (pieces : List Bytes) :
      (∀ outcome, result ≠ .ok (some outcome)) →
      Disposes environment providerKey initial body ifNotExists → CutInto (received body) pieces →
      Written environment providerKey initial body ifNotExists
        (result, { initial with received := initial.received ++ numbered pieces })

theorem published_error {outcome : BlobWriteOutcome} {error : StorageError}
    (other : BlobWriteOutcome) :
    published outcome ifNotExists (.error error) ≠ .ok (some other) := by
  rw [published]
  split
  · nofun
  · nofun

theorem le_partCount {n length : Nat} (inside : n * multipartPartSize ≤ length) :
    n ≤ partCount length := by
  unfold partCount
  rw [Nat.le_div_iff_mul_le multipartPartSize_pos]
  exact Nat.le_trans inside (Nat.le_add_right _ _)

theorem partCount_whole (n : Nat) : partCount (n * multipartPartSize) = n := by
  rw [partCount, show multipartPartSize = 8388608 from rfl] at *
  omega

theorem partCount_part {n rest : Nat} (some_ : 0 < rest) (short : rest < multipartPartSize) :
    partCount (n * multipartPartSize + rest) = n + 1 := by
  rw [partCount, show multipartPartSize = 8388608 from rfl] at *
  omega

/-- A body whose parts all have numbers has a size that a `u64` holds. -/
theorem saturatingAdd_length {length : Nat} (small : partCount length ≤ maximumPartNumber) :
    saturatingAdd 0 length = length := by
  rw [partCount, show multipartPartSize = 8388608 from rfl,
    show maximumPartNumber = 10000 from rfl] at small
  unfold saturatingAdd
  omega

/-- The last part, the completion and the abort of an upload that has all its other parts. -/
theorem finishUpload_spec {body : StorageByteStream} {buffer : Bytes}
    (fresh : initial.uploads environment.uploadId = none) (ended : failure body = none)
    (some_ : pieces ≠ []) (created : environment.fault .createUpload = none)
    (bytes : received body = pieces.flatten ++ buffer)
    (whole : ∀ piece ∈ pieces, piece.length = multipartPartSize)
    (accepted : ∀ n, 1 ≤ n → n ≤ pieces.length → Accepts environment n)
    (short : buffer.length < multipartPartSize) :
    Written environment providerKey initial body ifNotExists
      (finishUpload environment providerKey
        ⟨saturatingAdd 0 (received body).length, environment.sha256 (received body)⟩ ifNotExists
        (stateOf environment pieces) buffer (opened environment providerKey initial pieces)) := by
  have total : (received body).length = pieces.length * multipartPartSize + buffer.length := by
    rw [bytes, List.length_append, length_flatten_of_whole whole]
  have first : 0 < pieces.length := List.length_pos_iff.mpr some_
  have opens : Opens environment body := by
    refine ⟨?_, created⟩
    rw [total]
    exact Nat.le_trans (Nat.le_mul_of_pos_left _ first) (Nat.le_add_right _ _)
  -- With all parts uploaded, the completion decides.
  have complete (all : List Bytes) (filled : all ≠ []) (cut : CutInto (received body) all)
      (flat : all.flatten = received body) (count : partCount (received body).length = all.length)
      (taken : ∀ n, 1 ≤ n → n ≤ all.length → Accepts environment n) :
      Written environment providerKey initial body ifNotExists
        (published ⟨saturatingAdd 0 (received body).length, environment.sha256 (received body)⟩
          ifNotExists (completeMultipartUpload environment providerKey (stateOf environment all)
            ifNotExists (opened environment providerKey initial all)).1,
          (completeMultipartUpload environment providerKey (stateOf environment all) ifNotExists
            (opened environment providerKey initial all)).2) := by
    have last := taken all.length (List.length_pos_iff.mpr filled) (Nat.le_refl _)
    have size : saturatingAdd 0 (received body).length = (received body).length :=
      saturatingAdd_length (count ▸ last.2)
    by_cases completes : Completes environment providerKey initial ifNotExists
    · rw [completeMultipartUpload_ok filled cut.whole completes, size]
      exact .completed all ended (fun _ => ⟨ended, count ▸ taken, .inl completes⟩) cut flat
    · obtain ⟨error, answer⟩ := @completeMultipartUpload_error environment providerKey
        initial all ifNotExists fresh completes
      rw [answer]
      by_cases abort : environment.fault .abortUpload = none
      · rw [if_pos abort]
        exact .aborted _ all published_error (fun _ => ⟨ended, count ▸ taken, .inr abort⟩) cut
      · rw [if_neg abort]
        refine .left _ all published_error (fun disposes => ?_) cut
        rcases (disposes opens).2.2 with done | gone
        · exact completes done
        · exact abort gone
  have dropped : ∀ piece ∈ pieces.dropLast, piece.length = multipartPartSize := fun piece mem =>
    whole piece (List.dropLast_subset _ mem)
  unfold finishUpload
  by_cases empty : buffer = []
  · rw [if_pos empty]
    rw [empty, List.append_nil] at bytes
    rw [empty, List.length_nil, Nat.add_zero] at total
    exact complete pieces some_ ⟨bytes ▸ List.prefix_refl _, dropped⟩ bytes.symm
      (by rw [total, partCount_whole]) accepted
  · rw [if_neg empty]
    have filled : 0 < buffer.length := List.length_pos_iff.mpr empty
    by_cases last : Accepts environment (pieces.length + 1)
    · rw [uploadPart_ok last]
      have flat : (pieces ++ [buffer]).flatten = received body := by
        rw [List.flatten_append, List.flatten_singleton, bytes]
      refine complete (pieces ++ [buffer]) (by simp) ⟨flat ▸ List.prefix_refl _, ?_⟩ flat ?_ ?_
      · rw [List.dropLast_concat]
        exact whole
      · rw [total, partCount_part filled short, List.length_append, List.length_singleton]
      · intro n low high
        rw [List.length_append, List.length_singleton] at high
        rcases Nat.lt_or_ge n (pieces.length + 1) with earlier | here
        · exact accepted n low (Nat.le_of_lt_succ earlier)
        · exact Nat.le_antisymm high here ▸ last
    · obtain ⟨error, answer⟩ := @uploadPart_error environment providerKey initial pieces
        buffer last
      rw [answer]
      refine .left _ pieces nofun (fun disposes => ?_) ⟨bytes ▸ List.prefix_append _ _, dropped⟩
      refine last ((disposes opens).2.1 _ (Nat.succ_pos _) ?_)
      rw [total, partCount_part filled short]

theorem writeBody_written {body : StorageByteStream}
    (fresh : initial.uploads environment.uploadId = none) :
    Written environment providerKey initial body ifNotExists
      (writeBody environment providerKey body ifNotExists initial) := by
  have start : Progress environment providerKey initial [] ⟨[], none, initial⟩ [] :=
    ⟨rfl, nofun, .inl ⟨rfl, rfl, rfl⟩, fun n first last => by
      rw [List.length_nil] at last
      omega⟩
  unfold writeBody
  rcases readChunks_spec body _ _ start multipartPartSize_pos with
    ⟨next, pieces, reading, ended, progress, short⟩ | ⟨failed, reading, stopped⟩ |
    ⟨error, next, pieces, reading, broken, progress, short⟩
  · rw [reading]
    dsimp only
    have bytes := progress.bytes
    rw [List.nil_append] at bytes
    rcases progress.state with ⟨rfl, none_, same⟩ | ⟨some_, created, open_, same⟩
    · rw [none_, same]
      rw [List.flatten_nil, List.nil_append] at bytes
      rw [← bytes] at short
      rw [← bytes]
      dsimp only
      have small : ¬Opens environment body := fun opens => absurd opens.1 (Nat.not_le.mpr short)
      have size : saturatingAdd 0 (received body).length = (received body).length := by
        have part : multipartPartSize = 8388608 := rfl
        unfold saturatingAdd
        omega
      unfold putSingleBlob Provider.putObject
      cases fault : environment.fault .putObject with
      | some message => exact .untouched _ published_error small
      | none =>
        dsimp only
        split
        · exact .untouched _ published_error small
        · rw [size]
          exact .put ended short
    · rw [open_, same]
      exact finishUpload_spec fresh ended some_ created bytes progress.whole progress.accepted short
  · rw [reading]
    rw [List.nil_append] at stopped
    cases stopped with
    | created error large fault => exact .untouched _ nofun fun opens => fault opens.2
    | part error pieces created whole inside large refused =>
      have opens : Opens environment body := by
        refine ⟨Nat.le_trans ?_ large, created⟩
        exact Nat.le_mul_of_pos_left _ (Nat.succ_pos _)
      refine .left _ pieces nofun (fun disposes => ?_)
        ⟨inside, fun piece mem => whole piece (List.dropLast_subset _ mem)⟩
      exact refused ((disposes opens).2.1 _ (Nat.succ_pos _) (le_partCount large))
  · rw [reading]
    have bytes := progress.bytes
    rw [List.nil_append] at bytes
    rcases progress.state with ⟨rfl, none_, same⟩ | ⟨some_, created, open_, same⟩
    · rw [same]
      refine .untouched _ nofun fun opens => ?_
      rw [List.flatten_nil, List.nil_append] at bytes
      exact absurd (bytes ▸ opens.1) (Nat.not_le.mpr short)
    · rw [same]
      have opens : Opens environment body := by
        refine ⟨?_, created⟩
        rw [bytes, List.length_append, length_flatten_of_whole progress.whole]
        exact Nat.le_trans (Nat.le_mul_of_pos_left _ (List.length_pos_iff.mpr some_))
          (Nat.le_add_right _ _)
      refine .left _ pieces nofun (fun disposes => ?_) ⟨bytes ▸ List.prefix_append _ _,
        fun piece mem => progress.whole piece (List.dropLast_subset _ mem)⟩
      have none_ := (disposes opens).1
      rw [broken] at none_
      cases none_

end Writes

/-- A write publishes the whole body or nothing, leaves no upload that it created, and uploads numbered
whole parts but for the last. -/
structure AllOrNothing (environment : Environment) (backend : S3StorageBackend) (key : String)
    (body : StorageByteStream) (initial : Provider)
    (written : Except StorageError (Option BlobWriteOutcome) × Provider) : Prop where
  published : ∀ outcome, written.1 = .ok (some outcome) → failure body = none ∧
    outcome = ⟨(received body).length, environment.sha256 (received body)⟩ ∧
    ∃ providerKey, backend.providerKey key = .ok providerKey ∧
      written.2.objects = Function.update initial.objects providerKey (some (received body))
  unpublished : (∀ outcome, written.1 ≠ .ok (some outcome)) → written.2.objects = initial.objects
  disposed : written.2.uploads = initial.uploads
  parts : ∃ pieces, written.2.received = initial.received ++ numbered pieces ∧
    CutInto (received body) pieces ∧
    ∀ outcome, written.1 = .ok (some outcome) → pieces ≠ [] → pieces.flatten = received body

/-- A write is all or nothing exactly if the body opens no upload, or delivers all of it to a provider
that takes every part and then completes the upload or else aborts it. The ids of uploads are never
used twice. -/
theorem putBlobInner_iff {environment : Environment} {initial : Provider}
    (fresh : initial.uploads environment.uploadId = none) (backend : S3StorageBackend) (key : String)
    (body : StorageByteStream) (ifNotExists : Bool) :
    AllOrNothing environment backend key body initial
        (putBlobInner environment backend key body ifNotExists initial) ↔
      ∀ providerKey, backend.providerKey key = .ok providerKey →
        Disposes environment providerKey initial body ifNotExists := by
  have nothing : ∃ pieces, initial.received = initial.received ++ numbered pieces ∧
      CutInto (received body) pieces ∧ pieces = [] :=
    ⟨[], (List.append_nil _).symm, ⟨List.nil_prefix, nofun⟩, rfl⟩
  unfold putBlobInner
  cases keyed : backend.providerKey key with
  | error error =>
    obtain ⟨pieces, same, cut, empty⟩ := nothing
    exact iff_of_true ⟨nofun, fun _ => rfl, rfl, pieces, same, cut, nofun⟩ nofun
  | ok providerKey =>
    have condition : (∀ other, Except.ok providerKey = Except.ok (ε := StorageError) other →
        Disposes environment other initial body ifNotExists) ↔
        Disposes environment providerKey initial body ifNotExists :=
      ⟨fun every => every providerKey rfl, fun disposes other same => by cases same; exact disposes⟩
    rw [condition]
    have written : Written environment providerKey initial body ifNotExists
        (writeBody environment providerKey body ifNotExists initial) := writeBody_written fresh
    dsimp only
    generalize writeBody environment providerKey body ifNotExists initial = result at written
    cases written with
    | put ended small =>
      obtain ⟨pieces, same, cut, empty⟩ := nothing
      refine iff_of_true ⟨?_, fun other => absurd rfl (other _), rfl, pieces, same, cut, fun _ _ some_ =>
        absurd empty some_⟩ fun opens => absurd opens.1 (Nat.not_le.mpr small)
      rintro outcome ⟨⟩
      exact ⟨ended, rfl, providerKey, keyed, rfl⟩
    | untouched outcome none_ closed =>
      obtain ⟨pieces, same, cut, _⟩ := nothing
      exact iff_of_true ⟨fun other published => absurd published (none_ other), fun _ => rfl, rfl,
        pieces, same, cut, fun other published => absurd published (none_ other)⟩
        fun opens => absurd opens closed
    | left outcome pieces none_ bad cut =>
      -- The upload that is left behind was not there before.
      refine iff_of_false (fun all => ?_) bad
      have stored := congrFun all.disposed environment.uploadId
      rw [fresh, opened_uploads] at stored
      cases stored
    | completed pieces ended disposes cut flat =>
      refine iff_of_true ⟨?_, fun other => absurd rfl (other _), ?_, pieces, rfl, cut, fun _ _ _ => flat⟩
        disposes
      · rintro outcome ⟨⟩
        exact ⟨ended, rfl, providerKey, keyed, by rw [flat]⟩
      · change Function.update initial.uploads environment.uploadId none = initial.uploads
        rw [← fresh, Function.update_eq_self]
    | aborted outcome pieces none_ disposes cut =>
      exact iff_of_true ⟨fun other published => absurd published (none_ other), fun _ => rfl, rfl,
        pieces, rfl, cut, fun other published => absurd published (none_ other)⟩ disposes

/-! ### A body that breaks off after its first part -/

def reliable : Environment where
  fault _ := none
  uploadId := "1"
  eTag _ := "tag"
  describe _ := "rejected"
  sha256 bytes := Sha256.hex bytes

def emptyProvider : Provider where
  objects _ := none
  uploads _ := none
  received := []

def firstPart : Bytes := List.replicate multipartPartSize 0

def brokenError : StorageError := .provider "local" "connection lost" true

theorem putBlobInner_broken {part : Bytes} (length : part.length = multipartPartSize) :
    putBlobInner reliable ⟨none⟩ "key" [.ok part, .error brokenError] false emptyProvider =
      (.error brokenError, opened reliable "key" emptyProvider [part]) := by
  have accepted : Accepts reliable (([] : List Bytes).length + 1) := ⟨rfl, by decide⟩
  have ready : ensureUpload reliable "key" ⟨part, none, emptyProvider⟩ =
      (.ok (stateOf reliable []), opened reliable "key" emptyProvider []) :=
    createMultipartUpload_ok (show reliable.fault .createUpload = none from rfl)
  have looped : uploadWholeParts reliable "key" ⟨part, none, emptyProvider⟩ =
      .ok ⟨[], some (stateOf reliable [part]), opened reliable "key" emptyProvider [part]⟩ := by
    rw [uploadWholeParts, if_pos length.ge, ready]
    dsimp only
    rw [uploadPart_ok accepted]
    dsimp only
    rw [List.take_of_length_le length.le, List.drop_of_length_le length.le, List.nil_append,
      uploadWholeParts]
    exact if_neg (Nat.not_le.mpr multipartPartSize_pos)
  have keyed : (⟨none⟩ : S3StorageBackend).providerKey "key" = .ok "key" := by
    rw [S3StorageBackend.providerKey, validateBlobKey_ok.mpr ⟨by decide, by decide, by decide⟩]
    rfl
  unfold putBlobInner
  rw [keyed]
  dsimp only
  rw [writeBody, readChunks]
  dsimp only
  rw [List.nil_append, looped]
  dsimp only
  rw [readChunks]

/-- The upload with the first part stays at the provider. -/
theorem brokenBody_leaks :
    putBlobInner reliable ⟨none⟩ "key" [.ok firstPart, .error brokenError] false emptyProvider =
      (.error brokenError, opened reliable "key" emptyProvider [firstPart]) ∧
    (opened reliable "key" emptyProvider [firstPart]).uploads "1" =
      some ("key", [(1, firstPart)]) :=
  ⟨putBlobInner_broken List.length_replicate, opened_uploads⟩

/-- A body of two parts is published, and aborted where the key is already taken. -/
theorem twoParts_written :
    AllOrNothing reliable ⟨none⟩ "key" [.ok firstPart, .ok [1, 2, 3]] emptyProvider
      (putBlobInner reliable ⟨none⟩ "key" [.ok firstPart, .ok [1, 2, 3]] true emptyProvider) ∧
    AllOrNothing reliable ⟨none⟩ "key" [.ok firstPart, .ok [1, 2, 3]]
      { emptyProvider with objects := fun _ => some [0] }
      (putBlobInner reliable ⟨none⟩ "key" [.ok firstPart, .ok [1, 2, 3]] true
        { emptyProvider with objects := fun _ => some [0] }) := by
  have length : (received [.ok firstPart, .ok [1, 2, 3]]).length = multipartPartSize + 3 := by
    simp [received, firstPart]
  have accepted (n : Nat)
      (within : n ≤ partCount (received [.ok firstPart, .ok [1, 2, 3]]).length) :
      Accepts reliable n := by
    rw [length, show partCount (multipartPartSize + 3) = 2 by decide] at within
    exact ⟨rfl, Nat.le_trans within (by decide)⟩
  constructor
  · refine (putBlobInner_iff rfl ⟨none⟩ "key" _ true).mpr fun _ _ _ =>
      ⟨rfl, fun n _ => accepted n, .inl ⟨rfl, ?_⟩⟩
    rintro ⟨-, taken⟩
    cases taken
  · exact (putBlobInner_iff rfl ⟨none⟩ "key" _ true).mpr fun _ _ _ =>
      ⟨rfl, fun n _ => accepted n, .inr rfl⟩

end GraphqlOrm.Storage.S3
