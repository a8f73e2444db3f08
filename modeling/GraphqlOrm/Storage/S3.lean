import GraphqlOrm.Storage.Local
import Mathlib.Data.List.Infix

/-!
# The S3 store

A body is read chunk by chunk into a buffer. A small body is written with one call; as soon as the
buffer holds a whole part the write becomes a multipart upload, which a last call completes.

The provider keeps the objects and the uploads that are not completed. A call that fails changes
nothing there.
-/
namespace GraphqlOrm.Storage.S3

open Outcome

/-! ### The provider -/

inductive Call where
  | putObject | createUpload | uploadPart (partNumber : Nat) | completeUpload | abortUpload

inductive Rejection where
  | preconditionFailed | noSuchUpload | invalidPartNumber | invalidPart

structure CompletedPart where
  eTag : Option String
  partNumber : Nat

/-- The objects, the parts of every incomplete upload with its key, and the parts received so far. -/
structure Provider where
  objects : String → Option Bytes
  uploads : String → Option (String × List (Nat × Bytes))
  received : List (Nat × Bytes)

/-- Which calls fail, the id that the next upload is given, and the texts and tags of the provider. -/
structure Environment where
  fault : Call → Option String
  uploadId : String
  eTag : Bytes → String
  describe : Rejection → String
  sha256 : Bytes → String

def minimumPartSize : Nat := 5 * 1024 * 1024

def maximumPartNumber : Nat := 10000

namespace Provider

variable (environment : Environment)

def putObject (key : String) (bytes : Bytes) (ifNoneMatch : Bool) (provider : Provider) :
    Except String Unit × Provider :=
  match environment.fault .putObject with
  | some message => (.error message, provider)
  | none =>
    if ifNoneMatch ∧ (provider.objects key).isSome then
      (.error (environment.describe .preconditionFailed), provider)
    else (.ok (), { provider with objects := Function.update provider.objects key (some bytes) })

def createUpload (key : String) (provider : Provider) : Except String (Option String) × Provider :=
  match environment.fault .createUpload with
  | some message => (.error message, provider)
  | none => (.ok (some environment.uploadId), { provider with
      uploads := Function.update provider.uploads environment.uploadId (some (key, [])) })

def uploadPart (key uploadId : String) (partNumber : Nat) (bytes : Bytes) (provider : Provider) :
    Except String (Option String) × Provider :=
  match environment.fault (.uploadPart partNumber) with
  | some message => (.error message, provider)
  | none =>
    match provider.uploads uploadId with
    | none => (.error (environment.describe .noSuchUpload), provider)
    | some (owner, parts) =>
      if owner ≠ key then (.error (environment.describe .noSuchUpload), provider)
      else if partNumber < 1 ∨ maximumPartNumber < partNumber then
        (.error (environment.describe .invalidPartNumber), provider)
      else (.ok (some (environment.eTag bytes)), { provider with
        uploads := Function.update provider.uploads uploadId
          (some (owner, parts.filter (·.1 ≠ partNumber) ++ [(partNumber, bytes)]))
        received := provider.received ++ [(partNumber, bytes)] })

def assemble (parts : List (Nat × Bytes)) (listed : List CompletedPart) : Option (List Bytes) :=
  listed.mapM fun part => do
    let stored ← parts.find? (·.1 = part.partNumber)
    if part.eTag = some (environment.eTag stored.2) then some stored.2 else none

def completeUpload (key uploadId : String) (listed : List CompletedPart) (ifNoneMatch : Bool)
    (provider : Provider) : Except String Unit × Provider :=
  match environment.fault .completeUpload with
  | some message => (.error message, provider)
  | none =>
    match provider.uploads uploadId with
    | none => (.error (environment.describe .noSuchUpload), provider)
    | some (owner, parts) =>
      if owner ≠ key then (.error (environment.describe .noSuchUpload), provider)
      else
        match assemble environment parts listed with
        | none => (.error (environment.describe .invalidPart), provider)
        | some pieces =>
          if listed = [] ∨ ¬(listed.map (·.partNumber)).Pairwise (· < ·) ∨
              ¬∀ piece ∈ pieces.dropLast, minimumPartSize ≤ piece.length then
            (.error (environment.describe .invalidPart), provider)
          else if ifNoneMatch ∧ (provider.objects key).isSome then
            (.error (environment.describe .preconditionFailed), provider)
          else (.ok (), { provider with
            objects := Function.update provider.objects key (some pieces.flatten)
            uploads := Function.update provider.uploads uploadId none })

def abortUpload (key uploadId : String) (provider : Provider) : Except String Unit × Provider :=
  match environment.fault .abortUpload with
  | some message => (.error message, provider)
  | none =>
    match provider.uploads uploadId with
    | none => (.error (environment.describe .noSuchUpload), provider)
    | some (owner, _) =>
      if owner ≠ key then (.error (environment.describe .noSuchUpload), provider)
      else (.ok (), { provider with uploads := Function.update provider.uploads uploadId none })

end Provider

/-! ### The backend -/

def multipartPartSize : Nat := 8 * 1024 * 1024

/-- `str::contains`. -/
def containsText (text part : String) : Bool := part.toList <:+: text.toList

def isRetryableS3Message (message : String) : Bool :=
  ["timeout", "timed out", "dispatch", "connection", "throttl", "slowdown", "temporarily",
    "status: 5", "code: 5"].any fun part =>
      containsText (String.ofList (message.toList.map Char.toLower)) part

def mapS3Error (message : String) : StorageError :=
  .provider "s3" message (isRetryableS3Message message)

/-- The text of an error that the provider returned. -/
def errorText : StorageError → String
  | .provider backend message _ => "storage provider error for " ++ backend ++ ": " ++ message
  | _ => ""

def isPreconditionError (error : StorageError) : Bool :=
  ["PreconditionFailed", "Precondition Failed", "status: 412", "code: 412"].any fun part =>
    containsText (errorText error) part

structure S3StorageBackend where
  keyPrefix : Option String

def S3StorageBackend.providerKey (backend : S3StorageBackend) (key : String) :
    Except StorageError String := do
  validateBlobKey key
  match backend.keyPrefix with
  | none => return key
  | some lead =>
    if Text.trimList (· = '/') lead.toList = [] then return key
    else do
      validateBlobKey (String.ofList (Text.trimList (· = '/') lead.toList))
      return String.ofList (Text.trimList (· = '/') lead.toList) ++ "/" ++ key

structure MultipartUploadState where
  uploadId : String
  nextPartNumber : Nat
  completedParts : List CompletedPart

section Backend

variable (environment : Environment) (providerKey : String)

def putSingleBlob (bytes : Bytes) (ifNotExists : Bool) (provider : Provider) :
    Except StorageError Unit × Provider :=
  let (outcome, after) := provider.putObject environment providerKey bytes ifNotExists
  (outcome.mapError mapS3Error, after)

def createMultipartUpload (provider : Provider) :
    Except StorageError MultipartUploadState × Provider :=
  let (outcome, after) := provider.createUpload environment providerKey
  (do
    let output ← outcome.mapError mapS3Error
    let uploadId ← okOr (.provider "s3" "S3 multipart upload did not return an upload id" true) output
    return ⟨uploadId, 1, []⟩, after)

def uploadPart (state : MultipartUploadState) (bytes : Bytes) (provider : Provider) :
    Except StorageError MultipartUploadState × Provider :=
  let (outcome, after) :=
    provider.uploadPart environment providerKey state.uploadId state.nextPartNumber bytes
  (do
    let eTag ← outcome.mapError mapS3Error
    return { state with
      completedParts := state.completedParts ++ [⟨eTag, state.nextPartNumber⟩]
      nextPartNumber := state.nextPartNumber + 1 }, after)

/-- An upload that cannot be completed is aborted; whether that works does not matter. -/
def completeMultipartUpload (state : MultipartUploadState) (ifNotExists : Bool)
    (provider : Provider) : Except StorageError Unit × Provider :=
  match provider.completeUpload environment providerKey state.uploadId state.completedParts
      ifNotExists with
  | (.ok (), after) => (.ok (), after)
  | (.error message, after) =>
    (.error (mapS3Error message), (after.abortUpload environment providerKey state.uploadId).2)

/-- Where a write is: the bytes that are not uploaded, and the upload once there is one. -/
structure Writing where
  buffer : Bytes
  multipart : Option MultipartUploadState
  provider : Provider

def ensureUpload (writing : Writing) : Except StorageError MultipartUploadState × Provider :=
  match writing.multipart with
  | some state => (.ok state, writing.provider)
  | none => createMultipartUpload environment providerKey writing.provider

/-- Upload whole parts until the buffer is shorter than one. An error ends the write; the provider
is left as it is then. -/
def uploadWholeParts (writing : Writing) : Except (StorageError × Provider) Writing :=
  if multipartPartSize ≤ writing.buffer.length then
    match ensureUpload environment providerKey writing with
    | (.error error, after) => .error (error, after)
    | (.ok state, created) =>
      match uploadPart environment providerKey state (writing.buffer.take multipartPartSize)
          created with
      | (.error error, after) => .error (error, after)
      | (.ok next, after) =>
        uploadWholeParts ⟨writing.buffer.drop multipartPartSize, some next, after⟩
  else .ok writing
termination_by writing.buffer.length
decreasing_by
  have size : multipartPartSize = 8388608 := rfl
  rw [List.length_drop]
  omega

def readChunks (writing : Writing) : StorageByteStream → Except (StorageError × Provider) Writing
  | [] => .ok writing
  | .error error :: _ => .error (error, writing.provider)
  | .ok chunk :: rest =>
    match uploadWholeParts environment providerKey { writing with buffer := writing.buffer ++ chunk } with
    | .error failed => .error failed
    | .ok next => readChunks next rest

/-- The bytes of the chunks before the first error. -/
def received : StorageByteStream → Bytes
  | [] => []
  | .error _ :: _ => []
  | .ok chunk :: rest => chunk ++ received rest

/-- A precondition that failed is no error for a write that asked for it. -/
def published (outcome : BlobWriteOutcome) (ifNotExists : Bool) :
    Except StorageError Unit → Except StorageError (Option BlobWriteOutcome)
  | .ok () => .ok (some outcome)
  | .error error =>
    if ifNotExists && isPreconditionError error then .ok none else .error error

/-- Complete the upload, with what the buffer still holds as its last part. -/
def finishUpload (outcome : BlobWriteOutcome) (ifNotExists : Bool) (state : MultipartUploadState)
    (buffer : Bytes) (provider : Provider) :
    Except StorageError (Option BlobWriteOutcome) × Provider :=
  match if buffer = [] then (.ok state, provider)
      else uploadPart environment providerKey state buffer provider with
  | (.error error, after) => (.error error, after)
  | (.ok last, uploaded) =>
    let (completed, after) := completeMultipartUpload environment providerKey last ifNotExists uploaded
    (published outcome ifNotExists completed, after)

def writeBody (body : StorageByteStream) (ifNotExists : Bool) (provider : Provider) :
    Except StorageError (Option BlobWriteOutcome) × Provider :=
  match readChunks environment providerKey ⟨[], none, provider⟩ body with
  | .error (error, after) => (.error error, after)
  | .ok writing =>
    match writing.multipart with
    | some state =>
      finishUpload environment providerKey
        ⟨saturatingAdd 0 (received body).length, environment.sha256 (received body)⟩ ifNotExists state
        writing.buffer writing.provider
    | none =>
      let (put, after) :=
        putSingleBlob environment providerKey writing.buffer ifNotExists writing.provider
      (published ⟨saturatingAdd 0 (received body).length, environment.sha256 (received body)⟩
        ifNotExists put, after)

end Backend

def putBlobInner (environment : Environment) (backend : S3StorageBackend) (key : String)
    (body : StorageByteStream) (ifNotExists : Bool) (provider : Provider) :
    Except StorageError (Option BlobWriteOutcome) × Provider :=
  match backend.providerKey key with
  | .error error => (.error error, provider)
  | .ok providerKey => writeBody environment providerKey body ifNotExists provider

end GraphqlOrm.Storage.S3
