import GraphqlOrm.Foundation.OrderedMap
import GraphqlOrm.Storage.Paths

/-!
# The local store

Blobs and bucket objects as files below one root. A write goes to a temporary
name first and is renamed into place; an object has a second file with its
metadata, which is written and renamed in the same way.
-/
namespace GraphqlOrm.Storage

open Outcome Faulty FileSystem
open Lease (Uuid)

abbrev Bytes : Type := List UInt8

structure LocalStorageBackend where
  root : PathBuf

def internalStorageDir : String := ".graphql-orm-storage"

def objectMetadataDir : String := "object-metadata"

/-! ### Where things are -/

namespace LocalStorageBackend

variable (backend : LocalStorageBackend)

def pathFor (key : String) : Except StorageError PathBuf := do
  validateBlobKey key
  return join backend.root key

/-- The path of the blob whose key is the bucket and the key, joined. -/
def objectPathFor (bucket key : String) : Except StorageError PathBuf := do
  validateObjectBucket bucket
  validateBlobKey key
  return join (join backend.root bucket) key

def objectMetadataPathFor (bucket key : String) : Except StorageError PathBuf := do
  validateObjectBucket bucket
  validateBlobKey key
  let path := join (join (join (join backend.root internalStorageDir) objectMetadataDir) bucket) key
  let name ← okOr (.invalidStorageKey key) (fileName path)
  return withFileName path (name ++ ".metadata.json")

end LocalStorageBackend

def tempPathFor (path : PathBuf) (key : String) (id : Uuid) : Except StorageError PathBuf := do
  let name ← okOr (.invalidStorageKey key) (fileName path)
  return withFileName path (name ++ "." ++ UuidText.hyphenated id ++ ".uploading")

/-! ### Values -/

/-- A body, chunk by chunk; reading a chunk may fail. -/
abbrev StorageByteStream : Type := List (Except StorageError Bytes)

structure BlobWriteOutcome where
  sizeBytes : Nat
  sha256Hex : String
deriving DecidableEq

abbrev ObjectMetadata : Type := OrderedMap String String

/-- A date by its ordinal in the year, a time of day and the offset from UTC. -/
structure OffsetDateTime where
  year : BitVec 32
  ordinal : BitVec 16
  hour : BitVec 8
  minute : BitVec 8
  second : BitVec 8
  nanosecond : BitVec 32
  offsetHours : BitVec 8
  offsetMinutes : BitVec 8
  offsetSeconds : BitVec 8

structure ObjectInfo where
  bucket : String
  key : String
  contentType : Option String
  metadata : ObjectMetadata
  sizeBytes : Nat
  sha256Hex : String
  etag : Option String
  lastModified : OffsetDateTime

/-- What the store takes from other crates: the digest in lowercase hexadecimal and
the JSON form of the metadata. -/
structure Codec where
  sha256 : Bytes → String
  encode : ObjectInfo → Bytes
  decode : Bytes → Option ObjectInfo

/-- `u64::saturating_add`. -/
def saturatingAdd (a b : Nat) : Nat := min (a + b) (2 ^ 64 - 1)

abbrev Store (α : Type) : Type := Action (Files PathBuf) Fault StorageError α

/-- `map_err(|source| StorageError::io(path, source))`. -/
def at_ {α : Type} (path : PathBuf) (x : Io PathBuf α) : Store α := x.mapError (.io path)

def createParentDir (path : PathBuf) : Store Unit :=
  if path = [] then .throw (.missingParent path) else at_ path.dropLast quiet

/-- `let _ = remove_file(path)`. -/
def discard (path : PathBuf) : Store Unit :=
  (at_ path (remove path)).attempt.bind fun _ => .pure ()

/-- On an error remove a file and return the error. -/
def orDiscard {α : Type} (x : Store α) (paths : List PathBuf) : Store α :=
  x.attempt.bind fun
    | .ok a => .pure a
    | .error e => (Action.each discard paths).bind fun _ => .throw e

/-! ### Blobs -/

section Blobs

variable (codec : Codec) (backend : LocalStorageBackend)

/-- Write the chunks of a body one after another, with the bytes that were read so far. -/
def writeChunks (path : PathBuf) (written : Bytes) : StorageByteStream → Store Bytes
  | [] => .pure written
  | .error e :: _ => .throw e
  | .ok chunk :: rest =>
    (at_ path (append path chunk)).bind fun _ => writeChunks path (written ++ chunk) rest

def writeStreamToTemp (tempPath : PathBuf) (body : StorageByteStream) : Store BlobWriteOutcome :=
  (at_ tempPath (create tempPath)).bind fun _ =>
  (writeChunks tempPath [] body).bind fun written =>
  (at_ tempPath quiet).bind fun _ =>
  .pure ⟨saturatingAdd 0 written.length, codec.sha256 written⟩

def putBlob (key : String) (body : StorageByteStream) (id : Uuid) : Store BlobWriteOutcome :=
  (Action.lift (backend.pathFor key)).bind fun path =>
  (createParentDir path).bind fun _ =>
  (Action.lift (tempPathFor path key id)).bind fun tempPath =>
  (orDiscard (writeStreamToTemp codec tempPath body) [tempPath]).bind fun outcome =>
  (orDiscard (at_ path (rename tempPath path)) [tempPath]).bind fun _ =>
  .pure outcome

def copyBlob (source target : String) (id : Uuid) : Store Unit :=
  (Action.lift (backend.pathFor source)).bind fun sourcePath =>
  (Action.lift (backend.pathFor target)).bind fun targetPath =>
  (createParentDir targetPath).bind fun _ =>
  (Action.lift (tempPathFor targetPath target id)).bind fun tempPath =>
  (orDiscard ((copy sourcePath tempPath).mapError fun
    | .notFound => .missingBlob source
    | kind => .io sourcePath kind) [tempPath]).bind fun _ =>
  orDiscard (at_ targetPath (rename tempPath targetPath)) [tempPath]

def removeIfPresent (path : PathBuf) : Store Unit :=
  (remove path).attempt.bind fun
    | .ok () => .pure ()
    | .error .notFound => .pure ()
    | .error kind => .throw (.io path kind)

def deleteBlob (key : String) : Store Unit :=
  (Action.lift (backend.pathFor key)).bind fun path => removeIfPresent path

end Blobs

/-! ### Objects -/

/-- A writer of one object. `hashed` are the bytes given to the hasher. -/
structure LocalMultipartWriter where
  bucket : String
  key : String
  contentType : Option String
  metadata : ObjectMetadata
  objectPath : PathBuf
  tempPath : PathBuf
  metadataPath : PathBuf
  metadataTempPath : PathBuf
  hashed : Bytes
  sizeBytes : Nat

section Objects

variable (codec : Codec) (backend : LocalStorageBackend)

def createMultipartObject (bucket key : String) (contentType : Option String)
    (metadata : ObjectMetadata) (id metadataId : Uuid) : Store LocalMultipartWriter :=
  (Action.lift (backend.objectPathFor bucket key)).bind fun objectPath =>
  (Action.lift (backend.objectMetadataPathFor bucket key)).bind fun metadataPath =>
  (createParentDir objectPath).bind fun _ =>
  (createParentDir metadataPath).bind fun _ =>
  (Action.lift (tempPathFor objectPath key id)).bind fun tempPath =>
  (Action.lift (tempPathFor metadataPath key metadataId)).bind fun metadataTempPath =>
  (at_ tempPath (create tempPath)).bind fun _ =>
  .pure {
    bucket := bucket
    key := key
    contentType := contentType
    metadata := metadata
    objectPath := objectPath
    tempPath := tempPath
    metadataPath := metadataPath
    metadataTempPath := metadataTempPath
    hashed := []
    sizeBytes := 0 }

namespace LocalMultipartWriter

def feed (writer : LocalMultipartWriter) (bytes : Bytes) : LocalMultipartWriter :=
  { writer with
    hashed := writer.hashed ++ bytes
    sizeBytes := saturatingAdd writer.sizeBytes bytes.length }

/-- The write of a chunk; the writer itself becomes `feed`, also when the write fails. -/
def writeChunk (writer : LocalMultipartWriter) (bytes : Bytes) : Store Unit :=
  at_ writer.tempPath (append writer.tempPath bytes)

def info (writer : LocalMultipartWriter) (now : OffsetDateTime) : ObjectInfo where
  bucket := writer.bucket
  key := writer.key
  contentType := writer.contentType
  metadata := writer.metadata
  sizeBytes := writer.sizeBytes
  sha256Hex := codec.sha256 writer.hashed
  etag := some (codec.sha256 writer.hashed)
  lastModified := now

/-- Both files are complete under their temporary names, and the object's is renamed. -/
def publishObject (writer : LocalMultipartWriter) (object : ObjectInfo) : Store Unit :=
  (at_ writer.tempPath quiet).bind fun _ =>
  (at_ writer.metadataTempPath (write writer.metadataTempPath (codec.encode object))).bind fun _ =>
  orDiscard (at_ writer.objectPath (rename writer.tempPath writer.objectPath))
    [writer.tempPath, writer.metadataTempPath]

def publishMetadata (writer : LocalMultipartWriter) : Store Unit :=
  orDiscard (at_ writer.metadataPath (rename writer.metadataTempPath writer.metadataPath))
    [writer.metadataTempPath]

def complete (writer : LocalMultipartWriter) (now : OffsetDateTime) : Store ObjectInfo :=
  let object := writer.info codec now
  (writer.publishObject codec object).bind fun _ =>
  writer.publishMetadata.bind fun _ =>
  .pure object

/-- Both files are removed before an error of either removal is returned. -/
def abort (writer : LocalMultipartWriter) : Store Unit :=
  (remove writer.tempPath).attempt.bind fun temp =>
  (remove writer.metadataTempPath).attempt.bind fun metadata =>
  match temp, metadata with
  | .error .alreadyExists, _ => .throw (.io writer.tempPath .alreadyExists)
  | .error .other, _ => .throw (.io writer.tempPath .other)
  | _, .error .alreadyExists => .throw (.io writer.metadataTempPath .alreadyExists)
  | _, .error .other => .throw (.io writer.metadataTempPath .other)
  | _, _ => .pure ()

/-- Write the chunks of a body; an error aborts the upload. -/
def writeStream (writer : LocalMultipartWriter) : StorageByteStream → Store LocalMultipartWriter
  | [] => .pure writer
  | .error e :: _ => writer.abort.attempt.bind fun _ => .throw e
  | .ok chunk :: rest =>
    (writer.writeChunk chunk).attempt.bind fun
      | .ok () => writeStream (writer.feed chunk) rest
      | .error e => (writer.feed chunk).abort.attempt.bind fun _ => .throw e

end LocalMultipartWriter

def putObjectStream (bucket key : String) (contentType : Option String)
    (metadata : ObjectMetadata) (body : StorageByteStream) (id metadataId : Uuid)
    (now : OffsetDateTime) : Store ObjectInfo :=
  (createMultipartObject backend bucket key contentType metadata id metadataId).bind fun writer =>
  (writer.writeStream body).bind fun writer =>
  writer.complete codec now

def getObjectMetadata (bucket key : String) : Store ObjectInfo :=
  (Action.lift (backend.objectMetadataPathFor bucket key)).bind fun metadataPath =>
  ((read metadataPath).mapError fun
    | .notFound => StorageError.missingBlob (bucket ++ "/" ++ key)
    | kind => .io metadataPath kind).bind fun bytes =>
  .lift (okOr (.provider "local" "local object metadata is invalid" false) (codec.decode bytes))

def deleteObject (bucket key : String) : Store Unit :=
  (Action.lift (backend.objectPathFor bucket key)).bind fun objectPath =>
  (Action.lift (backend.objectMetadataPathFor bucket key)).bind fun metadataPath =>
  (removeIfPresent objectPath).bind fun _ => removeIfPresent metadataPath

end Objects

end GraphqlOrm.Storage
