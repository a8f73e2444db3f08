import GraphqlOrm.Storage.Local

/-!
# Namespaces of the local store

Accepted keys name strict descendants of the root, and different keys different
ones. The internal area is a directory like any other to the validator, so what
keeps an operation out of it is that its keys do not start there.
-/
namespace GraphqlOrm.Storage

open Outcome Faulty FileSystem
open Lease (Uuid)

/-! ### The paths of keys -/

section Shapes

variable {backend : LocalStorageBackend} {bucket key : String} {path : PathBuf}

theorem pathFor_ok : backend.pathFor key = .ok path ↔
    ValidKey key ∧ path = backend.root ++ (splitSlash key).map .normal := by
  rw [LocalStorageBackend.pathFor, bind_eq_ok]
  constructor
  · rintro ⟨_, accepted, done⟩
    have valid := validateBlobKey_ok.mp accepted
    cases done
    exact ⟨valid, join_valid valid _⟩
  · rintro ⟨valid, rfl⟩
    exact ⟨(), validateBlobKey_ok.mpr valid, congrArg Except.ok (join_valid valid _)⟩

private theorem join_bucket (valid : ValidKey bucket) (plain : '/' ∉ bucket.toList)
    (base : PathBuf) : join base bucket = base ++ [.normal bucket] := by
  rw [join_valid valid, splitSlash_plain plain]
  rfl

theorem objectPathFor_ok : backend.objectPathFor bucket key = .ok path ↔
    (ValidKey bucket ∧ '/' ∉ bucket.toList) ∧ ValidKey key ∧
      path = backend.root ++ .normal bucket :: (splitSlash key).map .normal := by
  have joined (named : ValidKey bucket ∧ '/' ∉ bucket.toList) (valid : ValidKey key) :
      join (join backend.root bucket) key =
        backend.root ++ .normal bucket :: (splitSlash key).map .normal := by
    rw [join_valid valid, join_bucket named.1 named.2, List.append_assoc]
    rfl
  rw [LocalStorageBackend.objectPathFor, bind_eq_ok]
  simp only [bind_eq_ok]
  constructor
  · rintro ⟨_, named, _, accepted, done⟩
    have valid := validateBlobKey_ok.mp accepted
    have named := validateObjectBucket_ok.mp named
    cases done
    exact ⟨named, valid, joined named valid⟩
  · rintro ⟨named, valid, rfl⟩
    exact ⟨(), validateObjectBucket_ok.mpr named, (), validateBlobKey_ok.mpr valid,
      congrArg Except.ok (joined named valid)⟩

/-- The components of a key with the last one apart. -/
theorem splitSlash_last (key : String) :
    ∃ front last, splitSlash key = front ++ [last] :=
  ⟨_, _, (List.dropLast_append_getLast (splitSlash_ne_nil key)).symm⟩

theorem fileName_normal (base : PathBuf) (front : List String) (last : String) :
    fileName (base ++ (front ++ [last]).map .normal) = some last := by
  simp [fileName]

theorem withFileName_normal (base : PathBuf) (front : List String) (last name : String) :
    withFileName (base ++ (front ++ [last]).map .normal) name =
      base ++ (front ++ [name]).map .normal := by
  rw [withFileName, List.map_append, ← List.append_assoc, List.map_cons, List.map_nil,
    List.dropLast_concat, List.map_append, List.append_assoc]
  rfl

private theorem valid_internal : ValidKey internalStorageDir ∧ '/' ∉ internalStorageDir.toList :=
  ⟨⟨by decide, by decide, by decide⟩, by decide⟩

private theorem valid_metadata : ValidKey objectMetadataDir ∧ '/' ∉ objectMetadataDir.toList :=
  ⟨⟨by decide, by decide, by decide⟩, by decide⟩

def metadataDir (backend : LocalStorageBackend) (bucket : String) : PathBuf :=
  backend.root ++ [.normal internalStorageDir, .normal objectMetadataDir, .normal bucket]

theorem objectMetadataPathFor_ok : backend.objectMetadataPathFor bucket key = .ok path ↔
    (ValidKey bucket ∧ '/' ∉ bucket.toList) ∧ ValidKey key ∧
      ∃ front last, splitSlash key = front ++ [last] ∧
        path = metadataDir backend bucket ++ (front ++ [last ++ ".metadata.json"]).map .normal := by
  have joined (named : ValidKey bucket ∧ '/' ∉ bucket.toList) (valid : ValidKey key) :
      join (join (join (join backend.root internalStorageDir) objectMetadataDir) bucket) key =
        metadataDir backend bucket ++ (splitSlash key).map .normal := by
    rw [join_valid valid, join_bucket named.1 named.2, join_bucket valid_metadata.1 valid_metadata.2,
      join_bucket valid_internal.1 valid_internal.2, metadataDir]
    simp only [List.append_assoc, List.cons_append, List.nil_append]
  rw [LocalStorageBackend.objectMetadataPathFor, bind_eq_ok]
  simp only [bind_eq_ok, okOr_eq_ok]
  constructor
  · rintro ⟨_, named, _, accepted, name, found, done⟩
    have valid := validateBlobKey_ok.mp accepted
    have named := validateObjectBucket_ok.mp named
    obtain ⟨front, last, split⟩ := splitSlash_last key
    rw [joined named valid, split] at found done
    rw [fileName_normal, Option.some.injEq] at found
    cases done
    exact ⟨named, valid, front, last, split, found ▸ withFileName_normal _ _ _ _⟩
  · rintro ⟨named, valid, front, last, split, rfl⟩
    refine ⟨(), validateObjectBucket_ok.mpr named, (), validateBlobKey_ok.mpr valid, last, ?_, ?_⟩
    · rw [joined named valid, split]
      exact fileName_normal _ _ _
    · rw [joined named valid, split]
      exact congrArg Except.ok (withFileName_normal _ _ _ _)

theorem tempPathFor_normal {base : PathBuf} {front : List String} {last : String} {id : Uuid} :
    tempPathFor (base ++ (front ++ [last]).map .normal) key id =
      .ok (base ++ (front ++ [last ++ "." ++ UuidText.hyphenated id ++ ".uploading"]).map .normal) := by
  rw [tempPathFor, fileName_normal]
  exact congrArg Except.ok (withFileName_normal _ _ _ _)

end Shapes

/-! ### Accepted keys -/

def StrictDescendant (root path : PathBuf) : Prop :=
  ∃ names : List String, names ≠ [] ∧ path = root ++ names.map .normal

variable {backend : LocalStorageBackend}

theorem pathFor_descendant {key : String} (accepted : validateBlobKey key = .ok ()) :
    ∃ path, backend.pathFor key = .ok path ∧ StrictDescendant backend.root path :=
  ⟨_, pathFor_ok.mpr ⟨validateBlobKey_ok.mp accepted, rfl⟩, splitSlash key,
    splitSlash_ne_nil key, rfl⟩

theorem objectPathFor_descendant {bucket key : String}
    (named : validateObjectBucket bucket = .ok ()) (accepted : validateBlobKey key = .ok ()) :
    ∃ path, backend.objectPathFor bucket key = .ok path ∧ StrictDescendant backend.root path :=
  ⟨_, objectPathFor_ok.mpr ⟨validateObjectBucket_ok.mp named, validateBlobKey_ok.mp accepted, rfl⟩,
    bucket :: splitSlash key, List.cons_ne_nil _ _, rfl⟩

theorem names_injective {names others : List String}
    (same : names.map Component.normal = others.map Component.normal) : names = others :=
  List.map_injective_iff.mpr (fun _ _ equal => Component.normal.inj equal) same

theorem pathFor_injective {key key' : String} {path : PathBuf}
    (first : backend.pathFor key = .ok path) (second : backend.pathFor key' = .ok path) :
    key = key' := by
  obtain ⟨_, rfl⟩ := pathFor_ok.mp first
  obtain ⟨_, same⟩ := pathFor_ok.mp second
  exact splitSlash_injective (names_injective (List.append_cancel_left same))

theorem objectPathFor_injective {bucket bucket' key key' : String} {path : PathBuf}
    (first : backend.objectPathFor bucket key = .ok path)
    (second : backend.objectPathFor bucket' key' = .ok path) : bucket = bucket' ∧ key = key' := by
  obtain ⟨_, _, rfl⟩ := objectPathFor_ok.mp first
  obtain ⟨_, _, same⟩ := objectPathFor_ok.mp second
  have names : bucket :: splitSlash key = bucket' :: splitSlash key' :=
    names_injective (List.append_cancel_left same)
  simp only [List.cons.injEq] at names
  exact ⟨names.1, splitSlash_injective names.2⟩

/-! ### The internal area -/

def multipartDir : String := "multipart"

def LocalStorageBackend.uploadsDir (backend : LocalStorageBackend) : PathBuf :=
  join (join backend.root internalStorageDir) multipartDir

/-- A file of a staged upload, or the metadata file of an object that is not `own`. -/
inductive InternalFile (backend : LocalStorageBackend) (own : Option (String × String)) :
    PathBuf → Prop where
  | upload {path : PathBuf} (below : StrictDescendant backend.uploadsDir path) :
      InternalFile backend own path
  | metadata {bucket key : String} {path : PathBuf} (foreign : own ≠ some (bucket, key))
      (named : backend.objectMetadataPathFor bucket key = .ok path) :
      InternalFile backend own path

private theorem valid_multipart : ValidKey multipartDir ∧ '/' ∉ multipartDir.toList :=
  ⟨⟨by decide, by decide, by decide⟩, by decide⟩

theorem uploadsDir_eq : backend.uploadsDir =
    backend.root ++ [internalStorageDir, multipartDir].map .normal := by
  rw [LocalStorageBackend.uploadsDir, join_bucket valid_multipart.1 valid_multipart.2,
    join_bucket valid_internal.1 valid_internal.2, List.append_assoc]
  rfl

theorem metadataDir_eq (bucket : String) : metadataDir backend bucket =
    backend.root ++ [internalStorageDir, objectMetadataDir, bucket].map .normal := rfl

/-- The names of an internal file below the root. -/
theorem InternalFile.names {own : Option (String × String)} {names : List String}
    (internal : InternalFile backend own (backend.root ++ names.map .normal)) :
    ∃ rest, rest ≠ [] ∧ names = internalStorageDir :: rest := by
  cases internal with
  | upload below =>
    obtain ⟨further, _, same⟩ := below
    rw [uploadsDir_eq, List.append_assoc, ← List.map_append] at same
    exact ⟨multipartDir :: further, List.cons_ne_nil _ _,
      names_injective (List.append_cancel_left same)⟩
  | metadata _ named =>
    obtain ⟨_, _, front, last, _, same⟩ := objectMetadataPathFor_ok.mp named
    rw [metadataDir_eq, List.append_assoc, ← List.map_append] at same
    exact ⟨_, List.cons_ne_nil _ _, names_injective (List.append_cancel_left same)⟩

/-- A key of the blob namespace that does not lead into the internal area. -/
def OutsideInternal (key : String) : Prop :=
  ¬ (internalStorageDir ++ "/").toList <+: key.toList

instance (key : String) : Decidable (OutsideInternal key) :=
  inferInstanceAs (Decidable (¬ _))

theorem OutsideInternal.names {key : String} (outside : OutsideInternal key)
    {front : List String} {last : String} (split : splitSlash key = front ++ [last])
    (other : String) {rest : List String} (some : rest ≠ []) :
    front ++ [other] ≠ internalStorageDir :: rest := by
  intro same
  cases front with
  | nil =>
    cases same
    exact some rfl
  | cons first front =>
    obtain ⟨rfl, _⟩ := List.cons.inj same
    apply outside
    -- the key is the concatenation of its parts
    have whole : List.intercalate ['/'] (key.toList.splitOn '/') = key.toList :=
      List.intercalate_splitOn ..
    cases parts : key.toList.splitOn '/' with
    | nil => exact absurd parts (List.splitOn_ne_nil _ _)
    | cons part parts' =>
      rw [splitSlash, parts, List.map_cons, List.cons_append] at split
      obtain ⟨start, later⟩ := List.cons.inj split
      cases parts' with
      | nil => simp at later
      | cons next others =>
        rw [parts] at whole
        rw [← whole, ← start, String.toList_append, String.toList_ofList]
        exact ⟨List.intercalate ['/'] (next :: others), by simp [List.intercalate]⟩

/-! ### What the operations touch -/

section Frames

variable {paths : Set PathBuf} {α : Type}

theorem within_at {path : PathBuf} {x : Io PathBuf α} (within : Within paths x) :
    Within paths (at_ path x) := fun fs => (within fs).mapError

theorem within_createParentDir (path : PathBuf) : Within paths (createParentDir path) := fun fs => by
  unfold createParentDir
  split
  · exact Keeps.throw
  · exact within_at within_quiet fs

theorem within_discard {path : PathBuf} (mem : path ∈ paths) : Within paths (discard path) :=
  fun fs => (within_at (within_remove mem) fs).attempt.bind fun _ => Keeps.pure

theorem within_orDiscard {x : Store α} {temps : List PathBuf} (within : Within paths x)
    (mem : ∀ temp ∈ temps, temp ∈ paths) : Within paths (orDiscard x temps) := fun fs => by
  refine (within fs).attempt.bind fun outcome => ?_
  split
  · exact Keeps.pure
  · exact (Keeps.each fun temp listed => within_discard (mem temp listed) fs).bind fun _ =>
      Keeps.throw

theorem within_removeIfPresent {path : PathBuf} (mem : path ∈ paths) :
    Within paths (removeIfPresent path) := fun fs => by
  refine (within_remove mem fs).attempt.bind fun outcome => ?_
  split
  · exact Keeps.pure
  · exact Keeps.pure
  · exact Keeps.throw

theorem within_writeChunks {path : PathBuf} (mem : path ∈ paths) (written : Bytes)
    (body : StorageByteStream) : Within paths (writeChunks path written body) := fun fs => by
  induction body generalizing written with
  | nil => exact Keeps.pure
  | cons chunk rest ih =>
    cases chunk with
    | error e => exact Keeps.throw
    | ok chunk => exact (within_at (within_append mem chunk) fs).bind fun _ => ih _

theorem within_writeStreamToTemp {codec : Codec} {path : PathBuf} (mem : path ∈ paths)
    (body : StorageByteStream) : Within paths (writeStreamToTemp codec path body) := fun fs => by
  refine (within_at (within_create mem) fs).bind fun _ => ?_
  refine (within_writeChunks mem [] body fs).bind fun written => ?_
  exact (within_at within_quiet fs).bind fun _ => Keeps.pure

variable {writer : LocalMultipartWriter}

theorem within_abort (temp : writer.tempPath ∈ paths) (metadata : writer.metadataTempPath ∈ paths) :
    Within paths writer.abort := fun fs => by
  refine (within_remove temp fs).attempt.bind fun _ => ?_
  refine (within_remove metadata fs).attempt.bind fun _ => ?_
  split
  · exact Keeps.throw
  · exact Keeps.throw
  · exact Keeps.throw
  · exact Keeps.throw
  · exact Keeps.pure

/-- The four files of a writer. -/
structure LocalMultipartWriter.Inside (writer : LocalMultipartWriter) (paths : Set PathBuf) :
    Prop where
  object : writer.objectPath ∈ paths
  temp : writer.tempPath ∈ paths
  metadata : writer.metadataPath ∈ paths
  metadataTemp : writer.metadataTempPath ∈ paths

/-- The writer that is made for an object with the ids drawn for it. -/
structure LocalMultipartWriter.Drawn (backend : LocalStorageBackend) (bucket key : String)
    (id metadataId : Uuid) (writer : LocalMultipartWriter) : Prop where
  sameBucket : writer.bucket = bucket
  sameKey : writer.key = key
  object : backend.objectPathFor bucket key = .ok writer.objectPath
  temp : tempPathFor writer.objectPath key id = .ok writer.tempPath
  metadata : backend.objectMetadataPathFor bucket key = .ok writer.metadataPath
  metadataTemp : tempPathFor writer.metadataPath key metadataId = .ok writer.metadataTempPath

def LocalMultipartWriter.Continues (writer written : LocalMultipartWriter) : Prop :=
  written = { writer with hashed := written.hashed, sizeBytes := written.sizeBytes }

theorem LocalMultipartWriter.Inside.continues {written : LocalMultipartWriter}
    (inside : writer.Inside paths) (continues : writer.Continues written) :
    written.Inside paths := by
  rw [continues]
  exact ⟨inside.object, inside.temp, inside.metadata, inside.metadataTemp⟩

/-- Writing and aborting touch the temporary files only. -/
theorem writeStream_within (paths : Set PathBuf) (temp : writer.tempPath ∈ paths)
    (metadataTemp : writer.metadataTempPath ∈ paths) (body : StorageByteStream) (fs : Files PathBuf) :
    Triple (AgreeOff paths fs) (writer.writeStream body)
      (fun written gs => writer.Continues written ∧ AgreeOff paths fs gs)
      (fun _ => AgreeOff paths fs) (AgreeOff paths fs) := by
  induction body generalizing writer with
  | nil => exact Triple.pure fun _ agree => ⟨rfl, agree⟩
  | cons chunk rest ih =>
    cases chunk with
    | error e =>
      exact Triple.bind (Keeps.attempt (within_abort temp metadataTemp fs))
        fun _ => Triple.throw fun _ agree => agree
    | ok chunk =>
      have writes : Within paths (writer.writeChunk chunk) := within_at (within_append temp chunk)
      have feeds : Within paths (writer.feed chunk).abort := within_abort temp metadataTemp
      refine Triple.bind (writes fs).attempt fun outcome => ?_
      split
      · -- the writer that goes on has the same files
        exact (@ih (writer.feed chunk) temp metadataTemp).weaken (fun _ agree => agree) (fun _ _ done => done)
          (fun _ _ agree => agree) fun _ agree => agree
      · exact Triple.bind (feeds fs).attempt fun _ => Triple.throw fun _ agree => agree

theorem LocalMultipartWriter.Inside.complete {codec : Codec} (inside : writer.Inside paths)
    (now : OffsetDateTime) : Within paths (writer.complete codec now) := by
  intro fs
  have metadataTemp : ∀ temp ∈ [writer.metadataTempPath], temp ∈ paths := fun temp mem =>
    List.mem_singleton.mp mem ▸ inside.metadataTemp
  have temps : ∀ temp ∈ [writer.tempPath, writer.metadataTempPath], temp ∈ paths := by
    intro temp mem
    rcases List.mem_cons.mp mem with rfl | mem
    · exact inside.temp
    · exact metadataTemp temp mem
  have object : Within paths (writer.publishObject codec (writer.info codec now)) := fun fs => by
    refine (within_at within_quiet fs).bind fun _ => ?_
    refine (within_at (within_write inside.metadataTemp _) fs).bind fun _ => ?_
    exact within_orDiscard (within_at (within_rename inside.temp inside.object)) temps fs
  refine (object fs).bind fun _ => ?_
  refine (within_orDiscard (within_at (within_rename inside.metadataTemp inside.metadata))
    metadataTemp fs).bind fun _ => ?_
  exact Keeps.pure

end Frames

/-! ### Files outside the internal area -/

section Outside

variable (own : Option (String × String)) {key : String} {path : PathBuf}

/-- The files that a call for the object `own` may change. -/
def External (backend : LocalStorageBackend) (own : Option (String × String)) : Set PathBuf :=
  fun path => ¬ InternalFile backend own path

theorem external_pathFor (outside : OutsideInternal key) (named : backend.pathFor key = .ok path) :
    path ∈ External backend own ∧
      ∀ id temp, tempPathFor path key id = .ok temp → temp ∈ External backend own := by
  obtain ⟨_, rfl⟩ := pathFor_ok.mp named
  obtain ⟨front, last, split⟩ := splitSlash_last key
  rw [split]
  refine ⟨fun internal => ?_, fun id temp named internal => ?_⟩
  · obtain ⟨rest, some, same⟩ := internal.names
    exact outside.names split last some same
  · rw [tempPathFor_normal] at named
    cases named
    obtain ⟨rest, some, same⟩ := internal.names
    exact outside.names split _ some same

theorem external_objectPathFor {bucket : String} (outside : bucket ≠ internalStorageDir)
    (named : backend.objectPathFor bucket key = .ok path) :
    path ∈ External backend own ∧
      ∀ id temp, tempPathFor path key id = .ok temp → temp ∈ External backend own := by
  obtain ⟨_, _, rfl⟩ := objectPathFor_ok.mp named
  obtain ⟨front, last, split⟩ := splitSlash_last key
  have shape : backend.root ++ Component.normal bucket :: (front ++ [last]).map .normal =
      backend.root ++ (bucket :: front ++ [last]).map .normal := rfl
  rw [split, shape]
  refine ⟨fun internal => ?_, fun id temp named internal => ?_⟩
  · obtain ⟨rest, _, same⟩ := internal.names
    exact outside (List.cons.inj same).1
  · rw [tempPathFor_normal] at named
    cases named
    obtain ⟨rest, _, same⟩ := internal.names
    exact outside (List.cons.inj same).1

theorem append_uploading_ne (a b : String) : a ++ ".uploading" ≠ b ++ ".metadata.json" := by
  intro same
  have lists := congrArg (fun text => text.toList.getLast?) same
  have ended : (".uploading".toList.getLast? : Option Char) = some 'g' := by decide
  have other : (".metadata.json".toList.getLast? : Option Char) = some 'n' := by decide
  rw [String.toList_append, String.toList_append, List.getLast?_append, List.getLast?_append, ended,
    other] at lists
  exact absurd lists (by simp)

theorem objectMetadataPathFor_injective {bucket bucket' key' : String}
    (first : backend.objectMetadataPathFor bucket key = .ok path)
    (second : backend.objectMetadataPathFor bucket' key' = .ok path) :
    bucket = bucket' ∧ key = key' := by
  obtain ⟨_, _, front, last, split, rfl⟩ := objectMetadataPathFor_ok.mp first
  obtain ⟨_, _, front', last', split', same⟩ := objectMetadataPathFor_ok.mp second
  rw [metadataDir_eq, metadataDir_eq, List.append_assoc, List.append_assoc, ← List.map_append,
    ← List.map_append] at same
  have names := names_injective (List.append_cancel_left same)
  simp only [List.cons_append, List.nil_append, List.cons.injEq, true_and] at names
  obtain ⟨rfl, names⟩ := names
  obtain ⟨rfl, ends⟩ := List.append_inj' names rfl
  obtain rfl := (String.append_left_inj _).mp (List.cons.inj ends).1
  exact ⟨rfl, splitSlash_injective (split.trans split'.symm)⟩

theorem external_objectMetadataPathFor {bucket : String}
    (named : backend.objectMetadataPathFor bucket key = .ok path) :
    path ∈ External backend (some (bucket, key)) ∧ ∀ id temp,
      tempPathFor path key id = .ok temp → temp ∈ External backend (some (bucket, key)) := by
  have staged : ∀ names : List String, ¬ StrictDescendant backend.uploadsDir
      (metadataDir backend bucket ++ names.map .normal) := by
    rintro names ⟨further, _, same⟩
    rw [uploadsDir_eq, metadataDir_eq, List.append_assoc, List.append_assoc, ← List.map_append,
      ← List.map_append] at same
    have apart := names_injective (List.append_cancel_left same)
    simp [objectMetadataDir, multipartDir] at apart
  obtain ⟨_, _, front, last, split, shape⟩ := objectMetadataPathFor_ok.mp named
  constructor
  · intro internal
    cases internal with
    | upload below => exact staged _ (shape ▸ below)
    | metadata foreign other =>
      obtain ⟨rfl, rfl⟩ := objectMetadataPathFor_injective named other
      exact foreign rfl
  · intro id temp written internal
    rw [shape, tempPathFor_normal] at written
    cases written
    cases internal with
    | upload below => exact staged _ below
    | metadata foreign other =>
      -- a temporary file has another ending than every metadata file
      obtain ⟨_, _, front', last', _, same⟩ := objectMetadataPathFor_ok.mp other
      rw [metadataDir_eq, metadataDir_eq, List.append_assoc, List.append_assoc, ← List.map_append,
        ← List.map_append] at same
      have names := names_injective (List.append_cancel_left same)
      simp only [List.cons_append, List.nil_append, List.cons.injEq, true_and] at names
      obtain ⟨_, ends⟩ := List.append_inj' names.2 rfl
      exact append_uploading_ne _ _ (List.cons.inj ends).1

end Outside

/-! ### Calls -/

inductive StoreCall where
  | putBlob (key : String) (body : StorageByteStream) (id : Uuid)
  | copyBlob (source target : String) (id : Uuid)
  | deleteBlob (key : String)
  | putObjectStream (bucket key : String) (contentType : Option String)
      (metadata : ObjectMetadata) (body : StorageByteStream) (id metadataId : Uuid)
      (now : OffsetDateTime)
  | deleteObject (bucket key : String)

namespace StoreCall

def run (codec : Codec) (backend : LocalStorageBackend) : StoreCall → Store Unit
  | putBlob key body id => (Storage.putBlob codec backend key body id).bind fun _ => .pure ()
  | copyBlob source target id => Storage.copyBlob backend source target id
  | deleteBlob key => Storage.deleteBlob backend key
  | putObjectStream bucket key contentType metadata body id metadataId now =>
    (Storage.putObjectStream codec backend bucket key contentType metadata body id metadataId
      now).bind fun _ => .pure ()
  | deleteObject bucket key => Storage.deleteObject backend bucket key

def own : StoreCall → Option (String × String)
  | putObjectStream bucket key .. => some (bucket, key)
  | deleteObject bucket key => some (bucket, key)
  | _ => none

/-- The key or bucket that the call writes to is not the internal area's. -/
def Outside : StoreCall → Prop
  | putBlob key _ _ => OutsideInternal key
  | copyBlob _ target _ => OutsideInternal target
  | deleteBlob key => OutsideInternal key
  | putObjectStream bucket .. => bucket ≠ internalStorageDir
  | deleteObject bucket _ => bucket ≠ internalStorageDir

variable {codec : Codec}

theorem within_putBlob {key : String} (outside : OutsideInternal key) (body : StorageByteStream)
    (id : Uuid) (own : Option (String × String)) :
    Within (External backend own) (Storage.putBlob codec backend key body id) := fun fs => by
  refine Keeps.lift_bind fun path named => ?_
  obtain ⟨target, temps⟩ := external_pathFor own outside named
  refine (within_createParentDir path fs).bind fun _ => Keeps.lift_bind fun temp drawn => ?_
  have temporary := temps id temp drawn
  have listed : ∀ other ∈ [temp], other ∈ External backend own := fun other mem =>
    List.mem_singleton.mp mem ▸ temporary
  refine (within_orDiscard (within_writeStreamToTemp temporary body) listed fs).bind fun _ => ?_
  refine (within_orDiscard (within_at (within_rename temporary target)) listed fs).bind fun _ => ?_
  exact Keeps.pure

theorem within_copyBlob {source target : String} (outside : OutsideInternal target) (id : Uuid)
    (own : Option (String × String)) :
    Within (External backend own) (Storage.copyBlob backend source target id) := fun fs => by
  refine Keeps.lift_bind fun sourcePath _ => Keeps.lift_bind fun path named => ?_
  obtain ⟨written, temps⟩ := external_pathFor own outside named
  refine (within_createParentDir path fs).bind fun _ => Keeps.lift_bind fun temp drawn => ?_
  have temporary := temps id temp drawn
  have listed : ∀ other ∈ [temp], other ∈ External backend own := fun other mem =>
    List.mem_singleton.mp mem ▸ temporary
  have copies (g : ErrorKind → StorageError) : Within (External backend own)
      ((copy sourcePath temp).mapError g) := fun fs => (within_copy temporary fs).mapError
  refine (within_orDiscard (copies _) listed fs).bind fun _ => ?_
  exact within_orDiscard (within_at (within_rename temporary written)) listed fs

theorem within_deleteBlob {key : String} (outside : OutsideInternal key)
    (own : Option (String × String)) :
    Within (External backend own) (Storage.deleteBlob backend key) := fun fs =>
  Keeps.lift_bind fun _ named => within_removeIfPresent (external_pathFor _ outside named).1 fs

theorem within_putObjectStream {bucket key : String} {id metadataId : Uuid} {paths : Set PathBuf}
    (inside : ∀ writer : LocalMultipartWriter, writer.Drawn backend bucket key id metadataId →
      writer.Inside paths)
    (contentType : Option String) (metadata : ObjectMetadata) (body : StorageByteStream)
    (now : OffsetDateTime) :
    Within paths (Storage.putObjectStream codec backend bucket key contentType metadata body id
      metadataId now) := by
  intro fs
  have created : Triple (AgreeOff paths fs)
      (createMultipartObject backend bucket key contentType metadata id metadataId)
      (fun writer gs => writer.Inside paths ∧ AgreeOff paths fs gs)
      (fun _ => AgreeOff paths fs) (AgreeOff paths fs) := by
    refine Triple.lift_bind (fun _ _ _ holds => holds) fun objectPath object => ?_
    refine Triple.lift_bind (fun _ _ _ holds => holds) fun metadataPath record => ?_
    refine Triple.bind (within_createParentDir objectPath fs) fun _ => ?_
    refine Triple.bind (within_createParentDir metadataPath fs) fun _ => ?_
    refine Triple.lift_bind (fun _ _ _ holds => holds) fun temp drawn => ?_
    refine Triple.lift_bind (fun _ _ _ holds => holds) fun metadataTemp metadataDrawn => ?_
    have files := inside ⟨bucket, key, contentType, metadata, objectPath, temp, metadataPath,
      metadataTemp, [], 0⟩ ⟨rfl, rfl, object, drawn, record, metadataDrawn⟩
    exact Triple.bind (within_at (within_create files.temp) fs) fun _ =>
      Triple.pure fun _ holds => ⟨files, holds⟩
  refine Triple.bind created fun writer => Triple.assuming fun inside => ?_
  refine Triple.bind (writeStream_within paths inside.temp inside.metadataTemp body fs) fun written =>
    Triple.assuming fun continues => ?_
  exact (inside.continues continues).complete now fs

/-- The files of a writer outside of the internal directory. -/
theorem external_drawn {bucket key : String} {id metadataId : Uuid}
    (outside : bucket ≠ internalStorageDir) (writer : LocalMultipartWriter)
    (drawn : writer.Drawn backend bucket key id metadataId) :
    writer.Inside (External backend (some (bucket, key))) where
  object := (external_objectPathFor _ outside drawn.object).1
  temp := (external_objectPathFor _ outside drawn.object).2 id writer.tempPath drawn.temp
  metadata := (external_objectMetadataPathFor drawn.metadata).1
  metadataTemp := (external_objectMetadataPathFor drawn.metadata).2 metadataId
    writer.metadataTempPath (by rw [← drawn.metadataTemp])

theorem within_deleteObject {bucket : String} (outside : bucket ≠ internalStorageDir)
    (key : String) : Within (External backend (some (bucket, key)))
      (Storage.deleteObject backend bucket key) := fun fs => by
  refine Keeps.lift_bind fun objectPath named => Keeps.lift_bind fun metadataPath record => ?_
  have object := (external_objectPathFor (some (bucket, key)) outside named).1
  exact (within_removeIfPresent object fs).bind fun _ =>
    within_removeIfPresent (external_objectMetadataPathFor record).1 fs

theorem within_run (call : StoreCall) (outside : call.Outside) :
    Within (External backend call.own) (call.run codec backend) := by
  intro fs
  cases call with
  | putBlob key body id => exact (within_putBlob outside body id none fs).bind fun _ => Keeps.pure
  | copyBlob source target id => exact within_copyBlob outside id none fs
  | deleteBlob key => exact within_deleteBlob outside none fs
  | putObjectStream bucket key contentType metadata body id metadataId now =>
    exact (within_putObjectStream (external_drawn outside) contentType metadata body now fs).bind
      fun _ => Keeps.pure
  | deleteObject bucket key => exact within_deleteObject outside key fs

end StoreCall

/-- Keys stay in their namespace: accepted keys name strict descendants of the root,
different ones different paths, and a call whose key or bucket does not start in the
internal area leaves the files of that area alone, whatever fails. Blobs and objects are not
apart from each other: the blob `b/k` and the object `k` of the bucket `b` have one path. -/
theorem keys_keep_namespace (codec : Codec) (backend : LocalStorageBackend) :
    (∀ key, validateBlobKey key = .ok () →
      ∃ path, backend.pathFor key = .ok path ∧ StrictDescendant backend.root path) ∧
    (∀ bucket key, validateObjectBucket bucket = .ok () → validateBlobKey key = .ok () →
      ∃ path, backend.objectPathFor bucket key = .ok path ∧
        StrictDescendant backend.root path) ∧
    (∀ key key' path, backend.pathFor key = .ok path → backend.pathFor key' = .ok path →
      key = key') ∧
    (∀ bucket bucket' key key' path, backend.objectPathFor bucket key = .ok path →
      backend.objectPathFor bucket' key' = .ok path → bucket = bucket' ∧ key = key') ∧
    ∀ call : StoreCall, call.Outside → ∀ path, InternalFile backend call.own path →
      ∀ faults files, (call.run codec backend faults files).state path = files path ∧
        ∀ between ∈ (call.run codec backend faults files).passed, between path = files path := by
  refine ⟨fun key accepted => pathFor_descendant accepted,
    fun bucket key named accepted => objectPathFor_descendant named accepted,
    fun key key' path => pathFor_injective,
    fun bucket bucket' key key' path => objectPathFor_injective, ?_⟩
  intro call outside path internal faults files
  have within : Within (External backend call.own) (call.run codec backend) :=
    StoreCall.within_run call outside
  have untouched : path ∉ External backend call.own := fun external => external internal
  exact ⟨within.state faults files untouched, fun between mem =>
    (within files).passes faults files (fun _ _ => rfl) between mem path untouched⟩

private def sample : LocalStorageBackend := ⟨[.rootDir, .normal "srv"]⟩

private def manifestKey : String := ".graphql-orm-storage/multipart/u1/manifest.json"

private def manifestPath : PathBuf :=
  sample.root ++ [internalStorageDir, multipartDir, "u1", "manifest.json"].map .normal

private def staged : Files PathBuf := fun path => if path = manifestPath then some [123] else none

private theorem manifest_internal (own : Option (String × String)) :
    InternalFile sample own manifestPath :=
  .upload ⟨["u1", "manifest.json"], List.cons_ne_nil _ _, uploadsDir_eq ▸ rfl⟩

/-- Deleting the blob `avatars/1` leaves the manifest of an upload where it is. -/
theorem keys_keep_namespace_avatar :
    OutsideInternal "avatars/1" ∧
      ((StoreCall.deleteBlob "avatars/1").run ⟨fun _ => "", fun _ => [], fun _ => none⟩ sample
        [] staged).state manifestPath = some [123] :=
  have outside : OutsideInternal "avatars/1" := by decide
  ⟨outside, ((keys_keep_namespace ⟨fun _ => "", fun _ => [], fun _ => none⟩ sample).2.2.2.2
    (.deleteBlob "avatars/1") outside manifestPath (manifest_internal none) [] staged).1⟩

/-- The validators accept the key of the manifest of an upload, and a delete with it
removes the manifest. -/
theorem deleteBlob_removes_manifest :
    validateBlobKey manifestKey = .ok () ∧ InternalFile sample none manifestPath ∧
      staged manifestPath = some [123] ∧
      (deleteBlob sample manifestKey [] staged).state manifestPath = none := by
  refine ⟨by decide, manifest_internal none, rfl, ?_⟩
  have named : sample.pathFor manifestKey = .ok manifestPath := by decide
  simp only [deleteBlob, named, Action.bind, Action.lift, removeIfPresent, Action.attempt, remove,
    Action.call, staged]
  rfl

end GraphqlOrm.Storage
