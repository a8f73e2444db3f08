import GraphqlOrm.Storage.Namespace

/-!
# One operation on an object

What creating, writing, completing and deleting an object do to its two files,
under every schedule of failing calls.
-/
namespace GraphqlOrm.Storage

open Outcome Faulty FileSystem
open Lease (Uuid)

/-! ### Paths of an object -/

section Paths

variable {backend : LocalStorageBackend} {bucket bucket' key key' : String}
  {path path' temp temp' : PathBuf} {id : Uuid}

def InternalArea (backend : LocalStorageBackend) (path : PathBuf) : Prop :=
  ∃ rest : List String, path = backend.root ++ (internalStorageDir :: rest).map .normal

private theorem not_internalArea {names : List String} {first : String}
    (outside : first ≠ internalStorageDir) :
    ¬ InternalArea backend (backend.root ++ (first :: names).map .normal) := by
  rintro ⟨rest, same⟩
  have equal := names_injective (List.append_cancel_left same)
  exact outside (List.cons.inj equal).1

theorem objectPathFor_area (outside : bucket ≠ internalStorageDir)
    (named : backend.objectPathFor bucket key = .ok path) :
    ¬ InternalArea backend path ∧
      ∀ {id temp}, tempPathFor path key id = .ok temp → ¬ InternalArea backend temp := by
  obtain ⟨_, _, rfl⟩ := objectPathFor_ok.mp named
  refine ⟨not_internalArea outside, fun {id temp} drawn => ?_⟩
  obtain ⟨front, last, split⟩ := splitSlash_last key
  have shape : backend.root ++ Component.normal bucket :: (splitSlash key).map .normal =
      backend.root ++ (bucket :: front ++ [last]).map .normal := by rw [split]; rfl
  rw [shape, tempPathFor_normal] at drawn
  cases drawn
  exact not_internalArea outside

theorem objectMetadataPathFor_area (named : backend.objectMetadataPathFor bucket key = .ok path) :
    InternalArea backend path ∧
      ∀ {id temp}, tempPathFor path key id = .ok temp → InternalArea backend temp := by
  obtain ⟨_, _, front, last, split, rfl⟩ := objectMetadataPathFor_ok.mp named
  refine ⟨⟨_, by rw [metadataDir_eq, List.append_assoc, ← List.map_append]; rfl⟩,
    fun {id temp} drawn => ?_⟩
  rw [tempPathFor_normal] at drawn
  cases drawn
  exact ⟨_, by rw [metadataDir_eq, List.append_assoc, ← List.map_append]; rfl⟩

theorem tempPathFor_last (drawn : tempPathFor path key id = .ok temp) :
    ∃ name, path.getLast? = some (.normal name) ∧
      temp.getLast? =
        some (.normal (name ++ "." ++ UuidText.hyphenated id ++ ".uploading")) := by
  obtain ⟨name, found, done⟩ := bind_eq_ok.mp drawn
  rw [okOr_eq_ok] at found
  cases done
  refine ⟨name, ?_, by simp [withFileName]⟩
  unfold fileName at found
  split at found
  next last =>
    cases found
    exact last
  · cases found

theorem tempPathFor_ne (drawn : tempPathFor path key id = .ok temp) : temp ≠ path := by
  rintro rfl
  obtain ⟨name, plain, longer⟩ := tempPathFor_last drawn
  rw [plain] at longer
  have lengths := congrArg String.length (Component.normal.inj (Option.some.inj longer))
  simp only [String.length_append] at lengths
  have dot : ".".length = 1 := rfl
  omega

/-- A temporary file is no metadata file. -/
theorem tempPathFor_ne_metadata (drawn : tempPathFor path' key' id = .ok temp)
    (named : backend.objectMetadataPathFor bucket key = .ok path) : temp ≠ path := by
  rintro rfl
  obtain ⟨_, _, front, last, _, rfl⟩ := objectMetadataPathFor_ok.mp named
  obtain ⟨name, _, ending⟩ := tempPathFor_last drawn
  simp only [List.map_append, List.map_cons, List.map_nil, List.getLast?_append,
    List.getLast?_singleton, Option.some_or, Option.some.injEq, Component.normal.injEq] at ending
  exact append_uploading_ne _ _ ending.symm

/-- The four files of a writer are those of its bucket and key. -/
structure LocalMultipartWriter.Names (backend : LocalStorageBackend)
    (writer : LocalMultipartWriter) : Prop where
  outside : writer.bucket ≠ internalStorageDir
  object : backend.objectPathFor writer.bucket writer.key = .ok writer.objectPath
  temp : ∃ id, tempPathFor writer.objectPath writer.key id = .ok writer.tempPath
  metadata : backend.objectMetadataPathFor writer.bucket writer.key = .ok writer.metadataPath
  metadataTemp : ∃ id, tempPathFor writer.metadataPath writer.key id = .ok writer.metadataTempPath

namespace LocalMultipartWriter.Names

variable {writer : LocalMultipartWriter} (names : writer.Names backend)
include names

theorem objectArea : ¬ InternalArea backend writer.objectPath :=
  (objectPathFor_area names.outside names.object).1

theorem tempArea : ¬ InternalArea backend writer.tempPath := by
  obtain ⟨id, drawn⟩ := names.temp
  exact (objectPathFor_area names.outside names.object).2 drawn

theorem metadataArea : InternalArea backend writer.metadataPath :=
  (objectMetadataPathFor_area names.metadata).1

theorem metadataTempArea : InternalArea backend writer.metadataTempPath := by
  obtain ⟨id, drawn⟩ := names.metadataTemp
  exact (objectMetadataPathFor_area names.metadata).2 drawn

theorem temp_ne_object : writer.tempPath ≠ writer.objectPath := by
  obtain ⟨id, drawn⟩ := names.temp
  exact tempPathFor_ne drawn

theorem metadataTemp_ne_metadata : writer.metadataTempPath ≠ writer.metadataPath := by
  obtain ⟨id, drawn⟩ := names.metadataTemp
  exact tempPathFor_ne drawn

omit names in
theorem apart {inside outside : PathBuf} (first : ¬ InternalArea backend outside)
    (second : InternalArea backend inside) : outside ≠ inside :=
  fun same => first (same ▸ second)

end LocalMultipartWriter.Names

end Paths

/-! ### Completing -/

variable {fs : Files PathBuf} {faults : List (Option Fault)}

section Complete

variable {codec : Codec} {backend : LocalStorageBackend} {α : Type}

variable {failed : Files PathBuf → Prop}

theorem triple_at {pre : Files PathBuf → Prop} {post : α → Files PathBuf → Prop} {path : PathBuf}
    {x : Io PathBuf α} (triple : Triple pre x post (fun _ => failed) fun _ => True) :
    Triple pre (at_ path x) post (fun _ => failed) fun _ => True :=
  triple.mapError fun _ _ holds => holds

theorem triple_discard {path : PathBuf} (erases : ∀ fs, failed fs → failed (fs.erase path))
    {fail : StorageError → Files PathBuf → Prop} :
    Triple failed (discard path) (fun _ => failed) fail fun _ => True := by
  have removal : Triple failed (at_ path (remove path)) (fun _ => failed) (fun _ => failed)
      fun _ => True := triple_at (triple_remove erases fun _ _ holds => holds)
  exact (removal.attempt (fun _ => failed) (fun _ _ holds => holds)
    fun _ _ holds => holds).bind fun _ => Triple.pure fun _ holds => holds

/-- Discarding temporary files after an error keeps what the error has left. -/
theorem triple_orDiscard {pre : Files PathBuf → Prop} {post : α → Files PathBuf → Prop}
    {x : Store α} {temps : List PathBuf}
    (triple : Triple pre x post (fun _ => failed) fun _ => True)
    (erases : ∀ temp ∈ temps, ∀ fs, failed fs → failed (fs.erase temp)) :
    Triple pre (orDiscard x temps) post (fun _ => failed) fun _ => True := by
  let middle : Except StorageError α → Files PathBuf → Prop
    | .ok a, fs => post a fs
    | .error _, fs => failed fs
  refine (triple.attempt middle (fun _ _ holds => holds) fun _ _ holds => holds).bind
    fun outcome => ?_
  cases outcome with
  | ok a => exact Triple.pure fun _ holds => holds
  | error e =>
    refine Triple.through (fun _ => failed)
      (Triple.each (fun _ => failed) fun temp rest split => ?_) fun _ =>
      Triple.throw fun _ holds => holds
    obtain ⟨front, rfl⟩ := split
    exact triple_discard (erases temp (by simp))

theorem straight_orDiscard {n : Nat} {x : Store α} {temps : List PathBuf} (straight : Straight n x) :
    Straight n (orDiscard x temps) := by
  unfold orDiscard
  change Straight (n + 0) _
  apply Straight.attempt straight
  · exact fun _ => Straight.pure
  · exact fun _ => Fails.bind fun _ => Fails.throw

namespace LocalMultipartWriter

variable {writer : LocalMultipartWriter} (names : writer.Names backend) {bytes : Bytes}

theorem straight_publishObject (writer : LocalMultipartWriter) (object : ObjectInfo) :
    Straight 3 (writer.publishObject codec object) :=
  straight_quiet.mapError.bind fun _ => (straight_write _ _).mapError.bind fun _ =>
    straight_orDiscard (straight_rename _ _).mapError

include names

theorem publishObject_spec (codec : Codec) (object : ObjectInfo) (bytes : Bytes)
    (old recorded : Option Bytes) :
    Triple (fun fs => fs writer.tempPath = some bytes ∧ fs writer.objectPath = old ∧
        fs writer.metadataPath = recorded)
      (writer.publishObject codec object)
      (fun _ fs => fs writer.objectPath = some bytes ∧
        fs writer.metadataTempPath = some (codec.encode object) ∧
        fs writer.metadataPath = recorded)
      (fun _ fs => fs writer.objectPath = old ∧ fs writer.metadataPath = recorded)
      fun _ => True := by
  have objectMetadataTemp := Names.apart names.objectArea names.metadataTempArea
  have tempMetadataTemp := Names.apart names.tempArea names.metadataTempArea
  have tempMetadata := Names.apart names.tempArea names.metadataArea
  have objectMetadata := Names.apart names.objectArea names.metadataArea
  have metadataTempMetadata := names.metadataTemp_ne_metadata
  have tempObject := names.temp_ne_object
  refine Triple.through (fun _ fs => fs writer.tempPath = some bytes ∧
      fs writer.objectPath = old ∧ fs writer.metadataPath = recorded)
    (triple_at (triple_quiet (fun _ holds => holds) fun _ _ holds => holds.2)) fun _ => ?_
  -- the metadata is written next to the old file
  refine Triple.through (fun _ fs =>
      fs writer.metadataTempPath = some (codec.encode object) ∧
      fs writer.tempPath = some bytes ∧ fs writer.objectPath = old ∧
      fs writer.metadataPath = recorded)
    (triple_at (triple_write ?_ (fun _ _ holds => holds.2) ?_)) fun _ => ?_
  · intro fs holds
    rw [Files.put_self, Files.put_of_ne tempMetadataTemp, Files.put_of_ne objectMetadataTemp,
      Files.put_of_ne metadataTempMetadata.symm]
    exact ⟨rfl, holds⟩
  · intro fs _ stored holds
    rw [Files.put_of_ne objectMetadataTemp, Files.put_of_ne metadataTempMetadata.symm]
    exact holds.2
  refine triple_orDiscard (triple_at (triple_rename ?_ fun _ _ holds => holds.2.2)) ?_
  · rintro fs content ⟨encoded, content', _, kept⟩ found
    rw [content'] at found
    cases found
    rw [Files.put_self, Files.put_of_ne objectMetadataTemp.symm,
      Files.erase_of_ne tempMetadataTemp.symm, Files.put_of_ne objectMetadata.symm,
      Files.erase_of_ne tempMetadata.symm]
    exact ⟨rfl, encoded, kept⟩
  · intro temp mem fs holds
    have apart : writer.objectPath ≠ temp ∧ writer.metadataPath ≠ temp := by
      rcases List.mem_cons.mp mem with rfl | mem
      · exact ⟨tempObject.symm, tempMetadata.symm⟩
      · rw [List.mem_singleton.mp mem]
        exact ⟨objectMetadataTemp, metadataTempMetadata.symm⟩
    rw [Files.erase_of_ne apart.1, Files.erase_of_ne apart.2]
    exact holds

/-- With a metadata rename that works, the two files of an object change together. -/
theorem complete_outcome (codec : Codec) (now : OffsetDateTime)
    (content : fs writer.tempPath = some bytes) (allowed : ¬ FirstFault 3 faults) :
    ((∃ e, (writer.complete codec now faults fs).value = .error e) ∧
      (writer.complete codec now faults fs).state writer.objectPath = fs writer.objectPath ∧
      (writer.complete codec now faults fs).state writer.metadataPath = fs writer.metadataPath) ∨
    ((writer.complete codec now faults fs).value = .ok (writer.info codec now) ∧
      (writer.complete codec now faults fs).state writer.objectPath = some bytes ∧
      (writer.complete codec now faults fs).state writer.metadataPath =
        some (codec.encode (writer.info codec now))) := by
  have spec := publishObject_spec names codec (writer.info codec now) bytes
    (fs writer.objectPath) (fs writer.metadataPath)
  have start : fs writer.tempPath = some bytes ∧ fs writer.objectPath = fs writer.objectPath ∧
      fs writer.metadataPath = fs writer.metadataPath := ⟨content, rfl, rfl⟩
  unfold complete
  cases value : (writer.publishObject codec (writer.info codec now) faults fs).value with
  | error e =>
    refine .inl ?_
    obtain ⟨failed, state⟩ := bind_of_error (f := fun _ => writer.publishMetadata.bind fun _ =>
      Action.pure (writer.info codec now)) value
    rw [state]
    exact ⟨⟨e, failed⟩, spec.fails faults fs start e value⟩
  | ok done =>
    refine .inr ?_
    obtain ⟨object, encoded, _⟩ := spec.returns faults fs start done value
    have working := (straight_publishObject writer _).next value allowed
    obtain ⟨same, _, state⟩ := bind_of_ok (f := fun _ => writer.publishMetadata.bind fun _ =>
      Action.pure (writer.info codec now)) value
    rw [same, state]
    generalize (writer.publishObject codec (writer.info codec now) faults fs).faults = left at *
    generalize (writer.publishObject codec (writer.info codec now) faults fs).state = gs at *
    have renamed : writer.publishMetadata left gs =
        ⟨.ok (), left.tail, (gs.erase writer.metadataTempPath).put writer.metadataPath
          (codec.encode (writer.info codec now)), [(gs.erase writer.metadataTempPath).put
            writer.metadataPath (codec.encode (writer.info codec now))]⟩ := by
      simp only [publishMetadata, orDiscard, at_, rename, Action.mapError, Action.attempt,
        Action.bind, Action.call, Action.pure, working, encoded, Option.isSome_none,
        Bool.false_eq_true, if_false, List.append_nil]
    have returned : (writer.publishMetadata left gs).value = .ok () := by rw [renamed]
    obtain ⟨value', _, state'⟩ := bind_of_ok (f := fun _ => Action.pure (writer.info codec now))
      returned
    rw [value', state', renamed]
    refine ⟨rfl, ?_, Files.put_self ..⟩
    change ((gs.erase _).put _ _) _ = _
    rw [Files.put_of_ne (Names.apart names.objectArea names.metadataArea),
      Files.erase_of_ne (Names.apart names.objectArea names.metadataTempArea)]
    exact object

end LocalMultipartWriter

end Complete

/-! ### Writing -/

section Writing

variable {codec : Codec} {backend : LocalStorageBackend}

theorem LocalMultipartWriter.Drawn.names {bucket key : String} {id metadataId : Uuid}
    {writer : LocalMultipartWriter} (drawn : writer.Drawn backend bucket key id metadataId)
    (outside : bucket ≠ internalStorageDir) : writer.Names backend where
  outside := drawn.sameBucket ▸ outside
  object := by rw [drawn.sameBucket, drawn.sameKey, drawn.object]
  temp := ⟨id, by rw [drawn.sameKey, drawn.temp]⟩
  metadata := by rw [drawn.sameBucket, drawn.sameKey, drawn.metadata]
  metadataTemp := ⟨metadataId, by rw [drawn.sameKey, drawn.metadataTemp]⟩

/-- The temporary file holds the bytes that the writer has hashed and counted. -/
structure LocalMultipartWriter.Holds (writer : LocalMultipartWriter) (fs : Files PathBuf) :
    Prop where
  content : fs writer.tempPath = some writer.hashed
  size : writer.sizeBytes = writer.hashed.length
  bounded : writer.hashed.length ≤ maxFileSize

theorem straight_createMultipartObject (bucket key : String) (contentType : Option String)
    (metadata : ObjectMetadata) (id metadataId : Uuid) : Straight 3
      (createMultipartObject backend bucket key contentType metadata id metadataId) := by
  have parent : ∀ path, Straight 1 (createParentDir path) := by
    intro path
    unfold createParentDir
    split
    · exact Fails.throw.straight 1
    · exact straight_quiet.mapError
  unfold createMultipartObject
  change Straight (0 + (0 + (1 + (1 + (0 + (0 + (1 + 0))))))) _
  refine Straight.lift.bind fun _ => Straight.lift.bind fun _ => ?_
  refine (parent _).bind fun _ => (parent _).bind fun _ => ?_
  refine Straight.lift.bind fun _ => Straight.lift.bind fun _ => ?_
  exact (straight_create _).mapError.bind fun _ => Straight.pure

theorem createMultipartObject_spec (bucket key : String) (contentType : Option String)
    (metadata : ObjectMetadata) (id metadataId : Uuid) (fs : Files PathBuf) :
    Triple (· = fs) (createMultipartObject backend bucket key contentType metadata id metadataId)
      (fun writer gs => writer.Drawn backend bucket key id metadataId ∧ writer.Holds gs ∧
        gs = fs.put writer.tempPath [])
      (fun _ gs => gs = fs) fun _ => True := by
  have parent : ∀ path, Triple (· = fs) (createParentDir path) (fun _ gs => gs = fs)
      (fun _ gs => gs = fs) fun _ => True := by
    intro path
    unfold createParentDir
    split
    · exact Triple.throw fun _ holds => holds
    · exact triple_at (triple_quiet (fun _ holds => holds) fun _ _ holds => holds)
  refine Triple.lift_bind (fun _ _ _ holds => holds) fun objectPath object => ?_
  refine Triple.lift_bind (fun _ _ _ holds => holds) fun metadataPath record => ?_
  refine Triple.bind (parent objectPath) fun _ => Triple.bind (parent metadataPath) fun _ => ?_
  refine Triple.lift_bind (fun _ _ _ holds => holds) fun tempPath temp => ?_
  refine Triple.lift_bind (fun _ _ _ holds => holds) fun metadataTempPath metadataTemp => ?_
  refine Triple.through (fun _ gs => gs = fs.put tempPath [])
    (triple_at (triple_create (fun gs holds => holds ▸ rfl) fun _ _ holds => holds)) fun _ => ?_
  refine Triple.pure fun gs holds => ?_
  subst holds
  exact ⟨⟨rfl, rfl, object, temp, record, metadataTemp⟩, ⟨Files.put_self .., rfl, Nat.zero_le _⟩,
    rfl⟩

theorem writeChunk_spec (writer : LocalMultipartWriter) (bytes : Bytes) :
    Triple writer.Holds (writer.writeChunk bytes) (fun _ fs => (writer.feed bytes).Holds fs)
      (fun _ fs => ∃ stored, fs writer.tempPath = some stored) fun _ => True := by
  have written : ∀ fs, writer.Holds fs →
      writer.hashed.length + bytes.length ≤ maxFileSize →
      (writer.feed bytes).Holds (fs.put writer.tempPath (writer.hashed ++ bytes)) := by
    intro fs holds fits
    refine ⟨Files.put_self .., ?_, by simpa [LocalMultipartWriter.feed] using fits⟩
    change saturatingAdd writer.sizeBytes bytes.length = (writer.hashed ++ bytes).length
    rw [saturatingAdd, holds.size, List.length_append]
    -- a file that fits keeps the count below the saturation
    exact Nat.min_eq_left (Nat.le_trans fits (by decide))
  refine triple_at (triple_append (fun fs holds => holds.content) written ?_ ?_)
  · exact fun fs _ holds => ⟨_, holds.content⟩
  · exact fun fs _ more holds => ⟨_, Files.put_self ..⟩

theorem writeStream_spec (writer : LocalMultipartWriter) (body : StorageByteStream) :
    Triple writer.Holds (writer.writeStream body)
      (fun written fs => writer.Continues written ∧ written.Holds fs) (fun _ _ => True)
      fun _ => True := by
  induction body generalizing writer with
  | nil => exact Triple.pure fun fs holds => ⟨rfl, holds⟩
  | cons chunk rest ih =>
    have aborts (writer : LocalMultipartWriter) (e : StorageError) (pre : Files PathBuf → Prop)
        (post : LocalMultipartWriter → Files PathBuf → Prop) :
        Triple pre (writer.abort.attempt.bind fun _ => Action.throw e) post (fun _ _ => True)
          fun _ => True := by
      refine Triple.through (fun _ _ => True) ⟨?_, ?_, ?_⟩ fun _ => Triple.throw fun _ _ => trivial
      · exact fun _ _ _ _ _ => trivial
      · exact fun _ _ _ _ _ => trivial
      · exact fun _ _ _ _ _ => trivial
    cases chunk with
    | error e => exact aborts writer e _ _
    | ok chunk =>
      let middle : Except StorageError Unit → Files PathBuf → Prop
        | .ok _, fs => (writer.feed chunk).Holds fs
        | .error _, _ => True
      refine Triple.through middle
        ((writeChunk_spec writer chunk).attempt middle (fun _ _ holds => holds) fun _ _ _ => trivial)
        fun outcome => ?_
      cases outcome with
      | error e => exact aborts (writer.feed chunk) e _ _
      | ok done =>
        refine (ih (writer.feed chunk)).weaken (fun _ holds => holds) ?_ (fun _ _ holds => holds)
          fun _ holds => holds
        rintro written fs ⟨continues, holds⟩
        exact ⟨continues, holds⟩

theorem straight_writeStream (writer : LocalMultipartWriter) (body : StorageByteStream) :
    Straight body.length (writer.writeStream body) := by
  induction body generalizing writer with
  | nil => exact Straight.pure
  | cons chunk rest ih =>
    cases chunk with
    | error e => exact Fails.straight (Fails.bind fun _ => Fails.throw) _
    | ok chunk =>
      rw [List.length_cons, Nat.add_comm]
      apply Straight.attempt (straight_append _ _).mapError
      · exact fun _ => ih (writer.feed chunk)
      · exact fun _ => Fails.bind fun _ => Fails.throw

/-- An upload that goes through has read its whole body. -/
theorem writeStream_read {writer written : LocalMultipartWriter} {body : StorageByteStream}
    (done : (writer.writeStream body faults fs).value = .ok written) :
    ∀ chunk ∈ body, ∃ bytes, chunk = .ok bytes := by
  induction body generalizing writer faults fs with
  | nil => exact fun chunk mem => by cases mem
  | cons chunk rest ih =>
    cases chunk with
    | error e =>
      have aborts : Fails (writer.writeStream (.error e :: rest)) := Fails.bind fun _ => Fails.throw
      exact absurd done (aborts _ _ _)
    | ok chunk =>
      unfold LocalMultipartWriter.writeStream at done
      rw [(attempt_bind ..).1] at done
      cases value : (writer.writeChunk chunk faults fs).value with
      | error e =>
        rw [value] at done
        have aborts : Fails ((writer.feed chunk).abort.attempt.bind fun _ =>
          (Action.throw e : Store LocalMultipartWriter)) := Fails.bind fun _ => Fails.throw
        exact absurd done (aborts _ _ _)
      | ok _ =>
        rw [value] at done
        intro other mem
        rcases List.mem_cons.mp mem with rfl | later
        · exact ⟨chunk, rfl⟩
        · exact ih done other later

/-! ### A whole object -/

/-- What the metadata records is the size and the digest of the bytes. -/
structure ObjectInfo.Describes (info : ObjectInfo) (codec : Codec) (bytes : Bytes) : Prop where
  size : info.sizeBytes = bytes.length
  digest : info.sha256Hex = codec.sha256 bytes

theorem LocalMultipartWriter.Holds.describes {writer : LocalMultipartWriter}
    (holds : writer.Holds fs) (now : OffsetDateTime) :
    (writer.info codec now).Describes codec writer.hashed :=
  ⟨holds.size, rfl⟩

theorem LocalMultipartWriter.Names.continues {writer written : LocalMultipartWriter}
    (names : writer.Names backend) (continues : writer.Continues written) :
    written.Names backend := by
  rw [continues]
  exact ⟨names.outside, names.object, names.temp, names.metadata, names.metadataTemp⟩

variable {bucket key : String} {contentType : Option String} {metadata : ObjectMetadata}
  {id metadataId : Uuid}

/-- An upload in one call either leaves the object as it was or publishes both files. -/
theorem putObjectStream_outcome (outside : bucket ≠ internalStorageDir) {body : StorageByteStream}
    {now : OffsetDateTime} (allowed : (∀ chunk ∈ body, ∃ bytes, chunk = .ok bytes) →
      ¬ FirstFault (3 + body.length + 3) faults) (fs : Files PathBuf) {path record : PathBuf}
    (object : backend.objectPathFor bucket key = .ok path)
    (recorded : backend.objectMetadataPathFor bucket key = .ok record) :
    let done := putObjectStream codec backend bucket key contentType metadata body id metadataId now
      faults fs
    ((∃ e, done.value = .error e) ∧ done.state path = fs path ∧ done.state record = fs record) ∨
    ∃ info bytes, done.value = .ok info ∧ done.state path = some bytes ∧
      done.state record = some (codec.encode info) ∧ info.Describes codec bytes ∧
      bytes.length ≤ maxFileSize := by
  intro done
  have created := @createMultipartObject_spec backend bucket key contentType metadata id
    metadataId fs
  have straight := @straight_createMultipartObject backend bucket key contentType
    metadata id metadataId
  generalize begun : createMultipartObject backend bucket key contentType metadata id metadataId = x
    at created straight
  let finish (writer : LocalMultipartWriter) : Store ObjectInfo :=
    (writer.writeStream body).bind fun written => written.complete codec now
  have run : done = x.bind finish faults fs := by rw [← begun]; rfl
  rw [run]
  cases opened : (x faults fs).value with
  | error e =>
    obtain ⟨failed, state⟩ := bind_of_error (f := finish) opened
    refine .inl ⟨⟨e, failed⟩, ?_, ?_⟩ <;> rw [state, created.fails faults fs rfl e opened]
  | ok writer =>
    obtain ⟨drawn, holds, put⟩ := created.returns faults fs rfl writer opened
    obtain ⟨early, left⟩ := straight faults fs writer opened
    have names := drawn.names outside
    obtain rfl : writer.objectPath = path := Except.ok.inj (drawn.object.symm.trans object)
    obtain rfl : writer.metadataPath = record :=
      Except.ok.inj (drawn.metadata.symm.trans recorded)
    obtain ⟨value, _, state⟩ := bind_of_ok (f := finish) opened
    rw [value, state, left]
    generalize (x faults fs).state = gs at *
    -- the object and its metadata are not among the temporary files
    have kept : ∀ hs : Files PathBuf,
        AgreeOff (fun p => p = writer.tempPath ∨ p = writer.metadataTempPath) gs hs →
        hs writer.objectPath = fs writer.objectPath ∧
          hs writer.metadataPath = fs writer.metadataPath := by
      intro hs agree
      have objectApart : ¬ (writer.objectPath = writer.tempPath ∨
          writer.objectPath = writer.metadataTempPath) := by
        rintro (same | same)
        · exact names.temp_ne_object same.symm
        · exact LocalMultipartWriter.Names.apart names.objectArea names.metadataTempArea same
      have metadataApart : ¬ (writer.metadataPath = writer.tempPath ∨
          writer.metadataPath = writer.metadataTempPath) := by
        rintro (same | same)
        · exact LocalMultipartWriter.Names.apart names.tempArea names.metadataArea same.symm
        · exact names.metadataTemp_ne_metadata same.symm
      rw [agree _ objectApart, agree _ metadataApart, put, Files.put_of_ne, Files.put_of_ne]
      · exact ⟨rfl, rfl⟩
      · exact fun same => metadataApart (.inl same)
      · exact fun same => objectApart (.inl same)
    have frame := writeStream_within (fun p => p = writer.tempPath ∨ p = writer.metadataTempPath)
      (.inl rfl) (.inr rfl) body gs
    cases written : (writer.writeStream body (faults.drop 3) gs).value with
    | error e =>
      obtain ⟨failed, state⟩ := bind_of_error
        (f := fun written : LocalMultipartWriter => written.complete codec now) written
      refine .inl ⟨⟨e, failed⟩, ?_⟩
      rw [state]
      exact kept _ (frame.fails _ gs (fun _ _ => rfl) e written)
    | ok final =>
      obtain ⟨continues, holds⟩ := (writeStream_spec writer body).returns _ gs holds final written
      obtain ⟨_, agree⟩ := frame.returns _ gs (fun _ _ => rfl) final written
      obtain ⟨middle, left⟩ := straight_writeStream writer body _ gs final written
      obtain ⟨value, _, state⟩ := bind_of_ok
        (f := fun written : LocalMultipartWriter => written.complete codec now) written
      have samePath : final.objectPath = writer.objectPath ∧
          final.metadataPath = writer.metadataPath := by rw [continues]; exact ⟨rfl, rfl⟩
      have last : ¬ FirstFault 3 ((faults.drop 3).drop body.length) := fun first =>
        allowed (writeStream_read written)
          (Nat.add_assoc .. ▸ FirstFault.shift early (FirstFault.shift middle first))
      change ((∃ e, (Action.bind _ _ _ gs).value = _) ∧ _) ∨ _
      rw [value, state, left]
      rcases LocalMultipartWriter.complete_outcome (names.continues continues) codec now holds.content
          last with ⟨failed, same⟩ | ⟨ok, published⟩
      · rw [samePath.1, samePath.2, (kept _ agree).1, (kept _ agree).2] at same
        exact .inl ⟨failed, same⟩
      · rw [samePath.1, samePath.2] at published
        exact .inr ⟨_, _, ok, published.1, published.2, holds.describes now, holds.bounded⟩

/-! ### Deleting -/

theorem removeIfPresent_run (path : PathBuf) (faults : List (Option Fault)) (fs : Files PathBuf) :
    (removeIfPresent path faults fs).faults = faults.tail ∧
      (removeIfPresent path faults fs).state = (remove path faults fs).state := by
  unfold removeIfPresent
  rw [(attempt_bind ..).2.1, (attempt_bind ..).2.2]
  cases (remove path faults fs).value with
  | ok done => exact ⟨rfl, rfl⟩
  | error kind => cases kind <;> exact ⟨rfl, rfl⟩

theorem straight_removeIfPresent (path : PathBuf) : Straight 1 (removeIfPresent path) := by
  intro faults fs done returned
  have working : faults.headD none = none := by
    cases fault : faults.headD none with
    | none => rfl
    | some fault' =>
      have refused : (remove path faults fs).value = .error .other := by
        simp only [remove, Action.call, fault, Option.isSome_some, if_true]
      unfold removeIfPresent at returned
      rw [(attempt_bind ..).1, refused] at returned
      cases returned
  refine ⟨fun i below => ?_, by rw [(removeIfPresent_run ..).1, List.drop_one]⟩
  obtain rfl : i = 0 := by omega
  cases faults with
  | nil => rfl
  | cons fault rest => exact working

theorem removeIfPresent_spec (path : PathBuf) (fs : Files PathBuf) :
    Triple (· = fs) (removeIfPresent path) (fun _ gs => ∀ p, p ≠ path → gs p = fs p)
      (fun _ gs => gs = fs) fun _ => True := by
  let middle : Except ErrorKind Unit → Files PathBuf → Prop
    | .ok _, gs => ∀ p, p ≠ path → gs p = fs p
    | .error _, gs => gs = fs
  have removal : Triple (· = fs) (remove path) (fun _ gs => ∀ p, p ≠ path → gs p = fs p)
      (fun _ gs => gs = fs) fun _ => True :=
    triple_remove (fun gs same p apart => by rw [Files.erase_of_ne apart, same])
      fun _ _ same => same
  refine Triple.through middle
    (removal.attempt middle (fun _ _ holds => holds) fun _ _ holds => holds) fun outcome => ?_
  split
  · exact Triple.pure fun _ holds => holds
  · exact Triple.pure fun gs holds p _ => congrFun holds p
  · exact Triple.throw fun _ holds => holds

theorem removeIfPresent_gone (path : PathBuf) (working : faults.headD none = none ∨ fs path = none) :
    (removeIfPresent path faults fs).state path = none := by
  rw [(removeIfPresent_run ..).2]
  unfold remove Action.call
  cases fault : faults.headD none with
  | some fault =>
    rcases working with none | absent
    · rw [none] at fault
      cases fault
    · exact absent
  | none =>
    cases found : fs path with
    | none =>
      simp only [found, Option.isSome_none, Bool.false_eq_true, if_false]
    | some bytes =>
      simp only [found, Option.isSome_none, Bool.false_eq_true, if_false, Files.erase_self]

/-- With a second removal that works, no metadata is left without its object. -/
theorem deleteObject_outcome {path record : PathBuf}
    (object : backend.objectPathFor bucket key = .ok path)
    (recorded : backend.objectMetadataPathFor bucket key = .ok record) (apart : record ≠ path)
    (allowed : fs record ≠ none → ¬ FirstFault 1 faults) :
    let done := deleteObject backend bucket key faults fs
    (done.state path = fs path ∧ done.state record = fs record) ∨ done.state record = none := by
  intro done
  have run : done.state =
      ((removeIfPresent path).bind (fun _ => removeIfPresent record) faults fs).state := by
    simp only [done, deleteObject, object, recorded, Action.lift, Action.bind]
  rw [run]
  cases value : (removeIfPresent path faults fs).value with
  | error e =>
    rw [(bind_of_error value).2, (removeIfPresent_spec path fs).fails faults fs rfl e value]
    exact .inl ⟨rfl, rfl⟩
  | ok a =>
    rw [(bind_of_ok value).2.2]
    refine .inr (removeIfPresent_gone record ?_)
    by_cases present : fs record = none
    · refine .inr ?_
      rw [(removeIfPresent_spec path fs).returns faults fs rfl a value record apart, present]
    · exact .inl ((straight_removeIfPresent path).next value (allowed present))

end Writing

end GraphqlOrm.Storage
