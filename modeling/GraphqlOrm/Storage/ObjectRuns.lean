import GraphqlOrm.Storage.ObjectJson
import GraphqlOrm.Storage.Objects

/-!
# Runs of the object store

Any sequence of uploads, writers and deletions, with any of their calls failing.
An object's bytes and its metadata stay a pair as long as no operation is cut
between its two renames or its two removals, no writer is completed after a
failed write, and no bucket is the internal directory.
-/
namespace GraphqlOrm.Storage

open Outcome Faulty FileSystem
open Lease (Uuid)

/-- A writer that was handed out; `failed` when a write through it has failed. -/
structure OpenWriter where
  writer : LocalMultipartWriter
  failed : Bool

/-- The files, and the writers by the order in which they were made. -/
structure World where
  files : Files PathBuf
  writers : Nat → Option OpenWriter
  opened : Nat

namespace World

def empty : World := ⟨fun _ => none, fun _ => none, 0⟩

def setWriter (world : World) (i : Nat) (w : Option OpenWriter) (files : Files PathBuf) : World :=
  { world with files := files, writers := Function.update world.writers i w }

end World

inductive ObjectOp where
  | create (bucket key : String) (contentType : Option String) (metadata : ObjectMetadata)
      (id metadataId : Uuid)
  | writeChunk (i : Nat) (bytes : Bytes)
  | complete (i : Nat) (now : OffsetDateTime)
  | abort (i : Nat)
  | put (bucket key : String) (contentType : Option String) (metadata : ObjectMetadata)
      (body : StorageByteStream) (id metadataId : Uuid) (now : OffsetDateTime)
  | delete (bucket key : String)

section Steps

variable (codec : Codec) (backend : LocalStorageBackend)

/-- One operation under a schedule of failing calls. Completing and aborting use the
writer up. -/
def step (world : World) (faults : List (Option Fault)) : ObjectOp → World
  | .create bucket key contentType metadata id metadataId =>
    let done := createMultipartObject backend bucket key contentType metadata id metadataId faults
      world.files
    match done.value with
    | .ok writer =>
      { world.setWriter world.opened (some ⟨writer, false⟩) done.state with
        opened := world.opened + 1 }
    | .error _ => { world with files := done.state }
  | .writeChunk i bytes =>
    match world.writers i with
    | none => world
    | some w =>
      let done := w.writer.writeChunk bytes faults world.files
      let failed := match done.value with
        | .ok _ => w.failed
        | .error _ => true
      world.setWriter i (some ⟨w.writer.feed bytes, failed⟩) done.state
  | .complete i now =>
    match world.writers i with
    | none => world
    | some w => world.setWriter i none (w.writer.complete codec now faults world.files).state
  | .abort i =>
    match world.writers i with
    | none => world
    | some w => world.setWriter i none (w.writer.abort faults world.files).state
  | .put bucket key contentType metadata body id metadataId now =>
    { world with files := (putObjectStream codec backend bucket key contentType metadata body id
        metadataId now faults world.files).state }
  | .delete bucket key =>
    { world with files := (deleteObject backend bucket key faults world.files).state }

def run (world : World) (ops : List (List (Option Fault) × ObjectOp)) : World :=
  ops.foldl (fun world op => step codec backend world op.1 op.2) world

/-! ### When a step is harmless -/

/-- The bucket is not the internal directory, and no open writer's temporary file is
the object. -/
structure Unshared (world : World) (bucket key : String) : Prop where
  outside : bucket ≠ internalStorageDir
  temps : ∀ i w path, world.writers i = some w → backend.objectPathFor bucket key = .ok path →
    path ≠ w.writer.tempPath

/-- The id drawn for a temporary file is new. -/
structure Fresh (world : World) (bucket key : String) (id : Uuid) : Prop where
  files : ∀ path temp, backend.objectPathFor bucket key = .ok path →
    tempPathFor path key id = .ok temp → world.files temp = none
  objects : ∀ path temp i w, backend.objectPathFor bucket key = .ok path →
    tempPathFor path key id = .ok temp → world.writers i = some w → w.writer.objectPath ≠ temp

/-- The fault of the second rename or removal never comes alone. -/
def Harmless (world : World) (faults : List (Option Fault)) : ObjectOp → Prop
  | .create bucket key _ _ id _ => Unshared backend world bucket key ∧ Fresh backend world bucket key id
  | .writeChunk _ _ => True
  | .complete i _ =>
    (∀ w, world.writers i = some w → w.failed = false) ∧ ¬ FirstFault 3 faults
  | .abort _ => True
  | .put bucket key _ _ body id _ _ =>
    Unshared backend world bucket key ∧ Fresh backend world bucket key id ∧
      ((∀ chunk ∈ body, ∃ bytes, chunk = .ok bytes) → ¬ FirstFault (3 + body.length + 3) faults)
  | .delete bucket key =>
    Unshared backend world bucket key ∧
      ∀ record, backend.objectMetadataPathFor bucket key = .ok record →
        world.files record ≠ none → ¬ FirstFault 1 faults

def HarmlessRun (world : World) : List (List (Option Fault) × ObjectOp) → Prop
  | [] => True
  | (faults, op) :: rest =>
    Harmless backend world faults op ∧ HarmlessRun (step codec backend world faults op) rest

end Steps

/-! ### Pairs -/

def Recorded (codec : Codec) (backend : LocalStorageBackend) (fs : Files PathBuf)
    (bucket key : String) (info : ObjectInfo) : Prop :=
  ∃ record bytes, backend.objectMetadataPathFor bucket key = .ok record ∧ fs record = some bytes ∧
    codec.decode bytes = some info

def Paired (codec : Codec) (backend : LocalStorageBackend) (fs : Files PathBuf) : Prop :=
  ∀ bucket key info, Recorded codec backend fs bucket key info →
    ∃ path bytes, backend.objectPathFor bucket key = .ok path ∧ fs path = some bytes ∧
      info.Describes codec bytes

variable {bucket key : String} {fs : Files PathBuf}

theorem getObjectMetadata_ok {codec : Codec} {backend : LocalStorageBackend}
    {faults : List (Option Fault)} {info : ObjectInfo}
    (read : (getObjectMetadata codec backend bucket key faults fs).value = .ok info) :
    Recorded codec backend fs bucket key info := by
  cases named : backend.objectMetadataPathFor bucket key with
  | error e =>
    simp only [getObjectMetadata, named, Action.lift, Action.bind] at read
    cases read
  | ok record =>
    simp only [getObjectMetadata, named, Action.lift, Action.bind, Action.mapError,
      FileSystem.read, Action.call] at read
    cases fault : faults.headD none with
    | some fault => simp only [fault, Option.isSome_some, if_true] at read; cases read
    | none =>
      cases found : fs record with
      | none =>
        simp only [fault, found, Option.isSome_none, Bool.false_eq_true, if_false] at read
        cases read
      | some bytes =>
        simp only [fault, found, Option.isSome_none, Bool.false_eq_true, if_false] at read
        exact ⟨record, bytes, named, found, okOr_eq_ok.mp read⟩

/-! ### One change -/

variable {writer : LocalMultipartWriter} {gs : Files PathBuf}

section Changes

variable {codec : Codec} {backend : LocalStorageBackend}

def LocalMultipartWriter.files (writer : LocalMultipartWriter) : Set PathBuf := fun path =>
  path = writer.objectPath ∨ path = writer.metadataPath ∨ path = writer.tempPath ∨
    path = writer.metadataTempPath

theorem LocalMultipartWriter.inside_files (writer : LocalMultipartWriter) :
    writer.Inside writer.files :=
  ⟨.inl rfl, .inr (.inr (.inl rfl)), .inr (.inl rfl), .inr (.inr (.inr rfl))⟩

/-- What a step may leave of an object: nothing new, a new pair or no metadata. -/
inductive Left (codec : Codec) (writer : LocalMultipartWriter) (fs gs : Files PathBuf) : Prop where
  | same (object : gs writer.objectPath = fs writer.objectPath)
      (metadata : gs writer.metadataPath = fs writer.metadataPath)
  | published {info : ObjectInfo} {bytes : Bytes} (object : gs writer.objectPath = some bytes)
      (metadata : gs writer.metadataPath = some (codec.encode info))
      (describes : info.Describes codec bytes) (bounded : bytes.length ≤ maxFileSize)
  | gone (metadata : gs writer.metadataPath = none)

theorem LocalMultipartWriter.Names.metadata_notMem (names : writer.Names backend) {record : PathBuf}
    (recorded : backend.objectMetadataPathFor bucket key = .ok record)
    (other : ¬ (bucket = writer.bucket ∧ key = writer.key)) : record ∉ writer.files := by
  have area := (objectMetadataPathFor_area recorded).1
  rintro (rfl | rfl | rfl | rfl)
  · exact names.objectArea area
  · exact other (objectMetadataPathFor_injective recorded names.metadata)
  · exact names.tempArea area
  · obtain ⟨id, drawn⟩ := names.metadataTemp
    exact tempPathFor_ne_metadata drawn recorded rfl

theorem Paired.change (roundTrips : codec.RoundTrips) (paired : Paired codec backend fs)
    (outside : ∀ bucket key info, Recorded codec backend fs bucket key info →
      bucket ≠ internalStorageDir) (names : writer.Names backend)
    (agree : AgreeOff writer.files fs gs) (left : Left codec writer fs gs)
    (unread : gs writer.tempPath = fs writer.tempPath ∨
      ∀ bucket key info path, Recorded codec backend fs bucket key info →
        backend.objectPathFor bucket key = .ok path → path ≠ writer.tempPath) :
    Paired codec backend gs ∧ ∀ bucket key info, Recorded codec backend gs bucket key info →
      Recorded codec backend fs bucket key info ∨ bucket = writer.bucket ∧ key = writer.key := by
  -- an object other than the writer's keeps both of its files
  have other : ∀ bucket key info, ¬ (bucket = writer.bucket ∧ key = writer.key) →
      Recorded codec backend gs bucket key info → Recorded codec backend fs bucket key info := by
    rintro bucket key info apart ⟨record, bytes, recorded, content, decoded⟩
    rw [agree record (names.metadata_notMem recorded apart)] at content
    exact ⟨record, bytes, recorded, content, decoded⟩
  refine ⟨fun bucket key info record => ?_, fun bucket key info record => ?_⟩
  · by_cases own : bucket = writer.bucket ∧ key = writer.key
    · obtain ⟨rfl, rfl⟩ := own
      obtain ⟨path, bytes, recorded, content, decoded⟩ := record
      obtain rfl : writer.metadataPath = path := Except.ok.inj (names.metadata.symm.trans recorded)
      cases left with
      | same object metadata =>
        rw [metadata] at content
        obtain ⟨path, stored, named, there, describes⟩ :=
          paired _ _ info ⟨_, bytes, recorded, content, decoded⟩
        obtain rfl : writer.objectPath = path := Except.ok.inj (names.object.symm.trans named)
        exact ⟨_, stored, named, object.trans there, describes⟩
      | published object metadata describes bounded =>
        rw [metadata] at content
        cases content
        rw [roundTrips _ (by rw [describes.size]; exact Nat.lt_of_le_of_lt bounded (by decide))]
          at decoded
        cases decoded
        exact ⟨_, _, names.object, object, describes⟩
      | gone metadata =>
        rw [metadata] at content
        cases content
    · have before := other bucket key info own record
      obtain ⟨path, stored, named, there, describes⟩ := paired bucket key info before
      refine ⟨path, stored, named, ?_, describes⟩
      have area := (objectPathFor_area (outside bucket key info before) named).1
      by_cases temporary : path = writer.tempPath
      · rcases unread with same | unread
        · rw [temporary, same, ← temporary, there]
        · exact absurd temporary (unread bucket key info path before named)
      · rw [agree path, there]
        rintro (same | same | same | same)
        · exact own (objectPathFor_injective named (same ▸ names.object))
        · exact area (same ▸ names.metadataArea)
        · exact temporary same
        · exact area (same ▸ names.metadataTempArea)
  · by_cases own : bucket = writer.bucket ∧ key = writer.key
    · exact .inr own
    · exact .inl (other bucket key info own record)

end Changes

/-! ### The invariant -/

/-- What holds of the files and the open writers between operations. -/
structure Consistent (codec : Codec) (backend : LocalStorageBackend) (world : World) : Prop where
  paired : Paired codec backend world.files
  outside : ∀ bucket key info, Recorded codec backend world.files bucket key info →
    bucket ≠ internalStorageDir
  unread : ∀ i w, world.writers i = some w → ∀ bucket key info path,
    Recorded codec backend world.files bucket key info →
      backend.objectPathFor bucket key = .ok path → path ≠ w.writer.tempPath
  names : ∀ i w, world.writers i = some w → w.writer.Names backend
  present : ∀ i w, world.writers i = some w → ∃ bytes, world.files w.writer.tempPath = some bytes
  holds : ∀ i w, world.writers i = some w → w.failed = false → w.writer.Holds world.files
  apart : ∀ i j w v, world.writers i = some w → world.writers j = some v →
    w.writer.objectPath ≠ v.writer.tempPath
  distinct : ∀ i j w v, i ≠ j → world.writers i = some w → world.writers j = some v →
    w.writer.tempPath ≠ v.writer.tempPath
  future : ∀ i, world.opened ≤ i → world.writers i = none

variable {now : OffsetDateTime}

section Invariant

variable {codec : Codec} {backend : LocalStorageBackend} {world : World}

theorem Consistent.empty : Consistent codec backend World.empty where
  paired _ _ _ := by rintro ⟨_, _, _, absent, _⟩; cases absent
  outside _ _ _ := by rintro ⟨_, _, _, absent, _⟩; cases absent
  unread _ _ absent := by cases absent
  names _ _ absent := by cases absent
  present _ _ absent := by cases absent
  holds _ _ absent := by cases absent
  apart _ _ _ _ absent := by cases absent
  distinct _ _ _ _ _ absent := by cases absent
  future _ _ := rfl

/-- A change to the files of one object, with the writers whose temporary file it leaves
alone. -/
theorem Consistent.change (consistent : Consistent codec backend world)
    (roundTrips : codec.RoundTrips) (names : writer.Names backend)
    (agree : AgreeOff writer.files world.files gs) (left : Left codec writer world.files gs)
    (unread : gs writer.tempPath = world.files writer.tempPath ∨
      ∀ bucket key info path, Recorded codec backend world.files bucket key info →
        backend.objectPathFor bucket key = .ok path → path ≠ writer.tempPath)
    {writers : Nat → Option OpenWriter}
    (open_ : ∀ i w, writers i = some w → world.writers i = some w)
    (others : ∀ i w, writers i = some w → writer.objectPath ≠ w.writer.tempPath ∧
      gs w.writer.tempPath = world.files w.writer.tempPath) :
    Consistent codec backend { world with files := gs, writers := writers } := by
  obtain ⟨paired, records⟩ := consistent.paired.change roundTrips consistent.outside names agree left
    unread
  constructor
  case paired => exact paired
  case outside =>
    intro bucket key info record
    rcases records bucket key info record with before | ⟨rfl, _⟩
    · exact consistent.outside bucket key info before
    · exact names.outside
  case unread =>
    intro i w opened bucket key info path record named
    rcases records bucket key info record with before | ⟨rfl, rfl⟩
    · exact consistent.unread i w (open_ i w opened) bucket key info path before named
    · obtain rfl : writer.objectPath = path := Except.ok.inj (names.object.symm.trans named)
      exact (others i w opened).1
  case names => exact fun i w opened => consistent.names i w (open_ i w opened)
  case present =>
    intro i w opened
    change ∃ bytes, gs w.writer.tempPath = some bytes
    rw [(others i w opened).2]
    exact consistent.present i w (open_ i w opened)
  case holds =>
    intro i w opened whole
    obtain ⟨content, size, bounded⟩ := consistent.holds i w (open_ i w opened) whole
    exact ⟨(others i w opened).2.trans content, size, bounded⟩
  case apart =>
    exact fun i j w v first second =>
      consistent.apart i j w v (open_ i w first) (open_ j v second)
  case distinct =>
    exact fun i j w v differ first second =>
      consistent.distinct i j w v differ (open_ i w first) (open_ j v second)
  case future =>
    intro i late
    cases opened : writers i with
    | none => exact opened
    | some w =>
      have before := open_ i w opened
      rw [consistent.future i late] at before
      cases before

/-- The temporary file of another writer. -/
theorem LocalMultipartWriter.Names.temp_notMem {other : LocalMultipartWriter}
    (names : writer.Names backend) (others : other.Names backend)
    (object : writer.objectPath ≠ other.tempPath) (temp : writer.tempPath ≠ other.tempPath) :
    other.tempPath ∉ writer.files := by
  rintro (same | same | same | same)
  · exact object same.symm
  · exact others.tempArea (same ▸ names.metadataArea)
  · exact temp same.symm
  · exact others.tempArea (same ▸ names.metadataTempArea)

/-- One writer more, or one writer further on. -/
theorem Consistent.setWriter (consistent : Consistent codec backend world) {i : Nat}
    (early : i < world.opened) {w : OpenWriter} (names : w.writer.Names backend)
    (present : ∃ bytes, world.files w.writer.tempPath = some bytes)
    (holds : w.failed = false → w.writer.Holds world.files)
    (unread : ∀ bucket key info path, Recorded codec backend world.files bucket key info →
      backend.objectPathFor bucket key = .ok path → path ≠ w.writer.tempPath)
    (others : ∀ j v, j ≠ i → world.writers j = some v → w.writer.objectPath ≠ v.writer.tempPath ∧
      v.writer.objectPath ≠ w.writer.tempPath ∧ w.writer.tempPath ≠ v.writer.tempPath) :
    Consistent codec backend (world.setWriter i (some w) world.files) := by
  have cases_ : ∀ j v, Function.update world.writers i (some w) j = some v →
      (j = i ∧ v = w) ∨ (j ≠ i ∧ world.writers j = some v) := by
    intro j v found
    by_cases same : j = i
    · subst same
      rw [Function.update_self] at found
      exact .inl ⟨rfl, (Option.some.inj found).symm⟩
    · rw [Function.update_of_ne same] at found
      exact .inr ⟨same, found⟩
  constructor
  case paired => exact consistent.paired
  case outside => exact consistent.outside
  case unread =>
    intro j v found
    rcases cases_ j v found with ⟨_, rfl⟩ | ⟨_, found⟩
    · exact unread
    · exact consistent.unread j v found
  case names =>
    intro j v found
    rcases cases_ j v found with ⟨_, rfl⟩ | ⟨_, found⟩
    · exact names
    · exact consistent.names j v found
  case present =>
    intro j v found
    rcases cases_ j v found with ⟨_, rfl⟩ | ⟨_, found⟩
    · exact present
    · exact consistent.present j v found
  case holds =>
    intro j v found
    rcases cases_ j v found with ⟨_, rfl⟩ | ⟨_, found⟩
    · exact holds
    · exact consistent.holds j v found
  case apart =>
    intro j k v u first second
    rcases cases_ j v first with ⟨_, rfl⟩ | ⟨differ, older⟩
    · rcases cases_ k u second with ⟨_, rfl⟩ | ⟨differ, later⟩
      · exact names.temp_ne_object.symm
      · exact (others k u differ later).1
    · rcases cases_ k u second with ⟨_, rfl⟩ | ⟨_, later⟩
      · exact (others j v differ older).2.1
      · exact consistent.apart j k v u older later
  case distinct =>
    intro j k v u differ first second
    rcases cases_ j v first with ⟨rfl, rfl⟩ | ⟨apart, older⟩
    · rcases cases_ k u second with ⟨rfl, _⟩ | ⟨apart, later⟩
      · exact absurd rfl differ
      · exact (others k u apart later).2.2
    · rcases cases_ k u second with ⟨_, rfl⟩ | ⟨_, later⟩
      · exact (others j v apart older).2.2.symm
      · exact consistent.distinct j k v u differ older later
  case future =>
    intro j late
    have apart : j ≠ i := fun same => absurd early (Nat.not_lt.mpr (same ▸ late))
    change Function.update world.writers i (some w) j = none
    rw [Function.update_of_ne apart]
    exact consistent.future j late

/-- An open writer is closed, with what that leaves of its object. -/
theorem Consistent.close (consistent : Consistent codec backend world)
    (roundTrips : codec.RoundTrips) {i : Nat} {w : OpenWriter} (opened : world.writers i = some w)
    (agree : AgreeOff w.writer.files world.files gs) (left : Left codec w.writer world.files gs) :
    Consistent codec backend (world.setWriter i none gs) := by
  have older : ∀ j v, Function.update world.writers i none j = some v →
      j ≠ i ∧ world.writers j = some v := by
    intro j v found
    by_cases same : j = i
    · subst same
      rw [Function.update_self] at found
      cases found
    · rw [Function.update_of_ne same] at found
      exact ⟨same, found⟩
  exact consistent.change roundTrips (consistent.names i w opened) agree left
    (.inr (consistent.unread i w opened)) (fun j v found => (older j v found).2)
    fun j v found => by
      obtain ⟨differ, before⟩ := older j v found
      have apart := consistent.apart i j w v opened before
      exact ⟨apart, agree _ ((consistent.names i w opened).temp_notMem (consistent.names j v before)
        apart (consistent.distinct i j w v differ.symm opened before))⟩

theorem agreeOff_run {α : Type} {paths : Set PathBuf} {x : Store α} (within : Within paths x)
    (faults : List (Option Fault)) (fs : Files PathBuf) :
    AgreeOff paths fs (x faults fs).state := fun _ => within.state faults fs

variable {faults : List (Option Fault)}

variable {metadataId : Uuid}

section

variable (consistent : Consistent codec backend world)
include consistent

theorem Consistent.complete (roundTrips : codec.RoundTrips) {i : Nat}
    (harmless : Harmless backend world faults (.complete i now)) :
    Consistent codec backend (step codec backend world faults (.complete i now)) := by
  obtain ⟨whole, allowed⟩ := harmless
  cases opened : world.writers i with
  | none => simpa only [step, opened] using consistent
  | some w =>
    simp only [step, opened]
    have names := consistent.names i w opened
    have holds := consistent.holds i w opened (whole w opened)
    refine consistent.close roundTrips opened
      (agreeOff_run (w.writer.inside_files.complete now) faults _) ?_
    rcases LocalMultipartWriter.complete_outcome names codec now holds.content allowed with
      ⟨_, object, metadata⟩ | ⟨_, object, metadata⟩
    · exact .same object metadata
    · exact .published object metadata (holds.describes now) holds.bounded

theorem Consistent.abort (roundTrips : codec.RoundTrips) (i : Nat) :
    Consistent codec backend (step codec backend world faults (.abort i)) := by
  cases opened : world.writers i with
  | none => simpa only [step, opened] using consistent
  | some w =>
    simp only [step, opened]
    have names := consistent.names i w opened
    let temps : Set PathBuf := fun p => p = w.writer.tempPath ∨ p = w.writer.metadataTempPath
    have agree : AgreeOff temps world.files (w.writer.abort faults world.files).state :=
      agreeOff_run (within_abort (.inl rfl) (.inr rfl)) faults _
    refine consistent.close roundTrips opened
      (fun p outside => agree p fun inside => outside (.inr (.inr inside))) (.same ?_ ?_)
    · refine agree _ ?_
      rintro (same | same)
      · exact names.temp_ne_object same.symm
      · exact LocalMultipartWriter.Names.apart names.objectArea names.metadataTempArea same
    · refine agree _ ?_
      rintro (same | same)
      · exact LocalMultipartWriter.Names.apart names.tempArea names.metadataArea same.symm
      · exact names.metadataTemp_ne_metadata same.symm

theorem Consistent.writeChunk (roundTrips : codec.RoundTrips) (i : Nat) (bytes : Bytes) :
    Consistent codec backend (step codec backend world faults (.writeChunk i bytes)) := by
  cases opened : world.writers i with
  | none => simpa only [step, opened] using consistent
  | some w =>
    simp only [step, opened]
    have names := consistent.names i w opened
    have fed : (w.writer.feed bytes).Names backend :=
      ⟨names.outside, names.object, names.temp, names.metadata, names.metadataTemp⟩
    let temps : Set PathBuf := fun p => p = w.writer.tempPath
    have mem : w.writer.tempPath ∈ temps := rfl
    have agree : AgreeOff temps world.files (w.writer.writeChunk bytes faults world.files).state :=
      agreeOff_run (within_at (within_append mem bytes)) faults _
    -- the file is there after the write, whatever its outcome
    obtain ⟨old, there⟩ := consistent.present i w opened
    have stays : Triple (fun fs => fs w.writer.tempPath = some old) (w.writer.writeChunk bytes)
        (fun _ fs => ∃ stored, fs w.writer.tempPath = some stored)
        (fun _ fs => ∃ stored, fs w.writer.tempPath = some stored) fun _ => True :=
      triple_at (triple_append (fun _ there => there) (fun _ _ _ => ⟨_, Files.put_self ..⟩)
        (fun _ _ there => ⟨_, there⟩) fun _ _ _ _ => ⟨_, Files.put_self ..⟩)
    have present : ∃ stored, (w.writer.writeChunk bytes faults world.files).state
        w.writer.tempPath = some stored := by
      cases value : (w.writer.writeChunk bytes faults world.files).value with
      | ok done => exact stays.returns faults _ there done value
      | error e => exact stays.fails faults _ there e value
    have closed := consistent.close roundTrips opened
      (fun p outside => agree p fun inside => outside (.inr (.inr (.inl inside))))
      (.same (agree _ fun same => names.temp_ne_object same.symm)
        (agree _ fun same => LocalMultipartWriter.Names.apart names.tempArea names.metadataArea
          same.symm))
    have early : i < world.opened := by
      by_contra late
      rw [consistent.future i (Nat.not_lt.mp late)] at opened
      cases opened
    have older : ∀ j v, j ≠ i → Function.update world.writers i none j = some v →
        world.writers j = some v := fun j v differ found => by
      rwa [Function.update_of_ne differ] at found
    have next := closed.setWriter (i := i) early
      (w := ⟨w.writer.feed bytes, match
        (w.writer.writeChunk bytes faults world.files).value with
        | .ok _ => w.failed
        | .error _ => true⟩) fed present ?_ ?_ ?_
    · simpa only [World.setWriter, Function.update_idem] using next
    · intro whole
      cases value : (w.writer.writeChunk bytes faults world.files).value with
      | ok done =>
        simp only [value] at whole
        exact (writeChunk_spec w.writer bytes).returns faults _
          (consistent.holds i w opened whole) done value
      | error e => simp only [value, Bool.true_eq_false] at whole
    · intro bucket key info path record named
      obtain ⟨_, stored, recorded, content, decoded⟩ := record
      have apart : ∀ p, backend.objectMetadataPathFor bucket key = .ok p →
          p ≠ w.writer.tempPath := fun p found =>
        (LocalMultipartWriter.Names.apart names.tempArea (objectMetadataPathFor_area found).1).symm
      refine consistent.unread i w opened bucket key info path ⟨_, stored, recorded, ?_, decoded⟩ named
      rw [← agree _ (apart _ recorded)]
      exact content
    · intro j v differ found
      have before := older j v differ found
      exact ⟨consistent.apart i j w v opened before, consistent.apart j i v w before opened,
        consistent.distinct i j w v differ.symm opened before⟩

/-- No record's object is at a path where there is no file. -/
theorem Consistent.unread_absent {temp : PathBuf}
    (absent : world.files temp = none) (bucket key : String) (info : ObjectInfo) (path : PathBuf)
    (record : Recorded codec backend world.files bucket key info)
    (named : backend.objectPathFor bucket key = .ok path) : path ≠ temp := by
  rintro rfl
  obtain ⟨path', bytes, named', there, _⟩ := consistent.paired bucket key info record
  obtain rfl : path = path' := Except.ok.inj (named.symm.trans named')
  rw [absent] at there
  cases there

/-- What the conditions on a step say about the writer that the step makes. -/
theorem Consistent.drawn {id : Uuid} (drawn : writer.Drawn backend bucket key id metadataId)
    (unshared : Unshared backend world bucket key) (fresh : Fresh backend world bucket key id) :
    world.files writer.tempPath = none ∧ ∀ i w, world.writers i = some w →
      writer.objectPath ≠ w.writer.tempPath ∧ w.writer.objectPath ≠ writer.tempPath ∧
        writer.tempPath ≠ w.writer.tempPath := by
  have absent := fresh.files _ _ drawn.object drawn.temp
  refine ⟨absent, fun i w opened => ⟨unshared.temps i w _ opened drawn.object,
    fresh.objects _ _ i w drawn.object drawn.temp opened, fun same => ?_⟩⟩
  obtain ⟨bytes, there⟩ := consistent.present i w opened
  rw [← same, absent] at there
  cases there

theorem Consistent.create (roundTrips : codec.RoundTrips) {contentType : Option String}
    {metadata : ObjectMetadata} {id : Uuid} (harmless : Harmless backend world faults
      (.create bucket key contentType metadata id metadataId)) :
    Consistent codec backend (step codec backend world faults
      (.create bucket key contentType metadata id metadataId)) := by
  obtain ⟨unshared, fresh⟩ := harmless
  have spec := @createMultipartObject_spec backend bucket key contentType metadata id metadataId
    world.files
  unfold step
  cases value : (createMultipartObject backend bucket key contentType metadata id metadataId faults
      world.files).value with
  | error e =>
    simp only [value]
    rw [spec.fails faults _ rfl e value]
    exact consistent
  | ok writer =>
    simp only [value]
    obtain ⟨drawn, holds, put⟩ := spec.returns faults _ rfl writer value
    rw [put] at holds ⊢
    have names := drawn.names unshared.outside
    obtain ⟨absent, others⟩ := consistent.drawn drawn unshared fresh
    have unread := consistent.unread_absent absent
    -- the new file first, then the writer that owns it
    have changed : Consistent codec backend
        { world with files := world.files.put writer.tempPath [] } :=
      consistent.change roundTrips names
        (fun p outside => Files.put_of_ne (fun same => outside (.inr (.inr (.inl same)))) _)
        (.same (Files.put_of_ne names.temp_ne_object.symm _)
          (Files.put_of_ne (LocalMultipartWriter.Names.apart names.tempArea names.metadataArea).symm
            _))
        (.inr unread) (fun _ _ opened => opened)
        fun i w opened =>
          ⟨(others i w opened).1, Files.put_of_ne (others i w opened).2.2.symm _⟩
    have wider : Consistent codec backend
        ⟨world.files.put writer.tempPath [], world.writers, world.opened + 1⟩ :=
      { changed with future := fun i late => consistent.future i (Nat.le_of_succ_le late) }
    refine wider.setWriter (Nat.lt_succ_self _) names ⟨_, holds.content⟩ (fun _ => holds) ?_
      fun j v _ opened => others j v opened
    rintro bucket' key' info path ⟨record, bytes, recorded, content, decoded⟩ named
    have apart := LocalMultipartWriter.Names.apart names.tempArea
      (objectMetadataPathFor_area recorded).1
    change (world.files.put writer.tempPath []) record = some bytes at content
    rw [Files.put_of_ne apart.symm] at content
    exact unread bucket' key' info path ⟨record, bytes, recorded, content, decoded⟩ named

end

/-- Everything that a writer of the object may touch. -/
theorem LocalMultipartWriter.Drawn.inside {id : Uuid} {other : LocalMultipartWriter}
    (drawn : writer.Drawn backend bucket key id metadataId)
    (again : other.Drawn backend bucket key id metadataId) : other.Inside writer.files := by
  have object : other.objectPath = writer.objectPath :=
    Except.ok.inj (again.object.symm.trans drawn.object)
  have metadata : other.metadataPath = writer.metadataPath :=
    Except.ok.inj (again.metadata.symm.trans drawn.metadata)
  have temp : other.tempPath = writer.tempPath :=
    Except.ok.inj (again.temp.symm.trans (object ▸ drawn.temp))
  have metadataTemp : other.metadataTempPath = writer.metadataTempPath :=
    Except.ok.inj (again.metadataTemp.symm.trans (metadata ▸ drawn.metadataTemp))
  exact ⟨.inl object, .inr (.inr (.inl temp)), .inr (.inl metadata), .inr (.inr (.inr metadataTemp))⟩

theorem exists_drawn {path record : PathBuf} (object : backend.objectPathFor bucket key = .ok path)
    (recorded : backend.objectMetadataPathFor bucket key = .ok record) (id metadataId : Uuid) :
    ∃ writer : LocalMultipartWriter, writer.Drawn backend bucket key id metadataId := by
  obtain ⟨_, _, shape⟩ := objectPathFor_ok.mp object
  obtain ⟨front, last, split⟩ := splitSlash_last key
  have names : backend.root ++ Component.normal bucket :: (splitSlash key).map .normal =
      backend.root ++ (bucket :: front ++ [last]).map .normal := by rw [split]; rfl
  obtain ⟨_, _, front', last', _, shape'⟩ := objectMetadataPathFor_ok.mp recorded
  have temp := @tempPathFor_normal key backend.root (bucket :: front) last id
  have metadataTemp := @tempPathFor_normal key (metadataDir backend bucket) front'
    (last' ++ ".metadata.json") metadataId
  rw [← names, ← shape] at temp
  rw [← shape'] at metadataTemp
  exact ⟨⟨bucket, key, none, OrderedMap.empty, path, _, record, _, [], 0⟩,
    ⟨rfl, rfl, object, temp, recorded, metadataTemp⟩⟩

section

variable (consistent : Consistent codec backend world) (roundTrips : codec.RoundTrips)
include consistent roundTrips

theorem Consistent.put {contentType : Option String} {metadata : ObjectMetadata}
    {body : StorageByteStream} {id : Uuid} (harmless : Harmless backend world faults
      (.put bucket key contentType metadata body id metadataId now)) :
    Consistent codec backend (step codec backend world faults
      (.put bucket key contentType metadata body id metadataId now)) := by
  obtain ⟨unshared, fresh, allowed⟩ := harmless
  by_cases valid : ∃ writer : LocalMultipartWriter,
      writer.Drawn backend bucket key id metadataId
  · obtain ⟨writer, drawn⟩ := valid
    obtain ⟨absent, others⟩ := consistent.drawn drawn unshared fresh
    have within : Within writer.files (putObjectStream codec backend bucket key contentType metadata
        body id metadataId now) :=
      StoreCall.within_putObjectStream (fun _ again => drawn.inside again) contentType metadata body now
    have names := drawn.names unshared.outside
    have agree := agreeOff_run within faults world.files
    refine consistent.change roundTrips names agree ?_ (.inr (consistent.unread_absent absent))
      (fun _ _ opened => opened) fun i w opened => ⟨(others i w opened).1, agree _
        (names.temp_notMem (consistent.names i w opened) (others i w opened).1
          (others i w opened).2.2)⟩
    rcases putObjectStream_outcome unshared.outside allowed world.files drawn.object drawn.metadata
      with ⟨_, object, record⟩ | ⟨info, bytes, _, object, record, describes, bounded⟩
    · exact .same object record
    · exact .published object record describes bounded
  · -- without paths nothing is touched
    have within : Within (fun _ => False) (putObjectStream codec backend bucket key contentType
        metadata body id metadataId now) :=
      StoreCall.within_putObjectStream (fun writer drawn => absurd ⟨writer, drawn⟩ valid) contentType metadata
        body now
    have same := agreeOff_run within faults world.files
    have unchanged : (putObjectStream codec backend bucket key contentType metadata body id
        metadataId now faults world.files).state = world.files := funext fun p => same p not_false
    simp only [step, unchanged]
    exact consistent

theorem Consistent.delete (harmless : Harmless backend world faults (.delete bucket key)) :
    Consistent codec backend (step codec backend world faults (.delete bucket key)) := by
  obtain ⟨unshared, allowed⟩ := harmless
  unfold step
  cases object : backend.objectPathFor bucket key with
  | error e =>
    simp only [deleteObject, object, Action.lift, Action.bind]
    exact consistent
  | ok path =>
    cases recorded : backend.objectMetadataPathFor bucket key with
    | error e =>
      simp only [deleteObject, object, recorded, Action.lift, Action.bind]
      exact consistent
    | ok record =>
      obtain ⟨writer, drawn⟩ := exists_drawn object recorded 0 0
      have names := drawn.names unshared.outside
      obtain rfl : writer.objectPath = path := Except.ok.inj (drawn.object.symm.trans object)
      obtain rfl : writer.metadataPath = record := Except.ok.inj (drawn.metadata.symm.trans recorded)
      have apart := LocalMultipartWriter.Names.apart names.objectArea names.metadataArea
      let files : Set PathBuf := fun p => p = writer.objectPath ∨ p = writer.metadataPath
      have within : Within files (deleteObject backend bucket key) := fun fs => by
        refine Keeps.lift_bind fun path' named => Keeps.lift_bind fun record' named' => ?_
        obtain rfl : writer.objectPath = path' := Except.ok.inj (object.symm.trans named)
        obtain rfl : writer.metadataPath = record' := Except.ok.inj (recorded.symm.trans named')
        exact (within_removeIfPresent (.inl rfl) fs).bind fun _ =>
          within_removeIfPresent (.inr rfl) fs
      have agree := agreeOff_run within faults world.files
      have left := deleteObject_outcome object recorded apart.symm (allowed _ recorded)
      refine consistent.change roundTrips names ?_ ?_ (.inl (agree _ ?_))
        (fun _ _ opened => opened) fun i w opened => ⟨unshared.temps i w _ opened object, agree _ ?_⟩
      · refine fun p outside => agree p ?_
        rintro (same | same)
        · exact outside (.inl same)
        · exact outside (.inr (.inl same))
      · rcases left with ⟨same, metadata⟩ | gone
        · exact .same same metadata
        · exact .gone gone
      · rintro (same | same)
        · exact names.temp_ne_object same
        · exact LocalMultipartWriter.Names.apart names.tempArea names.metadataArea same
      · rintro (same | same)
        · exact unshared.temps i w _ opened object same.symm
        · exact (consistent.names i w opened).tempArea (same ▸ names.metadataArea)

/-! ### Runs -/

theorem Consistent.step {op : ObjectOp} (harmless : Harmless backend world faults op) :
    Consistent codec backend (step codec backend world faults op) := by
  cases op with
  | create => exact consistent.create roundTrips harmless
  | writeChunk i bytes => exact consistent.writeChunk roundTrips i bytes
  | complete i now => exact consistent.complete roundTrips harmless
  | abort i => exact consistent.abort roundTrips i
  | put => exact consistent.put roundTrips harmless
  | delete bucket key => exact consistent.delete roundTrips harmless

theorem Consistent.run {ops : List (List (Option Fault) × ObjectOp)}
    (harmless : HarmlessRun codec backend world ops) :
    Consistent codec backend (run codec backend world ops) := by
  induction ops generalizing world with
  | nil => exact consistent
  | cons op rest ih => exact ih (consistent.step roundTrips harmless.1) harmless.2

end

end Invariant

/-- Bytes and metadata stay a pair in every run of harmless steps: metadata that can be
read describes the object's bytes, and a publication that fails leaves the object and
its metadata as they were. -/
theorem objects_stay_paired {codec : Codec} (roundTrips : codec.RoundTrips)
    (backend : LocalStorageBackend) {ops : List (List (Option Fault) × ObjectOp)}
    (harmless : HarmlessRun codec backend World.empty ops) :
    let world := run codec backend World.empty ops
    (∀ bucket key faults info,
      (getObjectMetadata codec backend bucket key faults world.files).value = .ok info →
        ∃ path bytes, backend.objectPathFor bucket key = .ok path ∧
          world.files path = some bytes ∧ info.sizeBytes = bytes.length ∧
          info.sha256Hex = codec.sha256 bytes) ∧
    (∀ i w now faults e, world.writers i = some w →
      Harmless backend world faults (.complete i now) →
      (w.writer.complete codec now faults world.files).value = .error e →
        (step codec backend world faults (.complete i now)).files w.writer.objectPath =
            world.files w.writer.objectPath ∧
          (step codec backend world faults (.complete i now)).files w.writer.metadataPath =
            world.files w.writer.metadataPath) ∧
    ∀ bucket key contentType metadata body id metadataId now faults e path record,
      Harmless backend world faults
        (.put bucket key contentType metadata body id metadataId now) →
      (putObjectStream codec backend bucket key contentType metadata body id metadataId now faults
        world.files).value = .error e →
      backend.objectPathFor bucket key = .ok path →
      backend.objectMetadataPathFor bucket key = .ok record →
        (step codec backend world faults
            (.put bucket key contentType metadata body id metadataId now)).files path =
            world.files path ∧
          (step codec backend world faults
            (.put bucket key contentType metadata body id metadataId now)).files record =
            world.files record := by
  intro world
  have consistent : Consistent codec backend world := Consistent.empty.run roundTrips harmless
  refine ⟨?_, ?_, ?_⟩
  · intro bucket key faults info read
    obtain ⟨path, bytes, named, there, size, digest⟩ :=
      consistent.paired bucket key info (getObjectMetadata_ok read)
    exact ⟨path, bytes, named, there, size, digest⟩
  · intro i w now faults e opened allowed failed
    have holds := consistent.holds i w opened (allowed.1 w opened)
    simp only [step, opened]
    rcases LocalMultipartWriter.complete_outcome (consistent.names i w opened) codec now
        holds.content allowed.2 with ⟨_, same⟩ | ⟨done, _⟩
    · exact same
    · rw [failed] at done
      cases done
  · intro bucket key contentType metadata body id metadataId now faults e path record allowed failed
      object recorded
    rcases putObjectStream_outcome allowed.1.outside allowed.2.2 world.files object recorded with
      ⟨_, same⟩ | ⟨info, bytes, done, _⟩
    · exact same
    · rw [failed] at done
      cases done

private def sampleStore : LocalStorageBackend := ⟨[.rootDir, .normal "srv"]⟩

private def noon : OffsetDateTime := ⟨2026, 288, 12, 0, 0, 0, 0, 0, 0⟩

private def greeting : ObjectOp :=
  .put "b" "k" none OrderedMap.empty [.ok [104, 105]] 1 2 noon

private def digests (bytes : Bytes) : String :=
  if bytes = [104, 105] then "8f434346648f6b96df89dda901c5176b10a6d83961dd3c1ac88b59b2dc327aa4"
  else ""

/-- After one upload of `hi`, what the store says about it is right. -/
theorem objects_stay_paired_greeting :
    HarmlessRun (Codec.json digests) sampleStore World.empty [([], greeting)] ∧
      ∀ info, (getObjectMetadata (Codec.json digests) sampleStore "b" "k" []
          (run (Codec.json digests) sampleStore World.empty [([], greeting)]).files).value =
          .ok info →
        ∃ path bytes, sampleStore.objectPathFor "b" "k" = .ok path ∧
          (run (Codec.json digests) sampleStore World.empty [([], greeting)]).files path =
            some bytes ∧ info.sizeBytes = bytes.length ∧ info.sha256Hex = digests bytes := by
  have harmless : HarmlessRun (Codec.json digests) sampleStore World.empty [([], greeting)] := by
    refine ⟨⟨⟨by decide, fun _ _ _ absent => ?_⟩, ⟨fun _ _ _ _ => rfl, fun _ _ _ _ _ _ absent => ?_⟩,
      fun _ first => first.2 rfl⟩, trivial⟩
    · cases absent
    · cases absent
  exact ⟨harmless, fun info read =>
    (objects_stay_paired (Codec.roundTrips_json digests) sampleStore harmless).1 "b" "k" [] info
      read⟩

/-- An upload, and a deletion whose second removal fails. -/
private def torn : List (List (Option Fault) × ObjectOp) :=
  [([], greeting), ([none, some ⟨none⟩], .delete "b" "k")]

private def stub : Codec := Codec.json fun _ => "0"

private def objectFile : PathBuf := [.rootDir, .normal "srv", .normal "b", .normal "k"]

private def metadataFile : PathBuf :=
  [.rootDir, .normal "srv", .normal ".graphql-orm-storage", .normal "object-metadata", .normal "b",
    .normal "k.metadata.json"]

private def greetingInfo : ObjectInfo := ⟨"b", "k", none, OrderedMap.empty, 2, "0", some "0", noon⟩

private def objectTemp : PathBuf := [.rootDir, .normal "srv", .normal "b",
  .normal "k.00000000-0000-0000-0000-000000000001.uploading"]

private def metadataTemp : PathBuf :=
  [.rootDir, .normal "srv", .normal ".graphql-orm-storage", .normal "object-metadata", .normal "b",
    .normal "k.metadata.json.00000000-0000-0000-0000-000000000002.uploading"]

private def greetingWriter : LocalMultipartWriter where
  bucket := "b"
  key := "k"
  contentType := none
  metadata := OrderedMap.empty
  objectPath := objectFile
  tempPath := objectTemp
  metadataPath := metadataFile
  metadataTempPath := metadataTemp
  hashed := []
  sizeBytes := 0

private theorem greeting_named : sampleStore.objectPathFor "b" "k" = .ok objectFile := by decide

private theorem greeting_recorded : sampleStore.objectMetadataPathFor "b" "k" = .ok metadataFile := by
  decide

private theorem greeting_created :
    createMultipartObject sampleStore "b" "k" none OrderedMap.empty 1 2 [] World.empty.files =
      ⟨.ok greetingWriter, [], World.empty.files.put objectTemp [],
        [World.empty.files, World.empty.files, World.empty.files.put objectTemp []]⟩ := by
  have temp : tempPathFor objectFile "k" 1 = .ok objectTemp := by decide
  have record : tempPathFor metadataFile "k" 2 = .ok metadataTemp := by decide
  simp only [createMultipartObject, greeting_named, greeting_recorded, temp, record, Action.lift,
    Action.bind]
  rfl

private theorem greeting_written (fs : Files PathBuf) (there : fs objectTemp = some []) :
    greetingWriter.writeStream [.ok [104, 105]] [] fs =
      ⟨.ok (greetingWriter.feed [104, 105]), [], fs.put objectTemp [104, 105],
        [fs.put objectTemp [104, 105]]⟩ := by
  have temp : greetingWriter.tempPath = objectTemp := rfl
  simp [LocalMultipartWriter.writeStream, LocalMultipartWriter.writeChunk, append, at_, Action.call,
    Action.mapError, Action.attempt, Action.bind, Action.pure, temp, there, maxFileSize]

/-- Without a failing call both files are published. -/
private theorem complete_undisturbed {codec : Codec} {bytes : Bytes}
    (apart : writer.tempPath ≠ writer.metadataTempPath)
    (outside : writer.metadataTempPath ≠ writer.objectPath)
    (short : (codec.encode (writer.info codec now)).length ≤ maxFileSize)
    (there : fs writer.tempPath = some bytes) :
    ∃ gs : Files PathBuf, gs writer.objectPath = some bytes ∧
      (writer.complete codec now [] fs).state =
        gs.put writer.metadataPath (codec.encode (writer.info codec now)) := by
  let object := codec.encode (writer.info codec now)
  let renamed := ((fs.put writer.metadataTempPath object).erase writer.tempPath).put
    writer.objectPath bytes
  refine ⟨renamed.erase writer.metadataTempPath, ?_, ?_⟩
  · exact (Files.erase_of_ne outside.symm).trans (Files.put_self ..)
  · unfold LocalMultipartWriter.complete LocalMultipartWriter.publishObject
      LocalMultipartWriter.publishMetadata orDiscard
    simp only [quiet, write, rename, at_, Action.call, Action.mapError, Action.attempt, Action.bind,
      Action.pure, List.headD_nil, List.tail_nil, Option.isSome_none, Bool.false_eq_true, if_false,
      short, if_true, Files.put_of_ne apart, there, Files.put_of_ne outside,
      Files.erase_of_ne apart.symm, Files.put_self, renamed, object]

section Torn

variable {codec : Codec} (digest : codec.sha256 = fun _ => "0")
  (short : (codec.encode greetingInfo).length ≤ maxFileSize)

include digest short

private theorem greeting_files :
    ∃ fs : Files PathBuf, fs objectFile = some [104, 105] ∧
      (run codec sampleStore World.empty [([], greeting)]).files =
        fs.put metadataFile (codec.encode greetingInfo) := by
  have info : (greetingWriter.feed [104, 105]).info codec noon = greetingInfo := by
    unfold LocalMultipartWriter.info
    rw [digest]
    rfl
  obtain ⟨fs, there, published⟩ := @complete_undisturbed
    ((World.empty.files.put objectTemp []).put objectTemp [104, 105])
    (greetingWriter.feed [104, 105]) noon codec [104, 105]
    (show objectTemp ≠ metadataTemp by decide) (show metadataTemp ≠ objectFile by decide)
    (by rw [info]; exact short) (Files.put_self ..)
  rw [info] at published
  refine ⟨fs, there, ?_⟩
  simp only [run, greeting, List.foldl_cons, List.foldl_nil, step, putObjectStream, Action.bind,
    greeting_created, greeting_written _ (Files.put_self ..)]
  exact published

private theorem torn_files :
    (run codec sampleStore World.empty torn).files objectFile = none ∧
      (run codec sampleStore World.empty torn).files metadataFile =
        some (codec.encode greetingInfo) := by
  obtain ⟨fs, there, stored⟩ := greeting_files digest short
  have both : (run codec sampleStore World.empty torn).files =
      (deleteObject sampleStore "b" "k" [none, some ⟨none⟩]
        (run codec sampleStore World.empty [([], greeting)]).files).state := rfl
  have differ : objectFile ≠ metadataFile := by decide
  rw [both, stored]
  simp [deleteObject, greeting_named, greeting_recorded, Action.lift, Action.bind, removeIfPresent,
    remove, Action.attempt, Action.call, Action.pure, Action.throw, Files.put_of_ne differ, there,
    Files.erase_of_ne differ.symm]

end Torn

private theorem stub_short : (stub.encode greetingInfo).length ≤ maxFileSize := by
  have chars : (Codec.toJson greetingInfo).write.length ≤ 300 := by
    rw [Json.Value.write, Json.Value.print, String.length_ofList]
    decide +kernel
  simp only [stub, Codec.json]
  generalize (Codec.toJson greetingInfo).write = text at chars
  calc (Bytes.utf8 text).length
      ≤ 4 * text.length := Bytes.length_utf8_le text
    _ ≤ 4 * 300 := Nat.mul_le_mul_left 4 chars
    _ ≤ maxFileSize := by decide

private theorem greeting_readable {codec : Codec} {bytes : Bytes} {info : ObjectInfo}
    (stored : fs metadataFile = some bytes) (decoded : codec.decode bytes = some info) :
    (getObjectMetadata codec sampleStore "b" "k" [] fs).value = .ok info := by
  simp only [getObjectMetadata, greeting_recorded, Action.lift, Action.bind, Action.mapError,
    FileSystem.read, Action.call, List.headD_nil, Option.isSome_none, Bool.false_eq_true, if_false,
    stored, decoded]
  rfl

/-- The metadata of the deleted object is still there and is read, without an object. -/
theorem deleteObject_leaves_metadata :
    (getObjectMetadata stub sampleStore "b" "k" []
        (run stub sampleStore World.empty torn).files).value = .ok greetingInfo ∧
      sampleStore.objectPathFor "b" "k" = .ok objectFile ∧
      (run stub sampleStore World.empty torn).files objectFile = none := by
  obtain ⟨object, metadata⟩ := torn_files rfl stub_short
  have decoded : stub.decode (stub.encode greetingInfo) = some greetingInfo :=
    Codec.roundTrips_json _ greetingInfo (by decide)
  exact ⟨greeting_readable metadata decoded, greeting_named, object⟩

end GraphqlOrm.Storage
