import GraphqlOrm.Storage.MultipartCompletion

/-!
# Clients of one upload

Any number of clients upload parts, complete and abort through one handle, in any
interleaving and with crashes between their steps. A section under the upload's
lock is one step; the bytes of a part are written outside of it, chunk by chunk.
-/
namespace GraphqlOrm.Storage.Multipart

open Outcome FileSystem
open Lease (Uuid)

/-- Where a client is. The bytes are those it has read from its body so far. -/
inductive Client where
  | idle
  | checked (partNumber : Nat)
  | writing (partNumber : Nat) (dataFile : String) (written : Bytes)
  | staged (partNumber : Nat) (dataFile : String) (written : Bytes)
  | aborting

def Client.owns : Client → Option (String × Bytes)
  | writing _ dataFile written => some (dataFile, written)
  | staged _ dataFile written => some (dataFile, written)
  | _ => none

/-- What an operation has returned. -/
inductive Result where
  | uploaded (receipt : PartReceipt)
  | completed (outcome : BlobWriteOutcome)
  | removed
  | nothingToAbort
  | refused (error : StorageError)

structure World where
  disk : Disk
  clients : Nat → Client
  results : List Result

def World.set (world : World) (i : Nat) (client : Client) : World :=
  { world with clients := Function.update world.clients i client }

def World.returns (world : World) (result : Result) : World :=
  { world with results := world.results ++ [result] }

inductive Step where
  | check (i partNumber : Nat) (readFails : Bool)
  | create (i : Nat) (id : Uuid) (fails : Bool)
  | chunk (i : Nat) (bytes : Bytes) (fault : Option Nat) (discardFails : Bool)
  | bodyFails (i : Nat) (error : StorageError) (discardFails : Bool)
  | finish (i : Nat) (fails discardFails : Bool)
  | commit (i : Nat) (faults : CommitFaults)
  | complete (given : List PartReceipt) (faults : CompleteFaults)
  | findUpload (i : Nat) (fails : Bool)
  | abort (i : Nat) (fault : Option (Entry → Bool))
  | crash (i : Nat)

section Steps

variable (sha256 : Bytes → String) (limits : MultipartLimits) (paths : UploadPaths)
  (handle : MultipartUploadHandle)

def step (world : World) : Step → World
  | .check i partNumber readFails =>
    match world.clients i with
    | .idle =>
      match uploadCheck limits paths handle partNumber readFails world.disk with
      | .ok () => world.set i (.checked partNumber)
      | .error e => world.returns (.refused e)
    | _ => world
  | .create i id fails =>
    match world.clients i with
    | .checked partNumber =>
      match createData paths (dataFileName partNumber id) fails world.disk with
      | (.ok (), disk) =>
        { world with disk := disk }.set i (.writing partNumber (dataFileName partNumber id) [])
      | (.error e, disk) =>
        ({ world with disk := removeData (dataFileName partNumber id) false disk }.set i
          .idle).returns (.refused e)
    | _ => world
  | .chunk i bytes fault discardFails =>
    match world.clients i with
    | .writing partNumber dataFile written =>
      if written.length + bytes.length > limits.maxPartSize then
        ({ world with disk := removeData dataFile discardFails world.disk }.set i .idle).returns
          (.refused (multipartError handle.key .partTooLarge))
      else match appendData paths dataFile bytes fault world.disk with
        | (.ok (), disk) =>
          { world with disk := disk }.set i (.writing partNumber dataFile (written ++ bytes))
        | (.error e, disk) =>
          ({ world with disk := removeData dataFile discardFails disk }.set i .idle).returns
            (.refused e)
    | _ => world
  | .bodyFails i error discardFails =>
    match world.clients i with
    | .writing _ dataFile _ =>
      ({ world with disk := removeData dataFile discardFails world.disk }.set i .idle).returns
        (.refused error)
    | _ => world
  | .finish i fails discardFails =>
    match world.clients i with
    | .writing partNumber dataFile written =>
      if fails then
        ({ world with disk := removeData dataFile discardFails world.disk }.set i .idle).returns
          (.refused (.io (paths.dir ++ [Component.normal dataFile]) .other))
      else world.set i (.staged partNumber dataFile written)
    | _ => world
  | .commit i faults =>
    match world.clients i with
    | .staged partNumber dataFile written =>
      let receipt := receiptOf sha256 partNumber written
      match commitPart paths handle ⟨receipt, dataFile⟩ faults world.disk with
      | (.ok (), disk) => ({ world with disk := disk }.set i .idle).returns (.uploaded receipt)
      | (.error e, disk) => ({ world with disk := disk }.set i .idle).returns (.refused e)
    | _ => world
  | .complete given faults =>
    match completeMultipart sha256 limits paths handle given faults world.disk with
    | (.ok outcome, disk) => { world with disk := disk }.returns (.completed outcome)
    | (.error e, disk) => { world with disk := disk }.returns (.refused e)
  | .findUpload i fails =>
    match world.clients i with
    | .idle =>
      if fails then world.returns (.refused (.io paths.dir .other))
      else if world.disk.dir.isNone then world.returns .nothingToAbort
      else world.set i .aborting
    | _ => world
  | .abort i fault =>
    match world.clients i with
    | .aborting =>
      match abortMultipart paths fault world.disk with
      | (.ok (), disk) =>
        ({ world with disk := disk }.set i .idle).returns
          (if world.disk.dir.isNone then .nothingToAbort else .removed)
      | (.error e, disk) => ({ world with disk := disk }.set i .idle).returns (.refused e)
    | _ => world
  | .crash i => world.set i .idle

def run (world : World) (steps : List Step) : World :=
  steps.foldl (step sha256 limits paths handle) world

/-- The id drawn for a data file is new, and a removal that fails removes nothing. -/
def Harmless (world : World) : Step → Prop
  | .create i id _ => ∀ partNumber d, world.clients i = .checked partNumber →
      world.disk.dir = some d → d.data (dataFileName partNumber id) = none
  | .complete _ faults => Clean faults.remove
  | .abort _ fault => Clean fault
  | _ => True

def HarmlessRun (world : World) : List Step → Prop
  | [] => True
  | next :: rest =>
    Harmless world next ∧ HarmlessRun (step sha256 limits paths handle world next) rest

/-- An upload that was just started: its manifest is written, nobody is at work on it. -/
def started (manifest : Manifest) (target : Option Bytes) : World :=
  ⟨⟨some ⟨some manifest, OrderedMap.empty, fun _ => none⟩, target⟩, fun _ => .idle, []⟩

end Steps

/-! ### The directory -/

/-- A receipt describes its data file, and no data file has two uses: neither two
receipts nor two clients nor a receipt and a client share one. -/
structure DirSound (sha256 : Bytes → String) (d : Directory)
    (owners : Nat → Option (String × Bytes)) : Prop where
  receipts : ∀ n part, d.receipts.get? n = some part →
    ∃ bytes, d.data part.dataFile = some bytes ∧ part.receipt = receiptOf sha256 n bytes
  distinct : ∀ n m part other, n ≠ m → d.receipts.get? n = some part →
    d.receipts.get? m = some other → part.dataFile ≠ other.dataFile
  written : ∀ i name bytes, owners i = some (name, bytes) → d.data name = some bytes
  apart : ∀ i name bytes n part, owners i = some (name, bytes) → d.receipts.get? n = some part →
    part.dataFile ≠ name
  separate : ∀ i j name bytes name' bytes', i ≠ j → owners i = some (name, bytes) →
    owners j = some (name', bytes') → name ≠ name'

variable {name : String} {i : Nat} {bytes : Bytes}

section Directories

variable {sha256 : Bytes → String} {d : Directory} {owners : Nat → Option (String × Bytes)}

section

variable (sound : DirSound sha256 d owners)
include sound

/-- A client lets go of its data file. -/
theorem DirSound.release (i : Nat) :
    DirSound sha256 d (Function.update owners i none) := by
  have older : ∀ j x, Function.update owners i none j = some x → owners j = some x := by
    intro j x owned
    by_cases same : j = i
    · subst same
      rw [Function.update_self] at owned
      cases owned
    · rwa [Function.update_of_ne same] at owned
  exact {
    receipts := sound.receipts
    distinct := sound.distinct
    written := fun j name bytes owned => sound.written j name bytes (older _ _ owned)
    apart := fun j name bytes n part owned => sound.apart j name bytes n part (older _ _ owned)
    separate := fun j k name bytes name' bytes' differ first second =>
      sound.separate j k name bytes name' bytes' differ (older _ _ first) (older _ _ second) }

/-- A file without a use may change in any way. -/
theorem DirSound.unused {data : String → Option Bytes}
    (same : ∀ other, other ≠ name → data other = d.data other)
    (unowned : ∀ i other bytes, owners i = some (other, bytes) → other ≠ name)
    (unreceipted : ∀ n part, d.receipts.get? n = some part → part.dataFile ≠ name) :
    DirSound sha256 { d with data := data } owners where
  receipts n part found := by
    obtain ⟨bytes, there, described⟩ := sound.receipts n part found
    exact ⟨bytes, (same _ (unreceipted n part found)).trans there, described⟩
  distinct := sound.distinct
  written i other bytes owned :=
    (same _ (unowned i other bytes owned)).trans (sound.written i other bytes owned)
  apart := sound.apart
  separate := sound.separate

/-- A client has a data file to itself. -/
theorem DirSound.claim {data : String → Option Bytes}
    (here : data name = some bytes) (same : ∀ other, other ≠ name → data other = d.data other)
    (unowned : ∀ j other bytes, j ≠ i → owners j = some (other, bytes) → other ≠ name)
    (unreceipted : ∀ n part, d.receipts.get? n = some part → part.dataFile ≠ name) :
    DirSound sha256 { d with data := data } (Function.update owners i (some (name, bytes))) := by
  have cases_ : ∀ j other stored, Function.update owners i (some (name, bytes)) j =
      some (other, stored) → (j = i ∧ other = name ∧ stored = bytes) ∨
        (j ≠ i ∧ owners j = some (other, stored)) := by
    intro j other stored owned
    by_cases equal : j = i
    · subst equal
      rw [Function.update_self] at owned
      cases owned
      exact .inl ⟨rfl, rfl, rfl⟩
    · rw [Function.update_of_ne equal] at owned
      exact .inr ⟨equal, owned⟩
  constructor
  case receipts =>
    intro n part found
    obtain ⟨stored, there, described⟩ := sound.receipts n part found
    exact ⟨stored, (same _ (unreceipted n part found)).trans there, described⟩
  case distinct => exact sound.distinct
  case written =>
    intro j other stored owned
    rcases cases_ j other stored owned with ⟨_, rfl, rfl⟩ | ⟨differ, older⟩
    · exact here
    · exact (same _ (unowned j other stored differ older)).trans (sound.written j other stored older)
  case apart =>
    intro j other stored n part owned found
    rcases cases_ j other stored owned with ⟨_, rfl, rfl⟩ | ⟨_, older⟩
    · exact unreceipted n part found
    · exact sound.apart j other stored n part older found
  case separate =>
    intro j k other stored other' stored' differ first second
    rcases cases_ j other stored first with ⟨rfl, rfl, rfl⟩ | ⟨apart, older⟩
    · rcases cases_ k other' stored' second with ⟨rfl, _⟩ | ⟨apart, later⟩
      · exact absurd rfl differ
      · exact (unowned k other' stored' apart later).symm
    · rcases cases_ k other' stored' second with ⟨rfl, rfl, rfl⟩ | ⟨_, later⟩
      · exact unowned j other stored apart older
      · exact sound.separate j k other stored other' stored' differ older later

/-- The data file of a client becomes that of a receipt. -/
theorem DirSound.commit (owned : owners i = some (name, bytes))
    (n : Nat) :
    DirSound sha256
      { d with receipts := d.receipts.insert n ⟨receiptOf sha256 n bytes, name⟩ }
      (Function.update owners i none) := by
  have released := sound.release i
  have cases_ : ∀ m part, (d.receipts.insert n ⟨receiptOf sha256 n bytes, name⟩).get? m = some part →
      (m = n ∧ part = ⟨receiptOf sha256 n bytes, name⟩) ∨
        (m ≠ n ∧ d.receipts.get? m = some part) := by
    intro m part found
    rw [OrderedMap.get?_insert] at found
    split at found
    next same =>
      cases found
      exact .inl ⟨same, rfl⟩
    next differ => exact .inr ⟨differ, found⟩
  constructor
  case receipts =>
    intro m part found
    rcases cases_ m part found with ⟨rfl, rfl⟩ | ⟨_, older⟩
    · exact ⟨bytes, sound.written i name bytes owned, rfl⟩
    · exact sound.receipts m part older
  case distinct =>
    intro m k part other differ first second
    rcases cases_ m part first with ⟨rfl, rfl⟩ | ⟨_, older⟩
    · rcases cases_ k other second with ⟨rfl, _⟩ | ⟨_, later⟩
      · exact absurd rfl differ
      · exact (sound.apart i name bytes k other owned later).symm
    · rcases cases_ k other second with ⟨rfl, rfl⟩ | ⟨_, later⟩
      · exact sound.apart i name bytes m part owned older
      · exact sound.distinct m k part other differ older later
  case written => exact released.written
  case apart =>
    intro j other stored m part claimed found
    rcases cases_ m part found with ⟨rfl, rfl⟩ | ⟨_, older⟩
    · by_cases same : j = i
      · subst same
        rw [Function.update_self] at claimed
        cases claimed
      · rw [Function.update_of_ne same] at claimed
        exact sound.separate i j name bytes other stored (Ne.symm same) owned claimed
    · exact released.apart j other stored m part claimed older
  case separate => exact released.separate

end

end Directories

/-! ### The invariant -/

/-- A result that ends the upload. -/
inductive Result.Ends : Result → Prop where
  | completed (outcome : BlobWriteOutcome) : Ends (completed outcome)
  | removed : Ends removed

/-- A result that only an upload which is there gives. -/
inductive Result.Succeeds : Result → Prop where
  | uploaded (receipt : PartReceipt) : Succeeds (uploaded receipt)
  | completed (outcome : BlobWriteOutcome) : Succeeds (completed outcome)
  | removed : Succeeds removed

theorem not_succeeds_refused {P : Prop} {e : StorageError} (succeeds : (Result.refused e).Succeeds) :
    P := by cases succeeds

theorem not_ends_refused {P : Prop} {e : StorageError} (ends : (Result.refused e).Ends) : P := by
  cases ends

def World.owners (world : World) (i : Nat) : Option (String × Bytes) := (world.clients i).owns

structure Sound (sha256 : Bytes → String) (world : World) : Prop where
  dir : ∀ d, world.disk.dir = some d → DirSound sha256 d world.owners
  ended : (∃ result ∈ world.results, result.Ends) → world.disk.dir = none
  last : world.results.Pairwise fun earlier later => earlier.Ends → ¬ later.Succeeds

section Invariant

variable {sha256 : Bytes → String} {limits : MultipartLimits} {paths : UploadPaths}
  {handle : MultipartUploadHandle} {world : World}

theorem sound_started (manifest : Manifest) (target : Option Bytes) :
    Sound sha256 (started manifest target) where
  dir d present := by
    cases present
    exact {
      receipts := fun _ _ found => by cases found
      distinct := fun _ _ _ _ _ found => by cases found
      written := fun _ _ _ owned => by cases owned
      apart := fun _ _ _ _ _ owned => by cases owned
      separate := fun _ _ _ _ _ _ _ owned => by cases owned }
  ended := by
    rintro ⟨_, mem, _⟩
    cases mem
  last := .nil

@[simp] theorem owners_set (world : World) (i : Nat) (client : Client) :
    (world.set i client).owners = Function.update world.owners i client.owns := by
  funext j
  by_cases same : j = i
  · subst same
    simp [World.owners, World.set]
  · simp [World.owners, World.set, Function.update_of_ne same]

@[simp] theorem owners_returns (world : World) (result : Result) :
    (world.returns result).owners = world.owners := rfl

@[simp] theorem owners_disk (world : World) (disk : Disk) :
    { world with disk := disk }.owners = world.owners := rfl

/-- What a step may do: keep the directory sound or remove it, and return at most one
result, which no upload that was gone before has given. -/
theorem Sound.next (sound : Sound sha256 world) {after : World}
    (dirs : ∀ d, after.disk.dir = some d → DirSound sha256 d after.owners)
    (gone : world.disk.dir = none → after.disk.dir = none)
    (results : after.results = world.results ∨ ∃ result,
      after.results = world.results ++ [result] ∧
        (result.Succeeds → world.disk.dir ≠ none) ∧ (result.Ends → after.disk.dir = none)) :
    Sound sha256 after := by
  rcases results with same | ⟨result, more, succeeds, ends⟩
  · exact ⟨dirs, fun some => gone (sound.ended (same ▸ some)), same ▸ sound.last⟩
  · refine ⟨dirs, ?_, ?_⟩
    · rintro ⟨other, mem, final⟩
      rw [more, List.mem_append, List.mem_singleton] at mem
      rcases mem with earlier | rfl
      · exact gone (sound.ended ⟨other, earlier, final⟩)
      · exact ends final
    · rw [more, List.pairwise_append]
      refine ⟨sound.last, List.pairwise_singleton _ _, fun earlier mem later last final => ?_⟩
      rw [List.mem_singleton.mp last]
      exact fun succeeded => succeeds succeeded (sound.ended ⟨earlier, mem, final⟩)

/-- A client without a data file moves on. -/
theorem Sound.set (sound : Sound sha256 world) (i : Nat) {client : Client}
    (empty : client.owns = none) : Sound sha256 (world.set i client) :=
  sound.next (fun d present => by rw [owners_set, empty]; exact (sound.dir d present).release i)
    (fun absent => absent) (.inl rfl)

theorem Sound.refuse (sound : Sound sha256 world) {result : Result} (harmless : ¬ result.Succeeds) :
    Sound sha256 (world.returns result) :=
  sound.next sound.dir (fun absent => absent) (.inr ⟨result, rfl, fun succeeds =>
    absurd succeeds harmless, fun ends => by cases ends <;> exact absurd (by constructor) harmless⟩)

/-- A client gives its data file up, whatever becomes of the file. -/
theorem Sound.abandon (sound : Sound sha256 world) (owned : world.owners i = some (name, bytes))
    {disk : Disk}
    (disks : ∀ d, world.disk.dir = some d → ∃ data, disk.dir = some { d with data := data } ∧
      ∀ other, other ≠ name → data other = d.data other)
    (gone : world.disk.dir = none → disk.dir = none) (e : StorageError) :
    Sound sha256 (({ world with disk := disk }.set i .idle).returns (.refused e)) := by
  refine sound.next (fun d' present => ?_) gone (.inr ⟨_, rfl, not_succeeds_refused,
    not_ends_refused⟩)
  rw [owners_returns, owners_set, owners_disk]
  cases before : world.disk.dir with
  | none =>
    have absent := gone before
    change disk.dir = some d' at present
    rw [absent] at present
    cases present
  | some d =>
    obtain ⟨data, after, same⟩ := disks d before
    change disk.dir = some d' at present
    rw [after] at present
    cases present
    have here := sound.dir d before
    refine (here.release i).unused same ?_ fun n part found => here.apart i name bytes n part owned found
    intro j other stored claimed
    by_cases equal : j = i
    · subst equal
      simp only [Function.update_self] at claimed
      cases claimed
    · rw [Function.update_of_ne equal] at claimed
      exact here.separate j i other stored name bytes equal claimed owned

theorem removeData_dir (name : String) (fails : Bool) (disk : Disk) :
    (∀ d, disk.dir = some d → ∃ data, (removeData name fails disk).dir =
        some { d with data := data } ∧ ∀ other, other ≠ name → data other = d.data other) ∧
      (disk.dir = none → (removeData name fails disk).dir = none) := by
  unfold removeData
  split
  · exact ⟨fun d present => ⟨d.data, present, fun _ _ => rfl⟩, fun absent => absent⟩
  · refine ⟨fun d present => ⟨Function.update d.data name none, ?_, fun other apart =>
      Function.update_of_ne apart _ _⟩, fun absent => ?_⟩
    · simp only [present, Option.map_some]
    · simp only [absent, Option.map_none]

theorem appendData_dir (name : String) (bytes : Bytes) (fault : Option Nat) (disk : Disk) :
    (∀ d, disk.dir = some d → ∃ data, (appendData paths name bytes fault disk).2.dir =
        some { d with data := data } ∧ ∀ other, other ≠ name → data other = d.data other) ∧
      (disk.dir = none → (appendData paths name bytes fault disk).2.dir = none) := by
  have others (d : Directory) (stored : Bytes) (other : String) (apart : other ≠ name) :
      growData d.data name stored other = d.data other := by
    cases found : d.data name with
    | none => simp only [growData, found]
    | some old => simp only [growData, found, Function.update_of_ne apart]
  constructor
  · intro d present
    cases fault with
    | none =>
      exact ⟨_, by simp only [appendData, present, Option.map_some], others d bytes⟩
    | some stored =>
      exact ⟨_, by simp only [appendData, present, Option.map_some], others d (bytes.take stored)⟩
  · intro absent
    cases fault <;> simp only [appendData, absent, Option.map_none]

theorem Sound.check (sound : Sound sha256 world) (i partNumber : Nat) (readFails : Bool) :
    Sound sha256 (step sha256 limits paths handle world (.check i partNumber readFails)) := by
  simp only [step]
  split
  · split
    · exact sound.set i rfl
    · exact sound.refuse not_succeeds_refused
  · exact sound

theorem Sound.create (sound : Sound sha256 world) {id : Uuid} {fails : Bool}
    (harmless : Harmless world (.create i id fails)) :
    Sound sha256 (step sha256 limits paths handle world (.create i id fails)) := by
  simp only [step]
  split
  next partNumber client =>
    generalize named : dataFileName partNumber id = name
    cases before : world.disk.dir with
    | none =>
      simp only [createData, before]
      have gone : (removeData name false world.disk).dir = none :=
        (removeData_dir name false world.disk).2 before
      refine sound.next (fun d present => ?_) (fun _ => gone)
        (.inr ⟨_, rfl, not_succeeds_refused, not_ends_refused⟩)
      change (removeData name false world.disk).dir = some d at present
      rw [gone] at present
      cases present
    | some d =>
      have here := sound.dir d before
      have free : d.data name = none := named ▸ harmless partNumber d client before
      have unowned : ∀ j other stored, world.owners j = some (other, stored) → other ≠ name := by
        rintro j other stored owned rfl
        have there := here.written j other stored owned
        rw [free] at there
        cases there
      have unreceipted : ∀ n part, d.receipts.get? n = some part → part.dataFile ≠ name := by
        rintro n part found rfl
        obtain ⟨bytes, there, _⟩ := here.receipts n part found
        rw [free] at there
        cases there
      cases fails with
      | true =>
        simp only [createData, before, if_true]
        obtain ⟨disks, gone⟩ := removeData_dir name false world.disk
        refine sound.next (fun d' present => ?_) gone
          (.inr ⟨_, rfl, not_succeeds_refused, not_ends_refused⟩)
        obtain ⟨data, after, same⟩ := disks d before
        change (removeData name false world.disk).dir = some d' at present
        rw [after] at present
        cases present
        rw [owners_returns, owners_set]
        refine (here.unused same unowned unreceipted).release i
      | false =>
        simp only [createData, before, Bool.false_eq_true, if_false]
        refine sound.next (fun d' present => ?_) (fun absent => ?_) (.inl rfl)
        · cases present
          rw [owners_set]
          exact here.claim (Function.update_self ..) (fun other apart =>
            Function.update_of_ne apart _ _) (fun j other stored _ owned => unowned j other stored owned)
            unreceipted
        · rw [before] at absent
          cases absent
  · exact sound

theorem owners_of {partNumber : Nat} (client : world.clients i = .writing partNumber name bytes ∨
      world.clients i = .staged partNumber name bytes) :
    world.owners i = some (name, bytes) := by
  rcases client with client | client <;> simp only [World.owners, client, Client.owns]

theorem Sound.chunk (sound : Sound sha256 world) (i : Nat) (bytes : Bytes) (fault : Option Nat)
    (discardFails : Bool) :
    Sound sha256 (step sha256 limits paths handle world (.chunk i bytes fault discardFails)) := by
  simp only [step]
  split
  next partNumber name written client =>
    have owned := owners_of (.inl client)
    split
    · obtain ⟨disks, gone⟩ := removeData_dir name discardFails world.disk
      exact sound.abandon owned disks gone _
    · obtain ⟨grows, gone⟩ := @appendData_dir paths name bytes fault world.disk
      split
      next disk done =>
        cases fault with
        | some stored => cases done
        | none =>
          have disk_eq : disk = (appendData paths name bytes none world.disk).2 := by rw [done]
          subst disk_eq
          refine sound.next (fun d' present => ?_) gone (.inl rfl)
          cases before : world.disk.dir with
          | none =>
            change (appendData paths name bytes none world.disk).2.dir = some d' at present
            rw [gone before] at present
            cases present
          | some d =>
            have here := sound.dir d before
            have content := here.written i name written owned
            simp only [appendData, before, Option.map_some, World.set, growData, content] at present
            cases present
            rw [owners_set]
            refine here.claim (Function.update_self ..) (fun other apart =>
              Function.update_of_ne apart _ _) ?_ fun n part found =>
                here.apart i name written n part owned found
            exact fun j other stored differ claimed =>
              here.separate j i other stored name written differ claimed owned
      next e disk failed =>
        have disk_eq : disk = (appendData paths name bytes fault world.disk).2 := by rw [failed]
        subst disk_eq
        obtain ⟨removes, stays⟩ :=
          removeData_dir name discardFails (appendData paths name bytes fault world.disk).2
        refine sound.abandon owned (fun d present => ?_) (fun absent => stays (gone absent)) e
        obtain ⟨data, grown, same⟩ := grows d present
        obtain ⟨data', after, same'⟩ := removes _ grown
        exact ⟨data', after, fun other apart => (same' other apart).trans (same other apart)⟩
  · exact sound

theorem Sound.bodyFails (sound : Sound sha256 world) (i : Nat) (error : StorageError)
    (discardFails : Bool) :
    Sound sha256 (step sha256 limits paths handle world (.bodyFails i error discardFails)) := by
  simp only [step]
  split
  next partNumber name written client =>
    obtain ⟨disks, gone⟩ := removeData_dir name discardFails world.disk
    exact sound.abandon (owners_of (.inl client)) disks gone error
  · exact sound

theorem Sound.finish (sound : Sound sha256 world) (i : Nat) (fails discardFails : Bool) :
    Sound sha256 (step sha256 limits paths handle world (.finish i fails discardFails)) := by
  simp only [step]
  split
  next partNumber name written client =>
    have owned := owners_of (.inl client)
    split
    · obtain ⟨disks, gone⟩ := removeData_dir name discardFails world.disk
      exact sound.abandon owned disks gone _
    · refine sound.next (fun d present => ?_) (fun absent => absent) (.inl rfl)
      have same : (world.set i (.staged partNumber name written)).owners = world.owners := by
        rw [owners_set]
        exact Function.update_eq_self_iff.mpr (owned.symm ▸ rfl)
      rw [same]
      exact sound.dir d present
  · exact sound

/-- What the section of a part upload can do. -/
theorem commitPart_cases (part : StoredPart) (faults : CommitFaults) (disk : Disk) :
    (∃ e, commitPart paths handle part faults disk = (.error e, disk)) ∨
    (∃ e, commitPart paths handle part faults disk =
      (.error e, removeData part.dataFile faults.discard disk)) ∨
    ∃ d, disk.dir = some d ∧ ∃ stored, stored = { disk with
        dir := some { d with receipts := d.receipts.insert part.receipt.partNumber part } } ∧
      ((∃ e, commitPart paths handle part faults disk = (.error e, stored)) ∨
        commitPart paths handle part faults disk = (.ok (), stored) ∨
        ∃ previous, d.receipts.get? part.receipt.partNumber = some previous ∧
          previous.dataFile ≠ part.dataFile ∧ commitPart paths handle part faults disk =
            (.ok (), removeData previous.dataFile faults.removePrevious stored)) := by
  unfold commitPart
  simp only
  split
  · exact .inl ⟨_, rfl⟩
  split
  next d manifest present _ =>
    split
    · exact .inl ⟨_, rfl⟩
    refine .inr (.inr ⟨d, present, _, rfl, ?_⟩)
    split
    · exact .inl ⟨_, rfl⟩
    split
    next previous found =>
      split
      · exact .inr (.inl rfl)
      next differ =>
        refine .inr (.inr ⟨previous, ?_, differ, rfl⟩)
        split at found
        · cases found
        · exact found
    · exact .inr (.inl rfl)
  · exact .inr (.inl ⟨_, rfl⟩)

section

variable (sound : Sound sha256 world)
include sound

theorem Sound.commit (i : Nat) (faults : CommitFaults) :
    Sound sha256 (step sha256 limits paths handle world (.commit i faults)) := by
  cases client : world.clients i with
  | idle | checked partNumber | writing partNumber name written | aborting =>
    simpa only [step, client] using sound
  | staged partNumber name written =>
    have owned := owners_of (.inr client)
    simp only [step, client]
    rcases @commitPart_cases paths handle
        ⟨receiptOf sha256 partNumber written, name⟩ faults world.disk with
      ⟨e, done⟩ | ⟨e, done⟩ | ⟨d, before, stored, after, outcome⟩
    · simp only [done]
      exact sound.abandon owned (fun d present => ⟨d.data, present, fun _ _ => rfl⟩)
        (fun absent => absent) e
    · simp only [done]
      obtain ⟨disks, gone⟩ := removeData_dir name faults.discard world.disk
      exact sound.abandon owned disks gone e
    have here := sound.dir d before
    have committed := here.commit owned partNumber
    have present : world.disk.dir ≠ none := by rw [before]; exact Option.some_ne_none d
    -- the receipt is in place, whatever else is returned
    have kept (result : Result) (open_ : ¬ result.Ends) {disk : Disk} {d' : Directory}
        (after : disk.dir = some d')
        (holds : DirSound sha256 d' (Function.update world.owners i none)) :
        Sound sha256 (({ world with disk := disk }.set i .idle).returns result) := by
      refine sound.next (fun d'' found => ?_) (fun absent => absurd absent present)
        (.inr ⟨_, rfl, fun _ => present, fun ends => absurd ends open_⟩)
      change disk.dir = some d'' at found
      rw [after] at found
      cases found
      rw [owners_returns, owners_set]
      exact holds
    have uploaded (receipt : PartReceipt) : ¬ (Result.uploaded receipt).Ends := fun ends => by
      cases ends
    generalize named : (⟨receiptOf sha256 partNumber written, name⟩ : StoredPart) = part at *
    have number : part.receipt.partNumber = partNumber := by rw [← named]; rfl
    rw [number] at after outcome
    have there : stored.dir = some { d with receipts := d.receipts.insert partNumber part } := by
      rw [after]
    rcases outcome with ⟨e, done⟩ | done | ⟨previous, older, differ, done⟩
    · simp only [done]
      exact kept _ not_ends_refused there committed
    · simp only [done]
      exact kept _ (uploaded _) there committed
    · simp only [done]
      obtain ⟨disks, _⟩ := removeData_dir previous.dataFile faults.removePrevious stored
      obtain ⟨data, after, same⟩ := disks _ there
      refine kept _ (uploaded _) after (committed.unused same ?_ fun n part latest => ?_)
      · intro j other bytes claimed
        by_cases same : j = i
        · subst same
          rw [Function.update_self] at claimed
          cases claimed
        · rw [Function.update_of_ne same] at claimed
          exact (here.apart j other bytes partNumber previous claimed older).symm
      · rw [OrderedMap.get?_insert] at latest
        split at latest
        · cases latest
          exact fun same => differ same.symm
        next other => exact here.distinct n partNumber part previous other latest older

theorem Sound.findUpload (i : Nat) (fails : Bool) :
    Sound sha256 (step sha256 limits paths handle world (.findUpload i fails)) := by
  simp only [step]
  split
  · split
    · exact sound.refuse not_succeeds_refused
    split
    · exact sound.refuse fun succeeds => by cases succeeds
    · exact sound.set i rfl
  · exact sound

theorem Sound.abort {fault : Option (Entry → Bool)}
    (clean : Clean fault) :
    Sound sha256 (step sha256 limits paths handle world (.abort i fault)) := by
  simp only [step]
  split
  next client =>
    have released : ∀ {disk : Disk}, disk.dir = world.disk.dir → ∀ d, disk.dir = some d →
        DirSound sha256 d (({ world with disk := disk }.set i .idle)).owners := by
      intro disk same d present
      rw [owners_set]
      exact (sound.dir d (same ▸ present)).release i
    unfold abortMultipart
    rcases removeDirAll_clean clean world.disk with ⟨kind, failed, absent⟩ | ⟨done, present⟩
    · cases kind with
      | notFound =>
        simp only [failed, absent rfl, Option.isNone_none, if_true]
        exact sound.next (released rfl) (fun gone => gone)
          (.inr ⟨_, rfl, (fun succeeds => by cases succeeds), (fun ends => by cases ends)⟩)
      | alreadyExists | other =>
        simp only [failed]
        exact sound.next (released rfl) (fun gone => gone)
          (.inr ⟨_, rfl, not_succeeds_refused, not_ends_refused⟩)
    · simp only [done]
      refine sound.next (fun d found => by cases found) (fun _ => rfl)
        (.inr ⟨_, rfl, fun _ => present, fun _ => rfl⟩)
  · exact sound

theorem Sound.complete {given : List PartReceipt}
    {faults : CompleteFaults} (clean : Clean faults.remove) :
    Sound sha256 (step sha256 limits paths handle world (.complete given faults)) := by
  simp only [step]
  rcases @completeMultipart_cases sha256 limits paths handle given faults clean world.disk with
    ⟨e, same⟩ | ⟨d, manifest, bytes, target, present, _, _, outcome⟩
  · simp only [same]
    exact sound.refuse not_succeeds_refused
  have there : world.disk.dir ≠ none := by rw [present]; exact Option.some_ne_none d
  rcases outcome with ⟨e, left⟩ | done
  · simp only [left]
    refine sound.next (fun d' found => ?_) (fun absent => absurd absent there)
      (.inr ⟨_, rfl, not_succeeds_refused, not_ends_refused⟩)
    cases found
    exact sound.dir d present
  · simp only [done]
    exact sound.next (fun d found => by cases found) (fun _ => rfl)
      (.inr ⟨_, rfl, fun _ => there, fun _ => rfl⟩)

/-! ### Runs -/

theorem Sound.step {next : Step} (harmless : Harmless world next) :
    Sound sha256 (step sha256 limits paths handle world next) := by
  cases next with
  | check i partNumber readFails => exact sound.check i partNumber readFails
  | create i id fails => exact sound.create harmless
  | chunk i bytes fault discardFails => exact sound.chunk i bytes fault discardFails
  | bodyFails i error discardFails => exact sound.bodyFails i error discardFails
  | finish i fails discardFails => exact sound.finish i fails discardFails
  | commit i faults => exact sound.commit i faults
  | complete given faults => exact sound.complete harmless
  | findUpload i fails => exact sound.findUpload i fails
  | abort i fault => exact sound.abort harmless
  | crash i => exact sound.set i rfl

theorem Sound.run {steps : List Step}
    (harmless : HarmlessRun sha256 limits paths handle world steps) :
    Sound sha256 (run sha256 limits paths handle world steps) := by
  induction steps generalizing world with
  | nil => exact sound
  | cons next rest ih => exact ih (sound.step harmless.1) harmless.2

end

end Invariant

/-- In every run of harmless steps of any number of clients: a receipt names a data file
with its size and digest; a completion that publishes or succeeds leaves the bytes of
exactly the given receipts, in ascending order; nothing succeeds after a completion or
an abort that took effect; and a completion that fails has removed no part, and can be
tried again if it has published. -/
theorem uploads_stay_sound {sha256 : Bytes → String}
    (hex : ∀ bytes, isSha256Hex (sha256 bytes) = true) (limits : MultipartLimits)
    (paths : UploadPaths) (handle : MultipartUploadHandle) (manifest : Manifest)
    (target : Option Bytes) {steps : List Step}
    (harmless : HarmlessRun sha256 limits paths handle (started manifest target) steps) :
    let world := run sha256 limits paths handle (started manifest target) steps
    (∀ d n part, world.disk.dir = some d → d.receipts.get? n = some part →
      part.receipt.partNumber = n ∧ ∃ bytes, d.data part.dataFile = some bytes ∧
        Matches sha256 part.receipt bytes) ∧
    (∀ given faults, Harmless world (.complete given faults) →
      let done := completeMultipart sha256 limits paths handle given faults world.disk
      done.2.target ≠ world.disk.target ∨ (∃ outcome, done.1 = .ok outcome) →
        given.Pairwise (fun a b => a.partNumber < b.partNumber) ∧ ∃ contents,
          List.Forall₂ (Matches sha256) given contents ∧
          (done.2.target = some contents.flatten ∨ ∃ old, world.disk.target = some old ∧
            done.2.target = some old ∧ old.length = contents.flatten.length ∧
              sha256 old = sha256 contents.flatten) ∧
          ∀ outcome, done.1 = .ok outcome →
            outcome = ⟨contents.flatten.length, sha256 contents.flatten⟩) ∧
    world.results.Pairwise (fun earlier later => earlier.Ends → ¬ later.Succeeds) ∧
    ∀ given faults e, Harmless world (.complete given faults) →
      (completeMultipart sha256 limits paths handle given faults world.disk).1 = .error e →
      let after := (completeMultipart sha256 limits paths handle given faults world.disk).2
      after.dir = world.disk.dir ∧ (after.target ≠ world.disk.target → ∃ outcome,
        (completeMultipart sha256 limits paths handle given {} after).1 = .ok outcome) := by
  intro world
  have sound : Sound sha256 world := (sound_started manifest target).run harmless
  refine ⟨fun d n part present found => ?_, fun given faults clean =>
    completeMultipart_publishes hex clean, sound.last, fun given faults e clean failed =>
    completeMultipart_error clean failed⟩
  obtain ⟨bytes, there, described⟩ := (sound.dir d present).receipts n part found
  rw [described]
  exact ⟨rfl, bytes, there, rfl, rfl⟩

private def partDigests (bytes : Bytes) : String :=
  if bytes = [104, 105] then "8f434346648f6b96df89dda901c5176b10a6d83961dd3c1ac88b59b2dc327aa4"
  else if bytes = [121, 111] then "e9058ab198f6908f702111b0c0fb5b36f99d00554521886c40e2891b349dc7a1"
  else if bytes = [104, 105, 121, 111] then "edc4b65bda9f266f445a2e2b6512e43701e23a2a6392923815e35e12bb1e28cd"
  else "0000000000000000000000000000000000000000000000000000000000000000"

private theorem partDigests_hex (bytes : Bytes) : isSha256Hex (partDigests bytes) = true := by
  unfold partDigests
  split
  · decide
  split
  · decide
  split
  · decide
  · decide

private def samplePaths : UploadPaths :=
  ⟨[.rootDir, .normal "u"], [.rootDir, .normal "k"], [.rootDir, .normal "t"]⟩

private def sampleLimits : MultipartLimits := ⟨1, 100, 10000⟩

private def sampleHandle : MultipartUploadHandle := ⟨"k", false⟩

private def fresh : World := started ⟨"k", false⟩ none

/-- Two clients upload `hi` and `yo` at the same time. A third one completes the upload,
after a fourth has found it and before that one aborts it. -/
private def twoParts : List Step :=
  [.check 0 1 false, .check 1 2 false, .create 1 1 false, .create 0 0 false,
    .chunk 1 [121, 111] none false, .chunk 0 [104, 105] none false, .finish 1 false false,
    .commit 1 {}, .findUpload 3 false, .finish 0 false false, .commit 0 {},
    .complete [receiptOf partDigests 1 [104, 105], receiptOf partDigests 2 [121, 111]] {},
    .abort 3 none, .check 0 3 false]

private theorem twoParts_harmless :
    HarmlessRun partDigests sampleLimits samplePaths sampleHandle fresh twoParts := by
  refine ⟨trivial, trivial, fun partNumber d client present => ?_, fun partNumber d client present => ?_,
    trivial, trivial, trivial, trivial, trivial, trivial, trivial, ?_, ?_, trivial, trivial⟩
  · cases present
    rfl
  · cases client
    cases present
    decide
  · exact fun _ fails => by cases fails
  · exact fun _ fails => by cases fails

/-- Both parts are stored and published together; the abort comes too late, and so does another
part. -/
theorem uploads_stay_sound_two :
    let world := run partDigests sampleLimits samplePaths sampleHandle fresh twoParts
    HarmlessRun partDigests sampleLimits samplePaths sampleHandle fresh twoParts ∧
      world.results =
        [.uploaded (receiptOf partDigests 2 [121, 111]), .uploaded (receiptOf partDigests 1 [104, 105]),
          .completed ⟨4, partDigests [104, 105, 121, 111]⟩, .nothingToAbort,
          .refused (multipartError "k" .unknownUpload)] ∧
      world.disk.target = some [104, 105, 121, 111] ∧
      world.results.Pairwise (fun earlier later => earlier.Ends → ¬ later.Succeeds) :=
  ⟨twoParts_harmless, rfl, rfl,
    (uploads_stay_sound partDigests_hex sampleLimits samplePaths sampleHandle ⟨"k", false⟩ none
      twoParts_harmless).2.2.1⟩

/-- The directory is emptied and then not removed, as when another client creates a
data file in it at that moment. -/
private def emptied : CompleteFaults := { remove := some fun _ => true }

/-- One client uploads the part `hi`. -/
private def onePart : List Step :=
  [.check 0 1 false, .create 0 1 false, .chunk 0 [104, 105] none false, .finish 0 false false,
    .commit 0 {}]

private def stored : Disk := (run partDigests sampleLimits samplePaths sampleHandle fresh onePart).disk

private def given : List PartReceipt := [receiptOf partDigests 1 [104, 105]]

/-- The completion returns an error with the object published and the parts gone, and a
retry does not find the upload. -/
theorem completeMultipart_loses_parts :
    (completeMultipart partDigests sampleLimits samplePaths sampleHandle given emptied stored).1 =
        .error (.io samplePaths.dir .other) ∧
      stored.target = none ∧
      (completeMultipart partDigests sampleLimits samplePaths sampleHandle given emptied stored).2.target =
        some [104, 105] ∧
      (completeMultipart partDigests sampleLimits samplePaths sampleHandle given {}
        (completeMultipart partDigests sampleLimits samplePaths sampleHandle given emptied stored).2).1 =
        .error (multipartError "k" .unknownUpload) := by
  decide

end GraphqlOrm.Storage.Multipart
