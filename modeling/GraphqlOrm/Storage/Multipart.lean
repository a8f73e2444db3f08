import GraphqlOrm.Storage.Local

/-!
# Multipart uploads of the local store

One upload is a directory with its manifest, a data file for every part and a
receipt for every part number, and the object that its completion publishes.
The sections under the upload's lock are functions on this state; which of their
filesystem calls fail is an argument of each.
-/
namespace GraphqlOrm.Storage.Multipart

open Outcome FileSystem

structure MultipartLimits where
  minPartSize : Nat
  maxPartSize : Nat
  maxParts : Nat

/-- A handle whose backend and identifier are those of the upload. -/
structure MultipartUploadHandle where
  key : String
  ifNotExists : Bool

structure PartReceipt where
  partNumber : Nat
  sizeBytes : Nat
  sha256 : String
  providerTag : String

structure Manifest where
  key : String
  ifNotExists : Bool

structure StoredPart where
  receipt : PartReceipt
  dataFile : String

/-- Receipts are files named by their part number. -/
structure Directory where
  manifest : Option Manifest
  receipts : OrderedMap Nat StoredPart
  data : String → Option Bytes

structure Disk where
  dir : Option Directory
  target : Option Bytes

/-- Where the files of the upload are. -/
structure UploadPaths where
  dir : PathBuf
  target : PathBuf
  temp : PathBuf

def multipartMaxPartNumber : Nat := 10000

def multipartError (key : String) (kind : MultipartErrorKind) : StorageError := .multipart key kind

def fiveDigits (partNumber : Nat) : String :=
  String.ofList (List.leftpad 5 '0' (toString partNumber).toList)

def partReceiptName (partNumber : Nat) : String := "part-" ++ fiveDigits partNumber ++ ".json"

def dataFileName (partNumber : Nat) (id : Lease.Uuid) : String :=
  "part-" ++ fiveDigits partNumber ++ "." ++ UuidText.hyphenated id ++ ".data"

/-! ### Checks -/

def checkPartNumber (key : String) (partNumber : Nat) (limits : MultipartLimits) :
    Except StorageError Unit :=
  require (partNumber ≠ 0 ∧ partNumber ≤ multipartMaxPartNumber ∧ partNumber ≤ limits.maxParts)
    (multipartError key .partNumberOutOfRange)

def isSha256Hex (value : String) : Bool :=
  value.length = 64 && value.toList.all fun c => ('0' ≤ c ∧ c ≤ '9') ∨ ('a' ≤ c ∧ c ≤ 'f')

/-- A receipt that a caller gives for a stored one. An absent stored checksum is not compared. -/
def PartReceipt.accepts (given stored : PartReceipt) : Bool :=
  given.partNumber = stored.partNumber && given.sizeBytes = stored.sizeBytes &&
    given.providerTag = stored.providerTag &&
    (stored.sha256 = "" || given.sha256 = stored.sha256)

def verifyReceipts (key : String) (stored given : List PartReceipt) (limits : MultipartLimits) :
    Except StorageError Unit := do
  let mismatch := multipartError key .receiptMismatch
  require (given ≠ [] ∧ given.length = stored.length) mismatch
  require (given.all fun part => part.sha256 = "" || isSha256Hex part.sha256) mismatch
  require (!(given.zip given.tail).any fun pair => pair.1.partNumber ≥ pair.2.partNumber) mismatch
  require ((given.zip stored).all fun pair => pair.1.accepts pair.2) mismatch
  require (!given.dropLast.any fun part => part.sizeBytes < limits.minPartSize)
    (multipartError key .partTooSmall)

/-! ### Removal -/

inductive Entry where
  | manifest
  | receipt (partNumber : Nat)
  | data (name : String)

def Directory.without (d : Directory) (removed : Entry → Bool) : Directory where
  manifest := if removed .manifest then none else d.manifest
  receipts := ⟨d.receipts.entries.filter fun entry => !removed (.receipt entry.1),
    d.receipts.sorted.filter _⟩
  data name := if removed (.data name) then none else d.data name

/-- `remove_dir_all`. When it fails, the entries it came to before are gone. -/
def removeDirAll (fault : Option (Entry → Bool)) (disk : Disk) : Except ErrorKind Unit × Disk :=
  match disk.dir, fault with
  | none, none => (.error .notFound, disk)
  | none, some _ => (.error .other, disk)
  | some _, none => (.ok (), { disk with dir := none })
  | some d, some removed => (.error .other, { disk with dir := some (d.without removed) })

/-! ### Parts -/

section Parts

variable (sha256 : Bytes → String) (limits : MultipartLimits) (paths : UploadPaths)
  (handle : MultipartUploadHandle)

def receiptOf (partNumber : Nat) (bytes : Bytes) : PartReceipt :=
  ⟨partNumber, bytes.length, sha256 bytes, sha256 bytes⟩

def Disk.manifest (disk : Disk) : Option Manifest := disk.dir.bind (·.manifest)

/-- `std::fs::remove_file` in the directory, its outcome ignored. -/
def removeData (name : String) (fails : Bool) (disk : Disk) : Disk :=
  if fails then disk
  else { disk with dir := disk.dir.map fun d => { d with data := Function.update d.data name none } }

def uploadCheck (partNumber : Nat) (readFails : Bool) (disk : Disk) : Except StorageError Unit := do
  checkPartNumber handle.key partNumber limits
  require (!readFails) (.io (paths.dir ++ [.normal "manifest.json"]) .other)
  let manifest ← okOr (multipartError handle.key .unknownUpload) disk.manifest
  require (manifest.key = handle.key) (multipartError handle.key .unknownUpload)

/-- `File::create` of the data file: the directory has to be there. -/
def createData (name : String) (fails : Bool) (disk : Disk) : Except StorageError Unit × Disk :=
  match disk.dir with
  | none => (.error (.io (paths.dir ++ [.normal name]) .notFound), disk)
  | some d =>
    if fails then (.error (.io (paths.dir ++ [.normal name]) .other), disk)
    else (.ok (), { disk with
      dir := some { d with data := Function.update d.data name (some []) } })

/-- Bytes at the end of a file; a file that was removed takes them with it. -/
def growData (data : String → Option Bytes) (name : String) (bytes : Bytes) :
    String → Option Bytes :=
  match data name with
  | none => data
  | some old => Function.update data name (some (old ++ bytes))

def appendData (name : String) (bytes : Bytes) (fault : Option Nat) (disk : Disk) :
    Except StorageError Unit × Disk :=
  let grown (stored : Bytes) : Disk := { disk with
    dir := disk.dir.map fun d => { d with data := growData d.data name stored } }
  match fault with
  | none => (.ok (), grown bytes)
  | some stored => (.error (.io (paths.dir ++ [.normal name]) .other), grown (bytes.take stored))

structure CommitFaults where
  readManifest : Bool := false
  discard : Bool := false
  readPrevious : Bool := false
  write : Bool := false
  sync : Bool := false
  removePrevious : Bool := false

/-- The section of a part upload: the receipt replaces the earlier one of its number. -/
def commitPart (part : StoredPart) (faults : CommitFaults) (disk : Disk) :
    Except StorageError Unit × Disk :=
  let receiptPath := paths.dir ++ [.normal (partReceiptName part.receipt.partNumber)]
  if faults.readManifest then (.error (.io (paths.dir ++ [.normal "manifest.json"]) .other), disk)
  else match disk.dir, disk.manifest with
  | some d, some _ =>
    if faults.write then (.error (.io receiptPath .other), disk)
    else
      let previous := if faults.readPrevious then none else d.receipts.get? part.receipt.partNumber
      let disk := { disk with
        dir := some { d with receipts := d.receipts.insert part.receipt.partNumber part } }
      if faults.sync then (.error (.io paths.dir .other), disk)
      else match previous with
        | some previous =>
          if previous.dataFile = part.dataFile then (.ok (), disk)
          else (.ok (), removeData previous.dataFile faults.removePrevious disk)
        | none => (.ok (), disk)
  | _, _ =>
    (.error (multipartError handle.key .unknownUpload), removeData part.dataFile faults.discard disk)

end Parts

/-! ### Completion and abort -/

section Completion

variable (sha256 : Bytes → String) (limits : MultipartLimits) (paths : UploadPaths)
  (handle : MultipartUploadHandle)

/-- The bytes of the parts, each read again and compared with its receipt. -/
def assemble (d : Directory) : List StoredPart → Except StorageError Bytes
  | [] => .ok []
  | part :: rest => do
    let bytes ← okOr (.io (paths.dir ++ [.normal part.dataFile]) .notFound) (d.data part.dataFile)
    require (bytes.length = part.receipt.sizeBytes ∧ sha256 bytes = part.receipt.sha256)
      (multipartError handle.key .receiptMismatch)
    let others ← assemble d rest
    return bytes ++ others

structure CompleteFaults where
  readManifest : Bool := false
  readParts : Bool := false
  createParent : Bool := false
  assemble : Bool := false
  publish : Bool := false
  digest : Bool := false
  sync : Bool := false
  remove : Option (Entry → Bool) := none

/-- Everything up to the assembled temporary file: nothing of the upload changes. -/
def completePrepare (given : List PartReceipt) (faults : CompleteFaults) (disk : Disk) :
    Except StorageError (Manifest × Bytes) := do
  let unknown := multipartError handle.key .unknownUpload
  require (!faults.readManifest) (.io (paths.dir ++ [.normal "manifest.json"]) .other)
  let d ← okOr unknown disk.dir
  let manifest ← okOr unknown (d.manifest.filter (·.key = handle.key))
  require (!faults.readParts) (.io paths.dir .other)
  verifyReceipts handle.key (d.receipts.values.map (·.receipt)) given limits
  require (!faults.createParent) (.io paths.target.dropLast .other)
  let bytes ← assemble sha256 paths handle d d.receipts.values
  require (!faults.assemble) (.io paths.temp .other)
  return (manifest, bytes)

/-- A hard link or a rename. A conditional publication takes an identical object for
its own, which an earlier attempt has left. -/
def publish (conditional : Bool) (bytes : Bytes) (faults : CompleteFaults)
    (target : Option Bytes) : Except StorageError (Option Bytes) :=
  if faults.publish then .error (.io paths.target .other)
  else if conditional then
    match target with
    | none => .ok (some bytes)
    | some old =>
      if faults.digest then .error (.io paths.target .other)
      else if old.length = bytes.length ∧ sha256 old = sha256 bytes then .ok (some old)
      else .error (.preconditionFailed handle.key "object already exists")
  else .ok (some bytes)

def completeMultipart (given : List PartReceipt) (faults : CompleteFaults) (disk : Disk) :
    Except StorageError BlobWriteOutcome × Disk :=
  match completePrepare sha256 limits paths handle given faults disk with
  | .error e => (.error e, disk)
  | .ok (manifest, bytes) =>
    match publish sha256 paths handle (manifest.ifNotExists || handle.ifNotExists) bytes faults
        disk.target with
    | .error e => (.error e, disk)
    | .ok target =>
      let disk := { disk with target := target }
      if faults.sync then (.error (.io paths.target.dropLast .other), disk)
      else match removeDirAll faults.remove disk with
        | (.error kind, disk) => (.error (.io paths.dir kind), disk)
        | (.ok (), disk) => (.ok ⟨bytes.length, sha256 bytes⟩, disk)

/-- The section of an abort. The upload may be gone since it was looked for. -/
def abortMultipart (fault : Option (Entry → Bool)) (disk : Disk) :
    Except StorageError Unit × Disk :=
  match removeDirAll fault disk with
  | (.ok (), disk) => (.ok (), disk)
  | (.error .notFound, disk) => (.ok (), disk)
  | (.error kind, disk) => (.error (.io paths.dir kind), disk)

end Completion

end GraphqlOrm.Storage.Multipart
