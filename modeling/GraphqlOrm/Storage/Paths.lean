import GraphqlOrm.Foundation.FileSystem
import GraphqlOrm.Foundation.Outcome
import GraphqlOrm.Foundation.UuidText
import GraphqlOrm.Lease.State

/-!
# Keys and paths of the local store

Three namespaces share one directory tree: blobs under their keys, objects under
bucket and key, and an internal area with the metadata of the objects and the
staged uploads. Paths are lists of components, as `std::path` compares them on
Unix.
-/
namespace GraphqlOrm.Storage

open Outcome
open Lease (Uuid)

inductive Component where
  | rootDir
  | curDir
  | parentDir
  | normal (name : String)
deriving DecidableEq

abbrev PathBuf : Type := List Component

inductive MultipartErrorKind where
  | backendMismatch
  | unknownUpload
  | receiptMismatch
  | partNumberOutOfRange
  | partTooLarge
  | partTooSmall
deriving DecidableEq

inductive StorageError where
  | invalidStorageKey (key : String)
  | missingBlob (key : String)
  | preconditionFailed (key condition : String)
  | multipart (key : String) (kind : MultipartErrorKind)
  | missingParent (path : PathBuf)
  | provider (backend message : String) (retryable : Bool)
  | io (path : PathBuf) (source : FileSystem.ErrorKind)
deriving DecidableEq

/-! ### Paths -/

/-- `str::split('/')`. -/
def splitSlash (text : String) : List String := (text.toList.splitOn '/').map String.ofList

/-- A part after the first. Empty parts and single dots are no components. -/
def Component.inner (part : String) : Option Component :=
  if part = "" ∨ part = "." then none
  else if part = ".." then some .parentDir
  else some (.normal part)

/-- `Path::components`. -/
def components (path : String) : PathBuf :=
  match splitSlash path with
  | [] => []
  | first :: rest =>
    if first = "" then (if rest = [] then [] else .rootDir :: rest.filterMap Component.inner)
    else if first = "." then .curDir :: rest.filterMap Component.inner
    else (first :: rest).filterMap Component.inner

/-- `Path::join`: an absolute path replaces the base. -/
def join (base : PathBuf) (path : String) : PathBuf :=
  match components path with
  | .rootDir :: rest => .rootDir :: rest
  | parts => base ++ parts.filter (· ≠ .curDir)

/-- `Path::file_name`. -/
def fileName (path : PathBuf) : Option String :=
  match path.getLast? with
  | some (.normal name) => some name
  | _ => none

/-- `Path::with_file_name`, for a name that is one component. -/
def withFileName (path : PathBuf) (name : String) : PathBuf := path.dropLast ++ [.normal name]

def Component.isNormal : Component → Bool
  | normal _ => true
  | _ => false

/-! ### Keys -/

def validateBlobKey (key : String) : Except StorageError Unit :=
  let refused := StorageError.invalidStorageKey key
  if key = "" ∨ '\\' ∈ key.toList ∨ Char.ofNat 0 ∈ key.toList ∨
      (splitSlash key).any (fun part => part = "" ∨ part = "." ∨ part = "..") then
    .error refused
  else if (components key).head? = some .rootDir then .error refused
  else if (components key).any (fun component => !component.isNormal) then .error refused
  else .ok ()

def validateObjectBucket (bucket : String) : Except StorageError Unit := do
  validateBlobKey bucket
  require (!bucket.toList.contains '/') (.invalidStorageKey bucket)

/-- What a key must not contain. -/
structure ValidKey (key : String) : Prop where
  backslash : '\\' ∉ key.toList
  zero : Char.ofNat 0 ∉ key.toList
  parts : ∀ part ∈ splitSlash key, part ≠ "" ∧ part ≠ "." ∧ part ≠ ".."

theorem splitSlash_ne_nil (text : String) : splitSlash text ≠ [] := by
  simp [splitSlash, List.splitOn_ne_nil]

theorem splitSlash_injective {a b : String} (same : splitSlash a = splitSlash b) : a = b := by
  have lists : a.toList.splitOn '/' = b.toList.splitOn '/' :=
    List.map_injective_iff.mpr (fun _ _ equal => String.ofList_injective equal) same
  have joined := congrArg (List.intercalate ['/']) lists
  rw [List.intercalate_splitOn, List.intercalate_splitOn] at joined
  exact String.toList_inj.mp joined

theorem splitSlash_plain {text : String} (plain : '/' ∉ text.toList) : splitSlash text = [text] := by
  rw [splitSlash, List.splitOn_eq_singleton plain]
  simp

private theorem filterMap_inner {parts : List String}
    (normal : ∀ part ∈ parts, part ≠ "" ∧ part ≠ "." ∧ part ≠ "..") :
    parts.filterMap Component.inner = parts.map .normal := by
  rw [← List.filterMap_eq_map]
  refine List.filterMap_congr fun part mem => ?_
  obtain ⟨full, dot, dots⟩ := normal part mem
  simp [Component.inner, full, dot, dots]

variable {key : String}

theorem components_of_parts (normal : ∀ part ∈ splitSlash key, part ≠ "" ∧ part ≠ "." ∧ part ≠ "..") :
    components key = (splitSlash key).map .normal := by
  unfold components
  split
  next empty => exact absurd empty (splitSlash_ne_nil key)
  next first rest split =>
    rw [split] at normal ⊢
    obtain ⟨full, dot, _⟩ := normal first (.head _)
    rw [if_neg full, if_neg dot]
    exact filterMap_inner normal

theorem ValidKey.components (valid : ValidKey key) :
    components key = (splitSlash key).map .normal :=
  components_of_parts valid.parts

theorem validateBlobKey_ok : validateBlobKey key = .ok () ↔ ValidKey key := by
  constructor
  · intro accepted
    unfold validateBlobKey at accepted
    split at accepted
    · cases accepted
    next clean =>
      simp only [not_or, Bool.not_eq_true, List.any_eq_false, decide_eq_true_eq] at clean
      exact ⟨clean.2.1, clean.2.2.1, clean.2.2.2⟩
  · intro valid
    have clean : ¬ (key = "" ∨ '\\' ∈ key.toList ∨ Char.ofNat 0 ∈ key.toList ∨
        (splitSlash key).any (fun part => part = "" ∨ part = "." ∨ part = "..") = true) := by
      have some : key ≠ "" := by
        rintro rfl
        exact (valid.parts "" (by decide)).1 rfl
      simp only [not_or, Bool.not_eq_true, List.any_eq_false, decide_eq_true_eq]
      exact ⟨some, valid.backslash, valid.zero, valid.parts⟩
    -- the component checks repeat what the check of the parts has established
    have relative : ¬ (components key).head? = some .rootDir := by
      rw [valid.components, List.head?_map]
      cases (splitSlash key).head? <;> simp
    have normal : ¬ (components key).any (fun component => !component.isNormal) = true := by
      rw [valid.components]
      simp [Component.isNormal]
    unfold validateBlobKey
    rw [if_neg clean, if_neg relative, if_neg normal]

theorem validateObjectBucket_ok {bucket : String} :
    validateObjectBucket bucket = .ok () ↔ ValidKey bucket ∧ '/' ∉ bucket.toList := by
  rw [validateObjectBucket, bind_eq_ok]
  simp only [require_eq_ok, Bool.not_eq_true', List.contains_eq_mem, decide_eq_false_iff_not]
  constructor
  · rintro ⟨_, accepted, plain⟩
    exact ⟨validateBlobKey_ok.mp accepted, plain⟩
  · rintro ⟨valid, plain⟩
    exact ⟨(), validateBlobKey_ok.mpr valid, plain⟩

theorem join_valid (valid : ValidKey key) (base : PathBuf) :
    join base key = base ++ (splitSlash key).map .normal := by
  unfold join
  rw [valid.components]
  split
  next rest first =>
    cases parts : splitSlash key <;> simp [parts] at first
  next => simp

end GraphqlOrm.Storage
