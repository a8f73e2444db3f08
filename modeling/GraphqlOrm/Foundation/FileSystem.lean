import GraphqlOrm.Foundation.Faulty
import Mathlib.Algebra.Group.Nat.Defs
import Mathlib.Data.Set.Defs
import Mathlib.Logic.Function.Basic

/-!
# Files

The calls that a program makes on a tree of files, each of which may fail. Only
files are represented: making a directory changes nothing, and a call that meets
a directory where it needs a file is one that fails.
-/
namespace FileSystem

open Faulty

abbrev Files (π : Type) : Type := π → Option (List UInt8)

inductive ErrorKind where
  | notFound
  | alreadyExists
  | other
deriving DecidableEq

/-- Why a call fails. Of the bytes that it was to write a part may be stored. -/
structure Fault where
  stored : Option Nat

def maxFileSize : Nat := 2 ^ 63 - 1

abbrev Io (π α : Type) : Type := Action (Files π) Fault ErrorKind α

variable {π : Type} [DecidableEq π]

def Files.put (fs : Files π) (path : π) (bytes : List UInt8) : Files π :=
  Function.update fs path (some bytes)

def Files.erase (fs : Files π) (path : π) : Files π := Function.update fs path none

/-! ### Calls -/

def quiet : Io π Unit :=
  .call fun fault fs => (if fault.isSome then .error .other else .ok (), fs)

/-- `File::create`: an empty file, also in the place of an existing one. -/
def create (path : π) : Io π Unit :=
  .call fun fault fs =>
    if fault.isSome then (.error .other, fs) else (.ok (), fs.put path [])

/-- `write_all` through a handle opened at the path. Once the path is gone the bytes
go to a file that nothing names. -/
def append (path : π) (bytes : List UInt8) : Io π Unit :=
  .call fun fault fs =>
    match fault, fs path with
    | some _, none => (.error .other, fs)
    | some fault, some old =>
      (.error .other, fs.put path (old ++ bytes.take (fault.stored.getD 0)))
    | none, none => (.ok (), fs)
    | none, some old =>
      if old.length + bytes.length ≤ maxFileSize then (.ok (), fs.put path (old ++ bytes))
      else (.error .other, fs)

/-- `fs::write`: create the file and write the bytes. -/
def write (path : π) (bytes : List UInt8) : Io π Unit :=
  .call fun fault fs =>
    match fault with
    | some ⟨none⟩ => (.error .other, fs)
    | some ⟨some n⟩ => (.error .other, fs.put path (bytes.take n))
    | none =>
      if bytes.length ≤ maxFileSize then (.ok (), fs.put path bytes)
      else (.error .other, fs.put path [])

def read (path : π) : Io π (List UInt8) :=
  .call fun fault fs =>
    if fault.isSome then (.error .other, fs)
    else match fs path with
      | some bytes => (.ok bytes, fs)
      | none => (.error .notFound, fs)

/-- `fs::rename`, in place of a file at the target. -/
def rename (source target : π) : Io π Unit :=
  .call fun fault fs =>
    if fault.isSome then (.error .other, fs)
    else match fs source with
      | some bytes => (.ok (), (fs.erase source).put target bytes)
      | none => (.error .notFound, fs)

/-- `fs::copy`. -/
def copy (source target : π) : Io π Unit :=
  .call fun fault fs =>
    match fault, fs source with
    | some ⟨some n⟩, some bytes => (.error .other, fs.put target (bytes.take n))
    | some _, _ => (.error .other, fs)
    | none, some bytes => (.ok (), fs.put target bytes)
    | none, none => (.error .notFound, fs)

/-- `fs::remove_file`. -/
def remove (path : π) : Io π Unit :=
  .call fun fault fs =>
    if fault.isSome then (.error .other, fs)
    else match fs path with
      | some _ => (.ok (), fs.erase path)
      | none => (.error .notFound, fs)

/-! ### What a call leaves alone -/

variable {path : π}

theorem Files.put_of_ne {fs : Files π} {other : π} (apart : other ≠ path) (bytes : List UInt8) :
    fs.put path bytes other = fs other :=
  Function.update_of_ne apart _ _

@[simp] theorem Files.put_self (fs : Files π) (path : π) (bytes : List UInt8) :
    fs.put path bytes path = some bytes :=
  Function.update_self ..

theorem Files.erase_of_ne {fs : Files π} {other : π} (apart : other ≠ path) :
    fs.erase path other = fs other :=
  Function.update_of_ne apart _ _

@[simp] theorem Files.erase_self (fs : Files π) (path : π) : fs.erase path path = none :=
  Function.update_self ..

def AgreeOff (paths : Set π) (fs gs : Files π) : Prop := ∀ p, p ∉ paths → gs p = fs p

variable {paths : Set π} {fs gs : Files π} {ε α : Type}

theorem AgreeOff.put (agree : AgreeOff paths fs gs) (mem : path ∈ paths) (bytes : List UInt8) :
    AgreeOff paths fs (gs.put path bytes) := by
  intro p outside
  have apart : p ≠ path := fun same => outside (same ▸ mem)
  rw [Files.put_of_ne apart]
  exact agree p outside

theorem AgreeOff.erase (agree : AgreeOff paths fs gs) (mem : path ∈ paths) :
    AgreeOff paths fs (gs.erase path) := by
  intro p outside
  have apart : p ≠ path := fun same => outside (same ▸ mem)
  rw [Files.erase_of_ne apart]
  exact agree p outside

/-- Whatever fails, the operation changes files at the given paths only. -/
def Within (paths : Set π) (x : Action (Files π) Fault ε α) : Prop :=
  ∀ fs, Keeps (AgreeOff paths fs) x

omit [DecidableEq π] in
theorem within_quiet : Within paths (quiet : Io π Unit) := fun _ =>
  Keeps.call fun _ _ agree => agree

theorem within_create (mem : path ∈ paths) : Within paths (create path) := fun _ =>
  Keeps.call fun fault gs agree => by
    split
    · exact agree
    · exact agree.put mem _

theorem within_append (mem : path ∈ paths) (bytes : List UInt8) :
    Within paths (append path bytes) := fun _ =>
  Keeps.call fun fault gs agree => by
    split
    · exact agree
    · exact agree.put mem _
    · exact agree
    · split
      · exact agree.put mem _
      · exact agree

theorem within_write (mem : path ∈ paths) (bytes : List UInt8) :
    Within paths (write path bytes) := fun _ =>
  Keeps.call fun fault gs agree => by
    split
    · exact agree
    · exact agree.put mem _
    · split
      · exact agree.put mem _
      · exact agree.put mem _

theorem within_rename {source target : π} (first : source ∈ paths) (second : target ∈ paths) :
    Within paths (rename source target) := fun _ =>
  Keeps.call fun fault gs agree => by
    split
    · exact agree
    · split
      · exact (agree.erase first).put second _
      · exact agree

theorem within_copy {source target : π} (mem : target ∈ paths) :
    Within paths (copy source target) := fun _ =>
  Keeps.call fun fault gs agree => by
    split
    · exact agree.put mem _
    · exact agree
    · exact agree.put mem _
    · exact agree

theorem within_remove (mem : path ∈ paths) : Within paths (remove path) := fun _ =>
  Keeps.call fun fault gs agree => by
    split
    · exact agree
    · split
      · exact agree.erase mem
      · exact agree

omit [DecidableEq π] in
theorem Within.state {x : Action (Files π) Fault ε α} (within : Within paths x)
    (faults : List (Option Fault)) (fs : Files π) {p : π} (outside : p ∉ paths) :
    (x faults fs).state p = fs p :=
  (within fs).state faults (fun _ _ => rfl) p outside

/-! ### What a call does -/

section Triples

variable {pre : Files π → Prop} {failed : ErrorKind → Files π → Prop}

variable {post : Unit → Files π → Prop}

omit [DecidableEq π] in
theorem triple_quiet (ok : ∀ fs, pre fs → post () fs) (error : ∀ fs e, pre fs → failed e fs) :
    Triple pre quiet post failed fun _ => True :=
  Triple.call fun fault fs holds => by
    cases fault with
    | none => exact ⟨ok fs holds, trivial⟩
    | some fault => exact ⟨error fs _ holds, trivial⟩

theorem triple_create (ok : ∀ fs, pre fs → post () (fs.put path []))
    (error : ∀ fs e, pre fs → failed e fs) :
    Triple pre (create path) post failed fun _ => True :=
  Triple.call fun fault fs holds => by
    split
    · exact ⟨error fs _ holds, trivial⟩
    · exact ⟨ok fs holds, trivial⟩

/-- An append to a file that is there. -/
theorem triple_append {old bytes : List UInt8} (there : ∀ fs, pre fs → fs path = some old)
    (ok : ∀ fs, pre fs → old.length + bytes.length ≤ maxFileSize →
      post () (fs.put path (old ++ bytes))) (error : ∀ fs e, pre fs → failed e fs)
    (torn : ∀ fs e more, pre fs → failed e (fs.put path (old ++ more))) :
    Triple pre (append path bytes) post failed fun _ => True :=
  Triple.call fun fault fs holds => by
    rw [there fs holds]
    cases fault with
    | some fault => exact ⟨torn fs _ _ holds, trivial⟩
    | none =>
      simp only
      split
      next fits => exact ⟨ok fs holds fits, trivial⟩
      · exact ⟨error fs _ holds, trivial⟩

theorem triple_write {bytes : List UInt8} (ok : ∀ fs, pre fs → post () (fs.put path bytes))
    (error : ∀ fs e, pre fs → failed e fs)
    (torn : ∀ fs e stored, pre fs → failed e (fs.put path stored)) :
    Triple pre (write path bytes) post failed fun _ => True :=
  Triple.call fun fault fs holds => by
    split
    · exact ⟨error fs _ holds, trivial⟩
    · exact ⟨torn fs _ _ holds, trivial⟩
    · split
      · exact ⟨ok fs holds, trivial⟩
      · exact ⟨torn fs _ _ holds, trivial⟩

theorem triple_rename {source target : π} (ok : ∀ fs bytes, pre fs → fs source = some bytes →
      post () ((fs.erase source).put target bytes)) (error : ∀ fs e, pre fs → failed e fs) :
    Triple pre (rename source target) post failed fun _ => True :=
  Triple.call fun fault fs holds => by
    split
    · exact ⟨error fs _ holds, trivial⟩
    · split
      next bytes found => exact ⟨ok fs bytes holds found, trivial⟩
      · exact ⟨error fs _ holds, trivial⟩

/-- A removal: a file that is not there is reported as such. -/
theorem triple_remove (ok : ∀ fs, pre fs → post () (fs.erase path))
    (error : ∀ fs e, pre fs → failed e fs) :
    Triple pre (remove path) post failed fun _ => True :=
  Triple.call fun fault fs holds => by
    split
    · exact ⟨error fs _ holds, trivial⟩
    · split
      · exact ⟨ok fs holds, trivial⟩
      · exact ⟨error fs _ holds, trivial⟩

omit [DecidableEq π] in
theorem straight_quiet : Straight 1 (quiet : Io π Unit) :=
  Straight.call fun _ _ _ done => by cases done

theorem straight_create (path : π) : Straight 1 (create path) :=
  Straight.call fun _ _ _ done => by cases done

theorem straight_append (path : π) (bytes : List UInt8) : Straight 1 (append path bytes) :=
  Straight.call fun fault fs _ done => by
    cases found : fs path <;> simp [found] at done

theorem straight_write (path : π) (bytes : List UInt8) : Straight 1 (write path bytes) :=
  Straight.call fun fault _ _ done => by
    obtain ⟨stored⟩ := fault
    cases stored <;> cases done

theorem straight_rename (source target : π) : Straight 1 (rename source target) :=
  Straight.call fun _ _ _ done => by cases done

end Triples

end FileSystem
