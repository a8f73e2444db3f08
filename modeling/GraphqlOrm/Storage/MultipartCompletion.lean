import GraphqlOrm.Storage.Multipart

/-!
# Completing a multipart upload

What the checks of a completion establish, which outcomes it has, and why it can be
tried again after an error.
-/
namespace GraphqlOrm.Storage.Multipart

open Outcome FileSystem

/-! ### Removal -/

def Clean (fault : Option (Entry → Bool)) : Prop :=
  ∀ removed, fault = some removed → ∀ entry, removed entry = false

theorem without_none {d : Directory} {removed : Entry → Bool} (none_ : ∀ entry, removed entry = false) :
    d.without removed = d := by
  obtain ⟨manifest, ⟨entries, sorted⟩, data⟩ := d
  simp [Directory.without, none_]

/-- The outcomes of a removal that removes everything or nothing. -/
theorem removeDirAll_clean {fault : Option (Entry → Bool)} (clean : Clean fault) (disk : Disk) :
    (∃ kind, removeDirAll fault disk = (.error kind, disk) ∧
        (kind = .notFound → disk.dir = none)) ∨
      removeDirAll fault disk = (.ok (), { disk with dir := none }) ∧ disk.dir ≠ none := by
  unfold removeDirAll
  cases present : disk.dir with
  | none =>
    cases fault with
    | none | some removed => exact .inl ⟨_, rfl, fun _ => rfl⟩
  | some d =>
    cases fault with
    | none => exact .inr ⟨rfl, Option.some_ne_none d⟩
    | some removed =>
      refine .inl ⟨.other, ?_, fun absurd_ => by cases absurd_⟩
      simp only [without_none (clean removed rfl), ← present]

/-! ### Receipts -/

def Matches (sha256 : Bytes → String) (receipt : PartReceipt) (bytes : Bytes) : Prop :=
  bytes.length = receipt.sizeBytes ∧ sha256 bytes = receipt.sha256

theorem pairwise_of_neighbours {parts : List PartReceipt}
    (neighbours : ∀ pair ∈ parts.zip parts.tail, pair.1.partNumber < pair.2.partNumber) :
    parts.Pairwise fun a b => a.partNumber < b.partNumber := by
  induction parts with
  | nil => exact .nil
  | cons a rest ih =>
    cases rest with
    | nil => exact List.pairwise_singleton _ _
    | cons b others =>
      have later := ih fun pair mem => neighbours pair (.tail _ mem)
      have first : a.partNumber < b.partNumber := neighbours (a, b) (.head _)
      refine List.pairwise_cons.mpr ⟨fun c mem => ?_, later⟩
      rcases List.mem_cons.mp mem with rfl | further
      · exact first
      · exact Nat.lt_trans first ((List.pairwise_cons.mp later).1 c further)

variable {sha256 : Bytes → String} {limits : MultipartLimits} {paths : UploadPaths}
  {handle : MultipartUploadHandle}

theorem verifyReceipts_ok {key : String} {stored given : List PartReceipt} {u : Unit}
    (verified : verifyReceipts key stored given limits = .ok u) :
    given.Pairwise (fun a b => a.partNumber < b.partNumber) ∧
      List.Forall₂ (fun given stored => given.accepts stored = true) given stored := by
  obtain ⟨_, sized, verified⟩ := bind_eq_ok.mp verified
  obtain ⟨_, _, verified⟩ := bind_eq_ok.mp verified
  obtain ⟨_, ascending, verified⟩ := bind_eq_ok.mp verified
  obtain ⟨_, accepted, _⟩ := bind_eq_ok.mp verified
  simp only [require_eq_ok, decide_eq_true_eq] at sized ascending accepted
  refine ⟨pairwise_of_neighbours fun pair mem => ?_, ?_⟩
  · simp only [Bool.not_eq_true', List.any_eq_false, decide_eq_true_eq, not_le] at ascending
    exact ascending pair mem
  · rw [List.forall₂_iff_zip]
    exact ⟨sized.2, fun {a b} mem => List.all_eq_true.mp accepted (a, b) mem⟩

theorem assemble_ok {d : Directory} {parts : List StoredPart} {bytes : Bytes}
    (assembled : assemble sha256 paths handle d parts = .ok bytes) :
    ∃ contents, List.Forall₂ (fun part content => d.data part.dataFile = some content ∧
      Matches sha256 part.receipt content) parts contents ∧ bytes = contents.flatten := by
  induction parts generalizing bytes with
  | nil =>
    cases assembled
    exact ⟨[], .nil, rfl⟩
  | cons part rest ih =>
    obtain ⟨content, read, assembled⟩ := bind_eq_ok.mp assembled
    obtain ⟨_, compared, assembled⟩ := bind_eq_ok.mp assembled
    obtain ⟨others, later, done⟩ := bind_eq_ok.mp assembled
    obtain ⟨contents, each, rfl⟩ := ih later
    rw [okOr_eq_ok] at read
    simp only [require_eq_ok, decide_eq_true_eq] at compared
    cases done
    exact ⟨content :: contents, .cons ⟨read, compared⟩ each, rfl⟩

/-- Given receipts that were accepted for stored ones describe the same bytes. -/
theorem matches_given (hex : ∀ bytes, isSha256Hex (sha256 bytes) = true) {given : List PartReceipt}
    {parts : List StoredPart} {contents : List Bytes} {d : Directory}
    (accepted : List.Forall₂ (fun given stored => given.accepts stored = true) given
      (parts.map (·.receipt)))
    (stored : List.Forall₂ (fun part content => d.data part.dataFile = some content ∧
      Matches sha256 part.receipt content) parts contents) :
    List.Forall₂ (Matches sha256) given contents := by
  induction stored generalizing given with
  | nil =>
    cases accepted
    exact .nil
  | @cons part content _ _ first rest ih =>
    cases accepted with
    | cons accepts others =>
      refine .cons ?_ (ih others)
      obtain ⟨_, size, digest⟩ := first
      simp only [PartReceipt.accepts, Bool.and_eq_true, decide_eq_true_eq, Bool.or_eq_true]
        at accepts
      refine ⟨size.trans accepts.1.1.2.symm, ?_⟩
      rcases accepts.2 with empty | same
      · -- a digest is never the empty text
        have full := hex content
        rw [digest, empty] at full
        exact absurd full (by decide)
      · exact digest.trans same.symm

/-! ### Outcomes -/

section

variable {given : List PartReceipt} {faults : CompleteFaults} {disk : Disk} {manifest : Manifest}
    {bytes : Bytes}
    (prepared : completePrepare sha256 limits paths handle given faults disk = .ok (manifest, bytes))
include prepared

theorem completePrepare_ok :
    ∃ d, disk.dir = some d ∧ d.manifest = some manifest ∧ manifest.key = handle.key ∧
      verifyReceipts handle.key (d.receipts.values.map (·.receipt)) given limits = .ok () ∧
      assemble sha256 paths handle d d.receipts.values = .ok bytes := by
  obtain ⟨_, _, prepared⟩ := bind_eq_ok.mp prepared
  obtain ⟨d, present, prepared⟩ := bind_eq_ok.mp prepared
  obtain ⟨found, described, prepared⟩ := bind_eq_ok.mp prepared
  obtain ⟨_, _, prepared⟩ := bind_eq_ok.mp prepared
  obtain ⟨_, verified, prepared⟩ := bind_eq_ok.mp prepared
  obtain ⟨_, _, prepared⟩ := bind_eq_ok.mp prepared
  obtain ⟨_, assembled, prepared⟩ := bind_eq_ok.mp prepared
  obtain ⟨_, _, done⟩ := bind_eq_ok.mp prepared
  rw [okOr_eq_ok] at present described
  cases done
  rw [Option.filter_eq_some_iff, decide_eq_true_eq] at described
  exact ⟨d, present, described.1, described.2, verified, assembled⟩

/-- Preparing again, with nothing failing. -/
theorem completePrepare_again {later : Disk} (same : later.dir = disk.dir) :
    completePrepare sha256 limits paths handle given {} later = .ok (manifest, bytes) := by
  obtain ⟨d, present, described, key, verified, assembled⟩ := completePrepare_ok prepared
  have kept : (some manifest).filter (fun m => decide (m.key = handle.key)) = some manifest := by
    rw [Option.filter_eq_some_iff, decide_eq_true_eq]
    exact ⟨rfl, key⟩
  simp only [completePrepare, same, present, described, kept, verified, assembled, okOr, require,
    bind, Except.bind, pure, Except.pure, Bool.not_false, if_true]

end

theorem completeMultipart_cases (given : List PartReceipt) {faults : CompleteFaults}
    (clean : Clean faults.remove) (disk : Disk) :
    (∃ e, completeMultipart sha256 limits paths handle given faults disk = (.error e, disk)) ∨
    ∃ d manifest bytes target, disk.dir = some d ∧
      completePrepare sha256 limits paths handle given faults disk = .ok (manifest, bytes) ∧
      publish sha256 paths handle (manifest.ifNotExists || handle.ifNotExists) bytes faults
        disk.target = .ok target ∧
      ((∃ e, completeMultipart sha256 limits paths handle given faults disk =
          (.error e, ⟨some d, target⟩)) ∨
        completeMultipart sha256 limits paths handle given faults disk =
          (.ok ⟨bytes.length, sha256 bytes⟩, ⟨none, target⟩)) := by
  unfold completeMultipart
  cases prepared : completePrepare sha256 limits paths handle given faults disk with
  | error e => exact .inl ⟨e, rfl⟩
  | ok done =>
    obtain ⟨manifest, bytes⟩ := done
    simp only
    cases published : publish sha256 paths handle (manifest.ifNotExists || handle.ifNotExists) bytes
        faults disk.target with
    | error e => exact .inl ⟨e, rfl⟩
    | ok target =>
      obtain ⟨d, present, _⟩ := completePrepare_ok prepared
      refine .inr ⟨d, manifest, bytes, target, present, rfl, published, ?_⟩
      simp only
      split
      · exact .inl ⟨_, by rw [present]⟩
      · rcases removeDirAll_clean clean { disk with target := target } with
          ⟨kind, failed, _⟩ | ⟨done, _⟩
        · rw [failed]
          exact .inl ⟨_, by rw [present]⟩
        · rw [done]
          exact .inr rfl

section

variable {conditional : Bool} {bytes : Bytes} {faults : CompleteFaults}
    {target published : Option Bytes}
    (done : publish sha256 paths handle conditional bytes faults target = .ok published)
include done

/-- What is published: the assembled bytes, or an object of the same size and digest that
was there. -/
theorem publish_ok :
    published = some bytes ∨ ∃ old, target = some old ∧ published = some old ∧
      old.length = bytes.length ∧ sha256 old = sha256 bytes := by
  unfold publish at done
  split at done
  · cases done
  split at done
  · split at done
    · cases done
      exact .inl rfl
    next old =>
      split at done
      · cases done
      split at done
      next same =>
        cases done
        exact .inr ⟨old, rfl, rfl, same⟩
      · cases done
  · cases done
    exact .inl rfl

/-- What was published is taken for its own by a later attempt. -/
theorem publish_again :
    ∃ again, publish sha256 paths handle conditional bytes {} published = .ok again := by
  unfold publish
  cases conditional with
  | false => exact ⟨_, rfl⟩
  | true =>
    rcases publish_ok done with rfl | ⟨old, _, rfl, size, digest⟩
    · exact ⟨some bytes, by simp only [Bool.false_eq_true, if_false, if_true, and_self]⟩
    · exact ⟨some old, by simp only [Bool.false_eq_true, if_false, if_true, size, digest, and_self]⟩

end

/-- After an error the parts are all there, and if an object was published the same
call succeeds once nothing fails. -/
theorem completeMultipart_error {given : List PartReceipt} {faults : CompleteFaults}
    (clean : Clean faults.remove) {disk : Disk} {e : StorageError}
    (failed : (completeMultipart sha256 limits paths handle given faults disk).1 = .error e) :
    let after := (completeMultipart sha256 limits paths handle given faults disk).2
    after.dir = disk.dir ∧ (after.target ≠ disk.target → ∃ outcome,
      (completeMultipart sha256 limits paths handle given {} after).1 = .ok outcome) := by
  intro after
  rcases @completeMultipart_cases sha256 limits paths handle given faults clean disk with
    ⟨e', same⟩ | ⟨d, manifest, bytes, target, present, prepared, published, outcome⟩
  · have unchanged : after = disk := congrArg Prod.snd same
    rw [unchanged]
    exact ⟨rfl, fun changed => absurd rfl changed⟩
  rcases outcome with ⟨e', left⟩ | done
  · have published_ : after = ⟨some d, target⟩ := congrArg Prod.snd left
    rw [published_]
    refine ⟨present.symm, fun _ => ?_⟩
    have again : completePrepare sha256 limits paths handle given {} ⟨some d, target⟩ =
        .ok (manifest, bytes) := completePrepare_again prepared present.symm
    obtain ⟨target', republished⟩ := publish_again published
    exact ⟨⟨bytes.length, sha256 bytes⟩, by
      simp only [completeMultipart, again, republished, Bool.false_eq_true, if_false, removeDirAll]⟩
  · rw [done] at failed
    cases failed

/-- What a completion publishes or returns as published. -/
theorem completeMultipart_publishes (hex : ∀ bytes, isSha256Hex (sha256 bytes) = true)
    {given : List PartReceipt} {faults : CompleteFaults} (clean : Clean faults.remove) {disk : Disk} :
    let done := completeMultipart sha256 limits paths handle given faults disk
    done.2.target ≠ disk.target ∨ (∃ outcome, done.1 = .ok outcome) →
      given.Pairwise (fun a b => a.partNumber < b.partNumber) ∧ ∃ contents,
        List.Forall₂ (Matches sha256) given contents ∧
        (done.2.target = some contents.flatten ∨ ∃ old, disk.target = some old ∧
          done.2.target = some old ∧ old.length = contents.flatten.length ∧
            sha256 old = sha256 contents.flatten) ∧
        ∀ outcome, done.1 = .ok outcome →
          outcome = ⟨contents.flatten.length, sha256 contents.flatten⟩ := by
  intro done effect
  rcases @completeMultipart_cases sha256 limits paths handle given faults clean disk with
    ⟨e', same⟩ | ⟨d, manifest, bytes, target, present, prepared, published, outcome⟩
  · simp only [done, same, ne_eq, not_true_eq_false, false_or] at effect
    obtain ⟨_, impossible⟩ := effect
    cases impossible
  obtain ⟨d', present', _, _, verified, assembled⟩ := completePrepare_ok prepared
  obtain ⟨ascending, accepted⟩ := verifyReceipts_ok verified
  obtain ⟨contents, stored, rfl⟩ := assemble_ok assembled
  have target_eq : done.2.target = target := by
    rcases outcome with ⟨e, left⟩ | left <;> simp only [done, left]
  refine ⟨ascending, contents, matches_given hex accepted stored, ?_, fun returned value => ?_⟩
  · rw [target_eq]
    rcases publish_ok published with rfl | ⟨old, before, rfl, same⟩
    · exact .inl rfl
    · exact .inr ⟨old, before, rfl, same⟩
  · rcases outcome with ⟨e, left⟩ | left
    · simp only [done, left] at value
      cases value
    · simp only [done, left] at value
      exact (Except.ok.inj value).symm

end GraphqlOrm.Storage.Multipart
