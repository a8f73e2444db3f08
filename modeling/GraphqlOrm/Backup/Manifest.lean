import GraphqlOrm.Backup.Repository
import GraphqlOrm.Foundation.Lineage

/-!
# Manifest chains

A manifest is checked against its own checksum when it is read. A snapshot is
restored along the chain of its parents, down to a full snapshot, and the chain as a
whole is checked before it is used.
-/
namespace GraphqlOrm.Backup

open Outcome Lineage
open Lease (Uuid)
open Storage (Bytes)

/-! ### Reading -/

section Reading

variable (codec : Codec) (limits : BackupCapacityLimits)

def manifestChecksum (manifest : BackupSnapshotManifest) : String :=
  codec.sha256 (codec.manifestCompact { manifest with checksum := "" })

def setManifestChecksum (manifest : BackupSnapshotManifest) : BackupSnapshotManifest :=
  { manifest with checksum := manifestChecksum codec manifest }

def verifyManifestChecksum (manifest : BackupSnapshotManifest) : Except BackupError Unit :=
  let actual := manifestChecksum codec manifest
  if actual = manifest.checksum then .ok ()
  else .error (.checksumMismatch (snapshotManifestKey manifest.snapshotId) manifest.checksum actual)

def loadManifest (repository : Repository) (snapshotId : Uuid) :
    Except BackupError BackupSnapshotManifest := do
  let stored ← repository.getBlob (snapshotManifestKey snapshotId)
  let bytes ← collectBackupStream stored limits.bufferedBytes
  let manifest ← okOr .serialization (codec.readManifest bytes)
  verifyManifestChecksum codec manifest
  return manifest

end Reading

/-! ### Validity -/

def BackupKind.isRoot : BackupKind → Bool
  | full => true
  | syntheticFull => true
  | incremental => false

def duplicateSnapshot (snapshotId : Uuid) : BackupError :=
  .invalidManifestChain s!"duplicate snapshot id {UuidText.hyphenated snapshotId}"

/-- The text of an error about a manifest and its parent. -/
def linkError (parent child : BackupSnapshotManifest) (between : String) : BackupError :=
  .invalidManifestChain
    s!"snapshot {UuidText.hyphenated child.snapshotId} {between} {UuidText.hyphenated parent.snapshotId}"

def validateLink (seen : List Uuid) (parent child : BackupSnapshotManifest) :
    Except BackupError Unit :=
  if child.snapshotId ∈ seen then .error (duplicateSnapshot child.snapshotId)
  else if child.parentSnapshotId ≠ some parent.snapshotId then
    .error (linkError parent child "does not reference expected parent")
  else if child.appId ≠ parent.appId then
    .error (linkError parent child "app_id does not match parent")
  else if child.databaseBackend ≠ parent.databaseBackend then
    .error (linkError parent child "database backend does not match parent")
  else if child.graphqlOrmSchemaHash ≠ parent.graphqlOrmSchemaHash then
    .error (linkError parent child "schema hash does not match parent")
  else .ok ()

def validateLinks : List Uuid → BackupSnapshotManifest → List BackupSnapshotManifest →
    Except BackupError Unit
  | _, _, [] => .ok ()
  | seen, parent, child :: rest => do
    validateLink seen parent child
    validateLinks (child.snapshotId :: seen) child rest

def validateManifestChain : List BackupSnapshotManifest → Except BackupError Unit
  | [] => .error (.invalidManifestChain "manifest chain is empty")
  | first :: rest =>
    if first.backupKind.isRoot = false then
      .error (.invalidManifestChain
        "manifest chain does not start with a full or synthetic-full snapshot")
    else if first.parentSnapshotId.isSome then
      .error (.invalidManifestChain "root full snapshot must not have a parent")
    else validateLinks [first.snapshotId] first rest

/-- A manifest and its parents in restore order. The walk meets a manifest twice, or
one that is absent, before its fuel runs out (`loadManifestChain_walk`). -/
def loadManifestChain (codec : Codec) (limits : BackupCapacityLimits) (repository : Repository)
    (snapshotId : Uuid) : Except BackupError (List BackupSnapshotManifest) := do
  let walked := walk (loadManifest codec limits repository)
    BackupSnapshotManifest.parentSnapshotId duplicateSnapshot (repository.keys.length + 1) []
    snapshotId
  let newest ← walked.getD (.error (duplicateSnapshot snapshotId))
  validateManifestChain newest.reverse
  return newest.reverse

/-- What a manifest has in common with its parent. -/
structure Follows (parent child : BackupSnapshotManifest) : Prop where
  link : child.parentSnapshotId = some parent.snapshotId
  appId : child.appId = parent.appId
  backend : child.databaseBackend = parent.databaseBackend
  schemaHash : child.graphqlOrmSchemaHash = parent.graphqlOrmSchemaHash

variable {parent child : BackupSnapshotManifest}

theorem validateLink_eq_ok {seen : List Uuid} {u : Unit} :
    validateLink seen parent child = .ok u ↔ child.snapshotId ∉ seen ∧ Follows parent child := by
  unfold validateLink
  constructor
  · intro accepted
    split at accepted
    · cases accepted
    next fresh =>
    split at accepted
    · cases accepted
    next link =>
    split at accepted
    · cases accepted
    next appId =>
    split at accepted
    · cases accepted
    next backend =>
    split at accepted
    · cases accepted
    next schemaHash =>
    exact ⟨fresh, not_not.mp link, not_not.mp appId, not_not.mp backend, not_not.mp schemaHash⟩
  · rintro ⟨fresh, link, appId, backend, schemaHash⟩
    rw [if_neg fresh, if_neg (not_not.mpr link), if_neg (not_not.mpr appId),
      if_neg (not_not.mpr backend), if_neg (not_not.mpr schemaHash)]

theorem validateLinks_append {seen : List Uuid} {rest : List BackupSnapshotManifest} :
    validateLinks seen parent (rest ++ [child]) = .ok () ↔
      validateLinks seen parent rest = .ok () ∧ child.snapshotId ∉ seen ∧
        (∀ manifest ∈ rest, child.snapshotId ≠ manifest.snapshotId) ∧
          Follows (rest.getLastD parent) child := by
  induction rest generalizing seen parent with
  | nil =>
    simp only [List.nil_append, validateLinks, bind_eq_ok, validateLink_eq_ok]
    simp
  | cons next rest ih =>
    simp only [List.cons_append, validateLinks, bind_eq_ok, ih, validateLink_eq_ok,
      List.mem_cons, not_or, forall_eq_or_imp, List.getLastD_cons]
    constructor
    · rintro ⟨_, linked, others, ⟨apart, unseen⟩, distinct, follows⟩
      exact ⟨⟨(), linked, others⟩, unseen, ⟨apart, distinct⟩, follows⟩
    · rintro ⟨⟨_, linked, others⟩, unseen, ⟨apart, distinct⟩, follows⟩
      exact ⟨(), linked, others, ⟨apart, unseen⟩, distinct, follows⟩

theorem validateManifestChain_single {manifest : BackupSnapshotManifest} :
    validateManifestChain [manifest] = .ok () ↔
      manifest.backupKind.isRoot = true ∧ manifest.parentSnapshotId = none := by
  unfold validateManifestChain
  cases root : manifest.backupKind.isRoot <;> cases orphan : manifest.parentSnapshotId <;>
    simp [validateLinks, root, orphan]

/-- A chain grows by a manifest that follows its newest one. -/
theorem validateManifestChain_append {chain : List BackupSnapshotManifest} :
    validateManifestChain (chain ++ [parent] ++ [child]) = .ok () ↔
      validateManifestChain (chain ++ [parent]) = .ok () ∧
        (∀ manifest ∈ chain ++ [parent], child.snapshotId ≠ manifest.snapshotId) ∧
          Follows parent child := by
  obtain ⟨first, rest, split⟩ : ∃ first rest, chain ++ [parent] = first :: rest :=
    List.exists_cons_of_ne_nil (by simp)
  have last : rest.getLastD first = parent := by
    have ends := congrArg List.getLast? split
    rw [List.getLast?_append, List.getLast?_singleton, Option.some_or, List.getLast?_cons] at ends
    rw [List.getLastD_eq_getLast?]
    exact (Option.some.inj ends).symm
  rw [split, List.cons_append]
  simp only [validateManifestChain]
  by_cases leaf : first.backupKind.isRoot = false
  · simp [leaf]
  · by_cases child : first.parentSnapshotId.isSome = true
    · simp [leaf, child]
    · simp only [if_neg leaf, if_neg child, validateLinks_append, last, List.mem_singleton,
        List.forall_mem_cons, and_assoc]

/-! ### Loading -/

section Loading

variable {codec : Codec} {limits : BackupCapacityLimits} {repository repository' : Repository}
  {snapshotId parentId : Uuid} {manifest : BackupSnapshotManifest}
  {chain : List BackupSnapshotManifest}

theorem verifyManifestChecksum_eq_ok {u : Unit} :
    verifyManifestChecksum codec manifest = .ok u ↔
      manifestChecksum codec manifest = manifest.checksum := by
  unfold verifyManifestChecksum
  by_cases same : manifestChecksum codec manifest = manifest.checksum <;> simp [same]

theorem loadManifest_eq_ok :
    loadManifest codec limits repository snapshotId = .ok manifest ↔
      ∃ stored, repository.get? (snapshotManifestKey snapshotId) = some stored ∧
        limits.bufferedBytes.Admits stored.length ∧ codec.readManifest stored = some manifest ∧
          manifestChecksum codec manifest = manifest.checksum := by
  simp only [loadManifest, Repository.getBlob, collectBackupStream, bind_eq_ok, okOr_eq_ok,
    verifyManifestChecksum_eq_ok, BackupByteLimit.check_eq_ok, pure, Except.pure, Except.ok.injEq]
  constructor
  · rintro ⟨stored, found, _, ⟨_, admitted, rfl⟩, _, read, _, verified, rfl⟩
    exact ⟨stored, found, admitted, read, verified⟩
  · rintro ⟨stored, found, admitted, read, verified⟩
    exact ⟨stored, found, stored, ⟨(), admitted, rfl⟩, manifest, read, (), verified, rfl⟩

/-- A manifest is read from its own blob and nothing else. -/
theorem loadManifest_congr
    (same : repository'.get? (snapshotManifestKey snapshotId) =
      repository.get? (snapshotManifestKey snapshotId)) :
    loadManifest codec limits repository' snapshotId =
      loadManifest codec limits repository snapshotId := by
  simp only [loadManifest, Repository.getBlob, same]

theorem loadManifest_key (loaded : loadManifest codec limits repository snapshotId = .ok manifest) :
    snapshotManifestKey snapshotId ∈ repository.keys := by
  obtain ⟨stored, found, _⟩ := loadManifest_eq_ok.mp loaded
  exact OrderedMap.mem_keys.mpr (OrderedMap.contains_iff.mpr ⟨stored, found⟩)

theorem loadManifestChain_walk (repository : Repository) (snapshotId : Uuid) :
    walk (loadManifest codec limits repository) BackupSnapshotManifest.parentSnapshotId
      duplicateSnapshot (repository.keys.length + 1) [] snapshotId ≠ none :=
  walk_returns (fun _ _ => snapshotManifestKey_inj.mp) (fun _ _ => loadManifest_key)
    (Nat.lt_succ_self _) [] snapshotId

/-- A chain is a line of manifests that passes its checks. -/
theorem loadManifestChain_eq_ok :
    loadManifestChain codec limits repository snapshotId = .ok chain ↔
      ∃ ids, Line (loadManifest codec limits repository) BackupSnapshotManifest.parentSnapshotId
        snapshotId ids chain.reverse ∧ ids.Nodup ∧ validateManifestChain chain = .ok () := by
  unfold loadManifestChain
  constructor
  · intro done
    obtain ⟨newest, walked, rest⟩ := bind_eq_ok.mp done
    obtain ⟨_, valid, same⟩ := bind_eq_ok.mp rest
    cases same
    cases returned : walk (loadManifest codec limits repository)
        BackupSnapshotManifest.parentSnapshotId duplicateSnapshot (repository.keys.length + 1) []
        snapshotId with
    | none => exact absurd returned (loadManifestChain_walk repository snapshotId)
    | some result =>
      rw [returned, Option.getD_some] at walked
      rw [walked] at returned
      obtain ⟨ids, line, nodup, _, _⟩ := walk_eq_ok.mp returned
      exact ⟨ids, by rwa [List.reverse_reverse], nodup, valid⟩
  · rintro ⟨ids, line, nodup, valid⟩
    have short := line.length_le (fun _ _ => snapshotManifestKey_inj.mp)
      (fun _ _ => loadManifest_key) nodup
    refine bind_eq_ok.mpr ⟨chain.reverse, ?_, bind_eq_ok.mpr ⟨(), ?_, ?_⟩⟩
    · rw [walk_eq_ok.mpr ⟨ids, line, nodup, fun _ _ => List.not_mem_nil, Nat.le_succ_of_le short⟩,
        Option.getD_some]
    · rwa [List.reverse_reverse]
    · rw [List.reverse_reverse]
      rfl

/-- Along a valid chain every manifest carries the identifier that it was read under, the
newest one if it does. -/
theorem snapshotId_mem_of_line {ids : List Uuid} {records : List BackupSnapshotManifest}
    (line : Line (loadManifest codec limits repository) BackupSnapshotManifest.parentSnapshotId
      snapshotId ids (manifest :: records))
    (valid : validateManifestChain (manifest :: records).reverse = .ok ())
    (own : manifest.snapshotId = snapshotId) :
    ∀ record ∈ manifest :: records, record.snapshotId ∈ ids := by
  induction records generalizing snapshotId ids manifest with
  | nil =>
    intro record mem
    rw [List.mem_singleton.mp mem, own]
    exact line.starts
  | cons parent older ih =>
    obtain ⟨later, rfl, loaded, ⟨_, impossible, _⟩ | ⟨next, link, rest⟩⟩ := line.named
    · cases impossible
    rw [List.reverse_cons, List.reverse_cons] at valid
    obtain ⟨shorter, _, follows⟩ := validateManifestChain_append.mp valid
    -- The parent is read under the identifier that the child names.
    have parentOwn : parent.snapshotId = next := by
      have named := follows.link
      rw [link] at named
      exact (Option.some.inj named).symm
    intro record mem
    rcases List.mem_cons.mp mem with rfl | inside
    · exact own ▸ .head _
    · refine List.mem_cons_of_mem _ (ih rest ?_ parentOwn record inside)
      rw [List.reverse_cons]
      exact shorter

theorem loadManifestChain_root (loaded : loadManifest codec limits repository snapshotId = .ok manifest)
    (root : manifest.backupKind.isRoot = true) (orphan : manifest.parentSnapshotId = none) :
    loadManifestChain codec limits repository snapshotId = .ok [manifest] :=
  loadManifestChain_eq_ok.mpr ⟨[snapshotId], .root loaded orphan, by simp,
    validateManifestChain_single.mpr ⟨root, orphan⟩⟩

/-- A manifest put on top of a repository has a chain if and only if its parent had one that it
follows. -/
theorem loadManifestChain_child
    (loaded : loadManifest codec limits repository' snapshotId = .ok manifest)
    (own : manifest.snapshotId = snapshotId) (link : manifest.parentSnapshotId = some parentId)
    (others : ∀ i, i ≠ snapshotId →
      loadManifest codec limits repository' i = loadManifest codec limits repository i)
    (fresh : ∀ other, loadManifest codec limits repository snapshotId ≠ .ok other) :
    (∃ chain, loadManifestChain codec limits repository' snapshotId = .ok chain) ↔
      ∃ chain parent, loadManifestChain codec limits repository parentId = .ok (chain ++ [parent]) ∧
        Follows parent manifest := by
  simp only [loadManifestChain_eq_ok]
  constructor
  · rintro ⟨whole, ids, line, nodup, valid⟩
    obtain ⟨records, newestFirst⟩ : ∃ records, whole.reverse = records := ⟨_, rfl⟩
    rw [newestFirst] at line
    rw [← List.reverse_reverse whole, newestFirst] at valid
    cases line with
    | root read orphan =>
      rw [loaded] at read
      cases read
      rw [link] at orphan
      cases orphan
    | @child _ next record ids records read named rest =>
      rw [loaded] at read
      cases read
      rw [link] at named
      cases named
      obtain ⟨outside, nodup⟩ := List.nodup_cons.mp nodup
      have before := rest.congr (loadManifest codec limits repository) fun i mem =>
        (others i fun same => outside (same ▸ mem)).symm
      obtain ⟨parent, older, rfl⟩ : ∃ parent older, records = parent :: older := by
        cases rest <;> exact ⟨_, _, rfl⟩
      rw [List.reverse_cons, List.reverse_cons] at valid
      obtain ⟨shorter, _, follows⟩ := validateManifestChain_append.mp valid
      exact ⟨older.reverse, parent, ⟨ids, by simpa using before, nodup, shorter⟩, follows⟩
  · rintro ⟨chain, parent, ⟨ids, line, nodup, valid⟩, follows⟩
    rw [List.reverse_append, List.reverse_singleton, List.singleton_append] at line
    have outside : snapshotId ∉ ids := fun mem => by
      obtain ⟨record, _, read⟩ := line.loads _ mem
      exact fresh record read
    have parentOwn : parent.snapshotId = parentId := by
      have named := follows.link
      rw [link] at named
      exact (Option.some.inj named).symm
    have carried := snapshotId_mem_of_line line (by simpa using valid) parentOwn
    have after := line.congr (loadManifest codec limits repository') fun i mem =>
      others i fun same => outside (same ▸ mem)
    refine ⟨chain ++ [parent] ++ [manifest], snapshotId :: ids, ?_, ?_, ?_⟩
    · simpa using Line.child loaded link after
    · exact List.nodup_cons.mpr ⟨outside, nodup⟩
    · refine validateManifestChain_append.mpr ⟨valid, fun record mem same => ?_, follows⟩
      have inside := carried record (by simpa [or_comm] using mem)
      rw [← same, own] at inside
      exact outside inside

end Loading

end GraphqlOrm.Backup
