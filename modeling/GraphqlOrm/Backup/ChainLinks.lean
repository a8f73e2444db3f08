import GraphqlOrm.Backup.CreationRuns
import GraphqlOrm.Backup.SnapshotJson

/-!
# Chains of new snapshots

Whether the chain of a snapshot that was just written can be loaded. The checks that decide it are
made on reading only: a creation does not look at the parent that its manifest names.
-/
namespace GraphqlOrm.Backup

open Outcome Faulty
open Lease (Uuid)

/-- The snapshot has the parent that its manifest names, of the same application and schema. -/
def Creation.Linked (codec : Codec) (limits : BackupCapacityLimits) (repository : Repository) :
    Creation → Prop
  | full .. => True
  | incremental _ database _ request _ _ =>
    ∃ schema chain parent, database.schemaSnapshot = .ok schema ∧
      loadManifestChain codec limits repository request.parentSnapshotId =
        .ok (chain ++ [parent]) ∧
      parent.snapshotId = request.parentSnapshotId ∧ parent.appId = request.appId ∧
      parent.databaseBackend = schema.backend ∧ parent.graphqlOrmSchemaHash = schema.schemaHash
  | compact .. => True

section Written

variable {codec : Codec} {limits : BackupCapacityLimits} {creation : Creation}
  {origin repository : Repository} {manifest : BackupSnapshotManifest}

/-- The new manifest is read back, if the repository's own limit lets it. -/
theorem Creation.Written.loadManifest_eq_ok (reads : codec.ReadsManifests)
    (written : creation.Written codec limits origin manifest repository) {other : BackupSnapshotManifest} :
    loadManifest codec limits repository creation.snapshotId = .ok other ↔
      limits.bufferedBytes.Admits (codec.manifestPretty manifest).length ∧ other = manifest := by
  rw [Backup.loadManifest_eq_ok, written.stored]
  constructor
  · rintro ⟨stored, same, admitted, read, _⟩
    cases same
    rw [reads manifest] at read
    exact ⟨admitted, (Option.some.inj read).symm⟩
  · rintro ⟨admitted, rfl⟩
    exact ⟨_, rfl, admitted, reads other, written.signed⟩

/-- The other manifests are the ones from before. -/
theorem Creation.Written.loadManifest_others
    (written : creation.Written codec limits origin manifest repository) {snapshotId : Uuid}
    (other : snapshotId ≠ creation.snapshotId) :
    loadManifest codec limits repository snapshotId = loadManifest codec limits origin snapshotId := by
  refine written.touches.loadManifest_eq codec limits ?_
  rintro (payload | same)
  · exact manifestKey_not_payload _ _ payload
  · exact other (snapshotManifestKey_inj.mp same)

theorem loadManifestChain_loads {snapshotId : Uuid} {chain : List BackupSnapshotManifest}
    (loaded : loadManifestChain codec limits repository snapshotId = .ok chain) :
    ∃ manifest, loadManifest codec limits repository snapshotId = .ok manifest := by
  obtain ⟨ids, line, _, _⟩ := loadManifestChain_eq_ok.mp loaded
  obtain ⟨manifest, _, read⟩ := line.loads snapshotId line.starts
  exact ⟨manifest, read⟩

/-- The newest manifest of a chain is the one that was asked for. -/
theorem loadManifest_of_last {snapshotId : Uuid} {chain : List BackupSnapshotManifest}
    {newest : BackupSnapshotManifest}
    (loaded : loadManifestChain codec limits repository snapshotId = .ok (chain ++ [newest])) :
    loadManifest codec limits repository snapshotId = .ok newest := by
  obtain ⟨ids, line, _, _⟩ := loadManifestChain_eq_ok.mp loaded
  rw [List.reverse_append, List.reverse_singleton, List.singleton_append] at line
  obtain ⟨_, _, read, _⟩ := line.named
  exact read

theorem Creation.Written.chain_iff (reads : codec.ReadsManifests)
    (fresh : origin.get? (snapshotManifestKey creation.snapshotId) = none)
    (written : creation.Written codec limits origin manifest repository) :
    (∃ chain, loadManifestChain codec limits repository creation.snapshotId = .ok chain) ↔
      limits.bufferedBytes.Admits (codec.manifestPretty manifest).length ∧
        creation.Linked codec limits origin := by
  by_cases admitted : limits.bufferedBytes.Admits (codec.manifestPretty manifest).length
  swap
  · refine iff_of_false ?_ fun both => admitted both.1
    rintro ⟨chain, loaded⟩
    obtain ⟨other, read⟩ := loadManifestChain_loads loaded
    exact admitted ((written.loadManifest_eq_ok reads).mp read).1
  have own := (written.loadManifest_eq_ok reads).mpr ⟨admitted, rfl⟩
  have describes := written.describes
  rw [and_iff_right admitted]
  cases creation with
  | full =>
    obtain ⟨schema, tables, objects, _, rfl⟩ := describes
    exact iff_of_true ⟨_, loadManifestChain_root own rfl rfl⟩ trivial
  | compact =>
    obtain ⟨latest, tables, objects, rfl⟩ := describes
    exact iff_of_true ⟨_, loadManifestChain_root own rfl rfl⟩ trivial
  | incremental now database objects request options choose =>
    obtain ⟨schema, changes, entries, tombstones, described, rfl⟩ := describes
    have absent (other : BackupSnapshotManifest) :
        loadManifest codec limits origin request.snapshotId ≠ .ok other := by
      intro read
      obtain ⟨stored, found, _⟩ := Backup.loadManifest_eq_ok.mp read
      rw [show origin.get? (snapshotManifestKey request.snapshotId) = none from fresh] at found
      cases found
    refine (loadManifestChain_child own rfl rfl (fun i other => written.loadManifest_others other)
      absent).trans ?_
    -- What the manifest has from the request and the schema is what its parent must have too.
    constructor
    · rintro ⟨chain, parent, loaded, follows⟩
      exact ⟨schema, chain, parent, described, loaded, (Option.some.inj follows.link).symm,
        follows.appId.symm, follows.backend.symm, follows.schemaHash.symm⟩
    · rintro ⟨_, chain, parent, same, loaded, link, appId, backend, schemaHash⟩
      rw [described] at same
      cases same
      exact ⟨chain, parent, loaded, congrArg some link.symm, appId.symm, backend.symm,
        schemaHash.symm⟩

end Written

/-- A creation that returns its manifest has written a snapshot whose chain loads if and only if
the snapshot has the parent that it names. -/
theorem chain_loads_iff (codec : Codec) (reads : codec.ReadsManifests)
    (limits : BackupCapacityLimits) (creation : Creation) (repository : Repository)
    (fresh : repository.get? (snapshotManifestKey creation.snapshotId) = none)
    (faults : List (Option Fault)) (manifest : BackupSnapshotManifest)
    (returned : (creation.run codec limits faults repository).value = .ok manifest) :
    (∃ chain, loadManifestChain codec limits (creation.run codec limits faults repository).state
        creation.snapshotId = .ok chain) ↔
      limits.bufferedBytes.Admits (codec.manifestPretty manifest).length ∧
        creation.Linked codec limits repository :=
  ((triple_creation limits creation repository).returns faults repository rfl manifest returned).chain_iff
    reads fresh

theorem exists_of_isOk {α : Type} {result : Except BackupError α} (done : result.isOk = true) :
    ∃ a, result = .ok a := by
  cases result with
  | error e => cases done
  | ok a => exact ⟨a, rfl⟩

/-! ### An incremental snapshot of another application -/

def emptyDatabase : GraphqlOrmBackupAdapter where
  schemaSnapshot := .ok ⟨"sqlite", "1", "5f3a"⟩
  exportFull := .ok []
  exportIncremental _ := .ok []

def noObjects : BackupObjectIndex where
  listFull := .ok []
  listIncremental _ := .ok []
  loadObjectStream object _ := .error (.missingBlob object.storageKey)

def firstBackup (appId : String) : Creation :=
  .full 0 emptyDatabase noObjects ⟨1, 1700000000, appId, "1.0"⟩ {} fun _ => 0

def laterBackup (appId : String) : Creation :=
  .incremental 0 emptyDatabase noObjects ⟨2, 1, 1700000060, appId, "1.0"⟩ {} fun _ => 0

/-- The repository after the full snapshot of the application `shop`. -/
def afterFirst : Repository := ((firstBackup "shop").run plainCodec {} [] .empty).state

/-- Limits that let every manifest be read. -/
def roomy : BackupCapacityLimits := { bufferedBytes := .unbounded }

def roomyFirst : Repository := ((firstBackup "shop").run plainCodec roomy [] .empty).state

theorem roomyFirst_chain : ∃ manifest, manifest.appId = "shop" ∧
    manifest.databaseBackend = "sqlite" ∧ manifest.graphqlOrmSchemaHash = "5f3a" ∧
    manifest.snapshotId = 1 ∧ loadManifestChain plainCodec roomy roomyFirst 1 = .ok [manifest] := by
  have done : ((firstBackup "shop").run plainCodec roomy [] .empty).value.isOk = true := by decide
  obtain ⟨manifest, returned⟩ := exists_of_isOk done
  have written := (triple_creation roomy (firstBackup "shop") .empty).returns [] _ rfl manifest
    returned
  have read := (written.loadManifest_eq_ok (Codec.readsManifests_json _ _ _)).mpr ⟨trivial, rfl⟩
  obtain ⟨schema, tables, objects, described, made⟩ := written.describes
  cases described
  refine ⟨manifest, ?_, ?_, ?_, ?_, loadManifestChain_root read ?_ ?_⟩
  all_goals
    rw [made]
    rfl

/-- The increment of the same application on top of it can be loaded with its chain. -/
theorem chain_loads_iff_increment :
    ((laterBackup "shop").run plainCodec roomy [] roomyFirst).value.isOk = true ∧
      ∃ chain, loadManifestChain plainCodec roomy
        ((laterBackup "shop").run plainCodec roomy [] roomyFirst).state
        (laterBackup "shop").snapshotId = .ok chain := by
  have done : ((laterBackup "shop").run plainCodec roomy [] roomyFirst).value.isOk = true := by decide
  obtain ⟨manifest, returned⟩ := exists_of_isOk done
  have fresh : roomyFirst.get? (snapshotManifestKey (laterBackup "shop").snapshotId) = none := by
    decide
  obtain ⟨parent, appId, backend, schemaHash, own, below⟩ := roomyFirst_chain
  have linked : (laterBackup "shop").Linked plainCodec roomy roomyFirst :=
    ⟨_, [], parent, rfl, below, own, appId, backend, schemaHash⟩
  exact ⟨done, (chain_loads_iff plainCodec (Codec.readsManifests_json _ _ _) roomy
    (laterBackup "shop") roomyFirst fresh [] manifest returned).mpr ⟨trivial, linked⟩⟩

/-- One of the application `blog` is written as well, and cannot be loaded. -/
theorem createIncrementalBackup_breaks_chain :
    let done := (laterBackup "blog").run plainCodec {} [] afterFirst
    done.value.isOk = true ∧
      afterFirst.get? (snapshotManifestKey (laterBackup "blog").snapshotId) = none ∧
      ∀ chain, loadManifestChain plainCodec {} done.state (laterBackup "blog").snapshotId ≠
        .ok chain := by
  intro done
  have reads : plainCodec.ReadsManifests := Codec.readsManifests_json _ _ _
  have first : ((firstBackup "shop").run plainCodec {} [] .empty).value.isOk = true := by
    decide
  have later : done.value.isOk = true := by decide
  have fresh : afterFirst.get? (snapshotManifestKey (laterBackup "blog").snapshotId) = none := by
    decide
  refine ⟨later, fresh, fun whole loaded => ?_⟩
  obtain ⟨manifest, returned⟩ := exists_of_isOk later
  obtain ⟨root, started⟩ := exists_of_isOk first
  have written := (triple_creation {} (laterBackup "blog") afterFirst).returns [] _ rfl
    manifest returned
  obtain ⟨_, _, chain, parent, _, below, _, appId, _⟩ :=
    (written.chain_iff reads fresh).mp ⟨whole, loaded⟩
  have stored := (triple_creation {} (firstBackup "shop") .empty).returns [] _ rfl
    root started
  -- The parent is the snapshot of the other application.
  obtain ⟨_, same⟩ := (stored.loadManifest_eq_ok reads).mp (loadManifest_of_last below)
  obtain ⟨_, _, _, _, made⟩ := stored.describes
  rw [same, made] at appId
  have apart : "shop" ≠ "blog" := by decide
  exact apart appId

end GraphqlOrm.Backup
