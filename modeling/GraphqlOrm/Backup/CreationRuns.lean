import GraphqlOrm.Backup.Creations

/-!
# Runs of creations

What each creation leaves behind when it returns, and what it may leave behind when a call
of it fails.
-/
namespace GraphqlOrm.Backup

open Outcome Faulty
open Lease (Uuid)
open Storage (Bytes)

section Runs

variable {codec : Codec} {limits : BackupCapacityLimits} {origin repository : Repository}

/-- What a creation has done when it comes to its manifest. -/
structure Creation.Prepared (codec : Codec) (limits : BackupCapacityLimits) (creation : Creation)
    (origin : Repository) (manifest : BackupSnapshotManifest) (repository : Repository) : Prop
    extends creation.Listed codec limits origin manifest repository where
  touches : Touches (IsPayloadKey creation.snapshotId) origin repository
  describes : creation.Describes codec (setManifestChecksum codec manifest)

variable {manifest : BackupSnapshotManifest}

variable {creation : Creation}

theorem Creation.Prepared.written
    (prepared : creation.Prepared codec limits origin manifest repository) :
    creation.Written codec limits origin (setManifestChecksum codec manifest)
      (repository.insert (snapshotManifestKey creation.snapshotId)
        (codec.manifestPretty (setManifestChecksum codec manifest))) where
  touches := (prepared.touches.widen fun _ mine => .inl mine).insert (.inr rfl)
  stored := by rw [OrderedMap.get?_insert, if_pos rfl]
  signed := manifestChecksum_set manifest
  describes := prepared.describes
  payloadKeys := prepared.payloadKeys
  payloads distinct entry mem := by
    refine (prepared.payloads distinct entry mem).congr ?_
    rw [OrderedMap.get?_insert, if_neg]
    intro same
    exact manifestKey_not_payload _ _ (same ▸ prepared.payloadKeys entry mem)
  objectKeys := prepared.objectKeys
  objects object mem key := by
    refine (prepared.objects object mem key).congr ?_
    rw [OrderedMap.get?_insert, if_neg]
    rw [key]
    exact objectContentKey_ne_snapshotPath _ _ _

theorem triple_finish :
    Triple (creation.Prepared codec limits origin manifest) (writeManifest codec manifest)
      (creation.Written codec limits origin) (fun _ => creation.Between codec limits origin)
      (creation.Between codec limits origin) := by
  refine Triple.pinned fun s prepared => ?_
  refine triple_writeManifest prepared.describes.snapshotId ?_ ?_
  · rintro _ rfl
    exact prepared.touches
  · rintro _ rfl
    exact prepared.written

/-! ### Payloads and objects -/

theorem stored_payloads {key : String → String} {payloads : List Payload}
    (present : ∀ payload ∈ payloads, repository.get? (key payload.tableName) = some payload.bytes) :
    ∀ entry ∈ payloads.map (payloadEntry codec key),
      Stored codec repository entry.contentKey entry.sha256Hex := by
  intro entry mem
  obtain ⟨payload, inside, rfl⟩ := List.mem_map.mp mem
  exact ⟨payload.bytes, present payload inside, rfl⟩

variable {snapshotId : Uuid}

/-! ### Full and incremental snapshots -/

/-- Payloads, objects and the manifest that lists them all. -/
theorem triple_snapshot {key : String → String} (injective : ∀ a b, key a = key b → a = b)
    (mine : ∀ name, IsPayloadKey creation.snapshotId (key name)) (payloads : List Payload)
    (objects : BackupObjectIndex) (objectRefs : List BackupObjectRef) (objectConcurrency : Nat)
    (choose : Nat → Nat)
    {manifest : List TableBackupEntry → List ObjectBackupEntry → BackupSnapshotManifest}
    (described : ∀ entries objectEntries,
      creation.Describes codec (setManifestChecksum codec (manifest entries objectEntries)))
    (listed : ∀ entries objectEntries, (manifest entries objectEntries).database.tables ++
      (manifest entries objectEntries).database.changes = entries ∧
        (manifest entries objectEntries).objects = objectEntries)
    (distinct : creation.DistinctTables → (payloads.map Payload.tableName).Nodup) :
    Triple (Touches (IsPayloadKey creation.snapshotId) origin)
      ((putPayloads codec key payloads).bind fun entries =>
        (writeObjectEntries codec objects objectRefs objectConcurrency choose).bind
          fun objectEntries => writeManifest codec (manifest entries objectEntries))
      (creation.Written codec limits origin) (fun _ => creation.Between codec limits origin)
      (creation.Between codec limits origin) := by
  refine ((triple_putPayloads injective mine payloads).weaken (fun _ h => h) (fun _ _ h => h)
    (fun _ _ => .inl) fun _ => .inl).bind fun entries => ?_
  refine Triple.pinned fun s supplied => ?_
  obtain ⟨touches, rfl, present⟩ := supplied
  refine ((triple_writeObjectEntries s objectRefs objectConcurrency choose).weaken
    (fun _ h => h) (fun _ _ h => h) (fun _ s' adds => .inl (touches.adds adds))
    fun s' adds => .inl (touches.adds adds)).bind fun objectEntries => ?_
  refine triple_finish.weaken (fun s' added => ?_) (fun _ _ h => h) (fun _ _ h => h) fun _ h => h
  obtain ⟨adds, addressed⟩ := added
  obtain ⟨tables, objects⟩ := listed (payloads.map (payloadEntry codec key)) objectEntries
  refine ⟨⟨?_, fun named => ?_, ?_, ?_⟩, touches.adds adds, described _ _⟩
  · rw [tables]
    intro entry mem
    obtain ⟨payload, _, rfl⟩ := List.mem_map.mp mem
    exact mine _
  · rw [tables]
    exact stored_payloads fun payload mem => adds.kept _ _ (present (distinct named) payload mem)
  · rw [objects]
    exact fun object mem => .inl (addressed object mem).key
  · rw [objects]
    exact fun object mem _ => (addressed object mem).stored

theorem triple_createFullBackupInner (now : Int) (database : GraphqlOrmBackupAdapter)
    (objects : BackupObjectIndex) (request : FullBackupRequest) (options : BackupExecutionOptions)
    (choose : Nat → Nat) :
    let creation := Creation.full now database objects request options choose
    Triple (Touches (IsPayloadKey creation.snapshotId) origin)
      (createFullBackupInner codec database objects request options choose)
      (creation.Written codec limits origin) (fun _ => creation.Between codec limits origin)
      (creation.Between codec limits origin) := by
  intro creation
  refine Triple.lift_bind (fun _ _ _ touches => .inl touches) fun plan planned => ?_
  obtain ⟨schema, described, rest⟩ := bind_eq_ok.mp planned
  obtain ⟨tables, exported, rest⟩ := bind_eq_ok.mp rest
  obtain ⟨objectRefs, _, same⟩ := bind_eq_ok.mp rest
  cases same
  refine triple_snapshot (fun _ _ => databaseTableKey_inj.mp) (isPayloadKey_table _) _ _ _ _ _
    (fun entries objectEntries => ⟨schema, entries, objectEntries, described, rfl⟩)
    (fun entries _ => ⟨List.append_nil entries, rfl⟩) fun distinct => ?_
  rw [List.map_map]
  exact distinct tables exported

theorem names_place (change : BackupChangeExport) (groups : List ChangeGroup) :
    ((ChangeGroup.place change groups).map ChangeGroup.tableName) =
      if change.tableName ∈ groups.map ChangeGroup.tableName then groups.map ChangeGroup.tableName
      else groups.map ChangeGroup.tableName ++ [change.tableName] := by
  induction groups with
  | nil => simp [ChangeGroup.place]
  | cons group rest ih =>
    by_cases here : group.tableName = change.tableName
    · simp [ChangeGroup.place, here]
    · have apart : change.tableName ≠ group.tableName := fun same => here same.symm
      rw [ChangeGroup.place, if_neg here, List.map_cons, ih]
      split
      next inside =>
        rw [List.map_cons, if_pos (.tail _ inside)]
      next outside =>
        rw [List.map_cons, if_neg, List.cons_append]
        simpa [apart] using outside

theorem nodup_groupChangesByTable (changes : List BackupChangeExport) :
    ((groupChangesByTable changes).map ChangeGroup.tableName).Nodup := by
  have from_ (groups : List ChangeGroup) (distinct : (groups.map ChangeGroup.tableName).Nodup) :
      ((changes.foldl (fun groups change => ChangeGroup.place change groups) groups).map
        ChangeGroup.tableName).Nodup := by
    induction changes generalizing groups with
    | nil => exact distinct
    | cons change rest ih =>
      refine ih _ ?_
      rw [names_place]
      split
      next => exact distinct
      next outside => exact List.nodup_append.mpr ⟨distinct, by simp, fun a inside b last => by
        rw [List.mem_singleton.mp last]
        exact fun same => outside (same ▸ inside)⟩
  exact from_ [] List.nodup_nil

theorem triple_createIncrementalBackupInner (now : Int) (database : GraphqlOrmBackupAdapter)
    (objects : BackupObjectIndex) (request : IncrementalBackupRequest)
    (options : BackupExecutionOptions) (choose : Nat → Nat) :
    let creation := Creation.incremental now database objects request options choose
    Triple (Touches (IsPayloadKey creation.snapshotId) origin)
      (createIncrementalBackupInner codec database objects request options choose)
      (creation.Written codec limits origin) (fun _ => creation.Between codec limits origin)
      (creation.Between codec limits origin) := by
  intro creation
  refine Triple.lift_bind (fun _ _ _ touches => .inl touches) fun plan planned => ?_
  obtain ⟨schema, described, rest⟩ := bind_eq_ok.mp planned
  obtain ⟨changes, _, rest⟩ := bind_eq_ok.mp rest
  obtain ⟨objectRefs, _, same⟩ := bind_eq_ok.mp rest
  cases same
  refine triple_snapshot (fun _ _ => databaseChangesKey_inj.mp) (isPayloadKey_changes _) _ _ _ _ _
    (fun entries objectEntries => ⟨schema, entries, objectEntries, _, described, rfl⟩)
    (fun _ _ => ⟨rfl, rfl⟩) fun _ => ?_
  rw [List.map_map]
  exact nodup_groupChangesByTable changes

/-! ### Compaction -/

variable {chain : List BackupSnapshotManifest}

theorem loadVerifiedChain_eq_ok :
    loadVerifiedChain codec limits repository snapshotId = .ok chain ↔
      loadManifestChain codec limits repository snapshotId = .ok chain ∧
        ∀ manifest ∈ chain, verifyManifestAndObjects codec repository manifest = .ok () := by
  unfold loadVerifiedChain
  constructor
  · intro done
    obtain ⟨loaded, read, rest⟩ := bind_eq_ok.mp done
    obtain ⟨_, verified, same⟩ := bind_eq_ok.mp rest
    cases same
    exact ⟨read, fun manifest mem => forM_each verified manifest mem⟩
  · rintro ⟨read, verified⟩
    exact bind_eq_ok.mpr ⟨chain, read, bind_eq_ok.mpr ⟨(), forM_ok verified, rfl⟩⟩

/-- Every manifest of a chain was read. -/
theorem loadManifest_of_chain
    (loaded : loadManifestChain codec limits repository snapshotId = .ok chain)
    (mem : manifest ∈ chain) :
    ∃ i, loadManifest codec limits repository i = .ok manifest := by
  obtain ⟨ids, line, _, _⟩ := loadManifestChain_eq_ok.mp loaded
  obtain ⟨i, _, read⟩ := line.loaded manifest (List.mem_reverse.mpr mem)
  exact ⟨i, read⟩

/-- The entry of an object is its last one, unless some manifest has a tombstone for it. -/
theorem mem_compactObjectEntries {object : ObjectBackupEntry} :
    object ∈ compactObjectEntries chain ↔
      (∀ manifest ∈ chain, ∀ tombstone ∈ manifest.tombstones,
        tombstone.objectId ≠ some object.objectId) ∧
      (chain.flatMap BackupSnapshotManifest.objects).reverse.find?
        (fun other => other.objectId = object.objectId) = some object := by
  let kept (other : ObjectBackupEntry) : Bool :=
    other.objectId ∉ (chain.flatMap BackupSnapshotManifest.tombstones).filterMap
      BackupTombstone.objectId
  have dead : kept object = true ↔ ∀ manifest ∈ chain, ∀ tombstone ∈ manifest.tombstones,
      tombstone.objectId ≠ some object.objectId := by
    simp only [kept, decide_eq_true_eq, List.mem_filterMap, List.mem_flatMap, not_exists, not_and]
    constructor
    · exact fun none_ manifest mem tombstone inside =>
        none_ tombstone ⟨manifest, mem, inside⟩
    · rintro none_ tombstone ⟨manifest, mem, inside⟩
      exact none_ manifest mem tombstone inside
  have folded : compactObjectEntries chain = sortBy (fun other => other.objectId.toNat)
      (OrderedMap.collectBy (fun other => other.objectId.toNat)
        ((chain.flatMap BackupSnapshotManifest.objects).filter kept)).values := by
    unfold compactObjectEntries OrderedMap.collectBy
    rw [List.foldl_filter]
    simp only [kept, decide_eq_true_eq, ite_not]
  rw [folded, mem_sortBy, OrderedMap.values, List.mem_map, ← dead]
  -- Entries of one object are dropped together.
  have test (entry : ObjectBackupEntry) (alive : kept entry = true) :
      (fun other => decide (kept other = true ∧
        decide (other.objectId.toNat = entry.objectId.toNat) = true)) =
        fun other : ObjectBackupEntry => decide (other.objectId = entry.objectId) := by
    funext other
    by_cases same : other.objectId = entry.objectId
    · have both : kept other = kept entry := by simp only [kept, same]
      simp [same, both, alive]
    · simp [same, BitVec.toNat_inj]
  constructor
  · rintro ⟨⟨k, found⟩, mem, rfl⟩
    have entry := OrderedMap.mem_entries.mp mem
    obtain ⟨inside, rfl⟩ := OrderedMap.get?_collectBy_some entry
    have alive := (List.mem_filter.mp inside).2
    rw [OrderedMap.get?_collectBy, ← List.filter_reverse, List.find?_filter,
      test found alive] at entry
    exact ⟨alive, entry⟩
  · rintro ⟨alive, last⟩
    refine ⟨(object.objectId.toNat, object), OrderedMap.mem_entries.mpr ?_, rfl⟩
    rw [OrderedMap.get?_collectBy, ← List.filter_reverse, List.find?_filter,
      test object alive]
    exact last

theorem mem_chain_of_compact {object : ObjectBackupEntry}
    (mem : object ∈ compactObjectEntries chain) :
    ∃ manifest ∈ chain, object ∈ manifest.objects := by
  have last := (mem_compactObjectEntries.mp mem).2
  have inside := List.mem_reverse.mp (List.mem_of_find?_eq_some last)
  exact List.mem_flatMap.mp inside

theorem mem_compactedObjects {entries : List ObjectBackupEntry}
    (looked : compactedObjects codec chain repository = .ok entries) {entry : ObjectBackupEntry}
    (mem : entry ∈ entries) :
    ∃ object ∈ compactObjectEntries chain, ∃ size,
      verifyBlobChecksum codec repository object.contentKey object.sha256Hex = .ok size ∧
        entry = { object with sizeBytes := BitVec.ofNat 64 size } := by
  obtain ⟨object, inside, made⟩ := mem_of_mapM_ok looked mem
  obtain ⟨size, verified, same⟩ := bind_eq_ok.mp made
  cases same
  exact ⟨object, inside, size, verified, rfl⟩

theorem loadCompactSource_eq_ok {sourceSnapshotId : Uuid} {source : CompactSource} :
    loadCompactSource codec limits repository sourceSnapshotId = .ok source ↔
      ∃ full increments, source.chain = full :: increments ∧
        source.latest = increments.getLastD full ∧
        loadVerifiedChain codec limits repository sourceSnapshotId = .ok source.chain ∧
        compactRows codec limits repository full increments = .ok source.tables := by
  unfold loadCompactSource
  constructor
  · intro done
    obtain ⟨chain, verified, rest⟩ := bind_eq_ok.mp done
    cases chain with
    | nil => cases rest
    | cons full increments =>
      obtain ⟨tables, replayed, same⟩ := bind_eq_ok.mp rest
      cases same
      exact ⟨full, increments, rfl, rfl, verified, replayed⟩
  · rintro ⟨full, increments, whole, latest, verified, replayed⟩
    refine bind_eq_ok.mpr ⟨full :: increments, whole ▸ verified, bind_eq_ok.mpr
      ⟨source.tables, replayed, ?_⟩⟩
    rw [← whole, ← latest]
    rfl

/-- What is known of a compaction once it has read its chain. -/
structure SourceOf (codec : Codec) (limits : BackupCapacityLimits) (origin : Repository)
    (snapshotId : Uuid) (source : CompactSource) (repository : Repository) : Prop where
  touches : Touches (IsPayloadKey snapshotId) origin repository
  recorded : ∀ manifest ∈ source.chain, ∃ i, loadManifest codec limits origin i = .ok manifest

theorem triple_compactChainInner (now : Int) (request : CompactChainRequest) :
    let creation := Creation.compact now request
    Triple (Touches (IsPayloadKey creation.snapshotId) origin)
      (compactChainInner codec limits request)
      (creation.Written codec limits origin) (fun _ => creation.Between codec limits origin)
      (creation.Between codec limits origin) := by
  intro creation
  refine Triple.through (SourceOf codec limits origin request.snapshotId) (triple_reading ?_
    (fun _ => .inl) fun _ => .inl) fun source => ?_
  · intro s source touches loaded
    obtain ⟨_, _, _, _, verified, _⟩ := loadCompactSource_eq_ok.mp loaded
    refine ⟨touches, fun manifest mem => ?_⟩
    obtain ⟨i, read⟩ := loadManifest_of_chain (loadVerifiedChain_eq_ok.mp verified).1 mem
    rw [touches.loadManifest_eq codec limits (manifestKey_not_payload i _)] at read
    exact ⟨i, read⟩
  refine Triple.pinned fun read known => ?_
  obtain ⟨touches, recorded⟩ := known
  refine ((triple_putPayloads (fun _ _ => databaseTableKey_inj.mp)
    (isPayloadKey_table request.snapshotId) (source.tables.entries.map (rowsPayload codec))).weaken
    (fun s same => same ▸ touches) (fun _ _ h => h) (fun _ _ => .inl) fun _ => .inl).bind
    fun entries => ?_
  let manifest := syntheticManifest request source.latest entries
  refine Triple.through (fun objects => creation.Prepared codec limits origin (manifest objects))
    (triple_reading ?_ (fun _ put => .inl put.1) fun _ put => .inl put.1)
    fun objects => triple_finish
  rintro s objects ⟨touches, entries_eq, present⟩ looked
  have own : ∀ entry ∈ (manifest objects).database.tables ++ (manifest objects).database.changes,
      entry ∈ (source.tables.entries.map (rowsPayload codec)).map
        (payloadEntry codec (databaseTableKey request.snapshotId)) := by
    intro entry mem
    rw [← entries_eq]
    simpa [manifest, syntheticManifest, fullDatabase] using mem
  have distinct : ((source.tables.entries.map (rowsPayload codec)).map Payload.tableName).Nodup := by
    rw [List.map_map]
    exact source.tables.keys_nodup
  refine ⟨⟨?_, fun _ entry mem => stored_payloads (present distinct) entry (own entry mem), ?_, ?_⟩,
    touches, ⟨source.latest, entries, objects, rfl⟩⟩
  · intro entry mem
    obtain ⟨payload, _, rfl⟩ := List.mem_map.mp (own entry mem)
    exact isPayloadKey_table _ _
  · intro object mem
    obtain ⟨object, inside, _, _, rfl⟩ := mem_compactedObjects looked mem
    obtain ⟨manifest, link, recordedHere⟩ := mem_chain_of_compact inside
    obtain ⟨i, read⟩ := recorded manifest link
    exact .inr ⟨i, manifest, read, object, recordedHere, rfl, rfl⟩
  · intro object mem _
    obtain ⟨object, _, size, verified, rfl⟩ := mem_compactedObjects looked mem
    exact verifyBlobChecksum_stored.mp ⟨size, verified⟩

/-! ### Whole operations -/

/-- A creation that returns has written its snapshot, and one that fails has written it or no
manifest at all. -/
theorem triple_creation (limits : BackupCapacityLimits) (creation : Creation) (origin : Repository) :
    Triple (fun repository => repository = origin) (creation.run codec limits)
      (creation.Written codec limits origin) (fun _ => creation.Between codec limits origin)
      (creation.Between codec limits origin) := by
  have inner {operation : Operation BackupSnapshotManifest} (now : Int)
      (triple : Triple (Touches (IsPayloadKey creation.snapshotId) origin) operation
        (creation.Written codec limits origin) (fun _ => creation.Between codec limits origin)
        (creation.Between codec limits origin)) :
      Triple (fun repository => repository = origin) (withLock now operation)
        (creation.Written codec limits origin) (fun _ => creation.Between codec limits origin)
        (creation.Between codec limits origin) :=
    (triple_withLock now (lockBlind_touches _ _) (creation.lockBlind_between origin)
      (creation.lockBlind_written origin) triple (fun _ => .inl)
      fun manifest _ written => .inr ⟨manifest, written⟩).weaken
      (fun _ same => same.symm ▸ .refl _ origin) (fun _ _ h => h) (fun _ _ h => h) fun _ h => h
  cases creation with
  | full now database objects request options choose =>
    exact inner now (triple_createFullBackupInner now database objects request options choose)
  | incremental now database objects request options choose =>
    exact inner now (triple_createIncrementalBackupInner now database objects request options choose)
  | compact now request => exact inner now (triple_compactChainInner now request)

end Runs

end GraphqlOrm.Backup
