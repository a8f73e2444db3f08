import GraphqlOrm.Foundation.Before
import GraphqlOrm.Foundation.Outcome
import GraphqlOrm.Foundation.StableSort
import GraphqlOrm.Lease.State
import Mathlib.Data.Prod.Lex

/-!
# The change journal

Every write appends one row to the journal, with a random id and the clock in
whole seconds. An export cuts a window out of the journal by an id and an upper
time, and returns it in the order of time and id.
-/
namespace GraphqlOrm.RowBackup

open Outcome
open Lease (Uuid)

inductive MutationPhase where
  | before
  | after
deriving DecidableEq

inductive ChangeAction where
  | created
  | updated
  | deleted

inductive BackupChangeAction where
  | create
  | update
  | delete
deriving DecidableEq

/-- What the journal reads of a mutation. -/
structure MutationEvent where
  phase : MutationPhase
  action : ChangeAction
  entityName : String
  tableName : String
  primaryKeys : List String
  id : String

/-- A row of the journal table. -/
structure JournalRow where
  id : Uuid
  entityName : String
  tableName : String
  primaryKey : String
  action : String
  changedAt : Int
  transactionId : Option String
  rowHash : Option String
  actorId : Option String
  correlationId : Option String
deriving DecidableEq

structure BackupChange where
  id : Uuid
  entityName : String
  tableName : String
  primaryKey : String
  action : BackupChangeAction
  changedAt : Int
  transactionId : Option String
  rowHash : Option String
  actorId : Option String
  correlationId : Option String
deriving DecidableEq

structure ChangeWindow where
  afterSnapshotId : Option Uuid
  «until» : Int

/-! ### Recording -/

def ChangeAction.text : ChangeAction → String
  | created => "create"
  | updated => "update"
  | deleted => "delete"

def MutationEvent.row (event : MutationEvent) (id : Uuid) (now : Int) : JournalRow where
  id := id
  entityName := event.entityName
  tableName := event.tableName
  primaryKey := event.id
  action := event.action.text
  changedAt := now
  transactionId := none
  rowHash := none
  actorId := none
  correlationId := none

/-- The journal after a mutation, with the `change-journal` feature compiled in. -/
def recordChangeJournalEvent (enabled : Bool) (id : Uuid) (now : Int) (event : MutationEvent)
    (journal : List JournalRow) : Except String (List JournalRow) :=
  if !enabled || event.phase ≠ .after then .ok journal
  -- an entity id cannot name a composite key, so such a write is refused
  else if event.primaryKeys.length > 1 then
    .error ("the change journal cannot record composite-key entity " ++ event.entityName ++
      "; back it up with full snapshots")
  else .ok (journal ++ [event.row id now])

/-- One call, with the id drawn for it and the clock it reads. -/
structure Recording where
  id : Uuid
  now : Int
  event : MutationEvent

/-- A refused recording fails the write and leaves the journal as it was. -/
def record (enabled : Bool) (journal : List JournalRow) (recording : Recording) :
    List JournalRow :=
  match recordChangeJournalEvent enabled recording.id recording.now recording.event journal with
  | .ok next => next
  | .error _ => journal

def recordAll (enabled : Bool) (recordings : List Recording) : List JournalRow :=
  recordings.foldl (record enabled) []

/-! ### Exporting -/

def decodeBackupChangeAction : String → Except String BackupChangeAction
  | "create" => .ok .create
  | "update" => .ok .update
  | "delete" => .ok .delete
  | other => .error ("unknown change journal action " ++ other)

def decodeBackupChange (row : JournalRow) : Except String BackupChange := do
  let action ← decodeBackupChangeAction row.action
  return {
    id := row.id
    entityName := row.entityName
    tableName := row.tableName
    primaryKey := row.primaryKey
    action := action
    changedAt := row.changedAt
    transactionId := row.transactionId
    rowHash := row.rowHash
    actorId := row.actorId
    correlationId := row.correlationId }

/-- `changed_at <= ?`, and `id > ?` when the window names an id. -/
def ChangeWindow.selects (window : ChangeWindow) (row : JournalRow) : Bool :=
  row.changedAt ≤ window.until &&
    match window.afterSnapshotId with
    | none => true
    | some after => after < row.id

/-- `ORDER BY changed_at ASC, id ASC`. -/
def JournalRow.key (row : JournalRow) : Int ×ₗ Nat := toLex (row.changedAt, row.id.toNat)

def selectChanges (journal : List JournalRow) (window : ChangeWindow) : List JournalRow :=
  sortBy JournalRow.key (journal.filter window.selects)

def exportChanges (journal : List JournalRow) (window : ChangeWindow) :
    Except String (List BackupChange) :=
  (selectChanges journal window).mapM decodeBackupChange

/-! ### Two windows in a row -/

def JournalRow.SameRow (a b : JournalRow) : Prop :=
  a.tableName = b.tableName ∧ a.primaryKey = b.primaryKey

/-- The window up to `t₁` and the window after its last change up to `t₂` return
every change up to `t₂` once, and the changes of a row in the order of recording. -/
def LosesNothing (journal : List JournalRow) (t₁ t₂ : Int) : Prop :=
  ∃ first second,
    exportChanges journal ⟨none, t₁⟩ = .ok first ∧
    exportChanges journal ⟨first.getLast?.map BackupChange.id, t₂⟩ = .ok second ∧
    (∀ row ∈ journal, row.changedAt ≤ t₂ →
      ∃ change, decodeBackupChange row = .ok change ∧ (first ++ second).count change = 1) ∧
    ∀ a b, Before (first ++ second) a b → a.tableName = b.tableName → a.primaryKey = b.primaryKey →
      Before (journal.map JournalRow.id) a.id b.id

/-- The ids follow the times where the windows and the tie break compare them: the
last change up to `t₁` has an id below exactly the later changes up to `t₂`, and
the changes of a row within one second have ascending ids. -/
structure IdsFollowTimes (journal : List JournalRow) (t₁ t₂ : Int) : Prop where
  cut : ∀ last ∈ journal, last.changedAt ≤ t₁ →
    (∀ row ∈ journal, row.changedAt ≤ t₁ → row.key ≤ last.key) →
    ∀ row ∈ journal, row.changedAt ≤ t₂ → (last.id < row.id ↔ t₁ < row.changedAt)
  tie : ∀ a b, Before journal a b → a.SameRow b → a.changedAt = b.changedAt →
    b.changedAt ≤ t₂ → a.id < b.id

/-! ### What the journal holds -/

/-- Fresh ids, a clock that never goes back and the actions of recorded events. -/
structure Recorded (journal : List JournalRow) : Prop where
  ids : (journal.map JournalRow.id).Nodup
  times : journal.Pairwise fun a b => a.changedAt ≤ b.changedAt
  actions : ∀ row ∈ journal, ∃ action : ChangeAction, row.action = action.text

theorem record_cases (enabled : Bool) (journal : List JournalRow) (recording : Recording) :
    record enabled journal recording = journal ∨
      record enabled journal recording =
        journal ++ [recording.event.row recording.id recording.now] := by
  unfold record recordChangeJournalEvent
  split
  next next recorded =>
    split at recorded
    · cases recorded
      exact .inl rfl
    split at recorded
    · cases recorded
    · cases recorded
      exact .inr rfl
  next => exact .inl rfl

private theorem recorded_foldl (enabled : Bool) {recordings : List Recording}
    {journal : List JournalRow} (before : Recorded journal)
    (fresh : (journal.map JournalRow.id ++ recordings.map Recording.id).Nodup)
    (clock : recordings.Pairwise fun a b => a.now ≤ b.now)
    (later : ∀ row ∈ journal, ∀ recording ∈ recordings, row.changedAt ≤ recording.now) :
    Recorded (recordings.foldl (record enabled) journal) := by
  induction recordings generalizing journal with
  | nil => exact before
  | cons recording rest ih =>
    obtain ⟨first, others⟩ := List.pairwise_cons.mp clock
    have onward := fun row mem other among =>
      later row mem other (List.mem_cons_of_mem recording among)
    rw [List.foldl_cons]
    rcases record_cases enabled journal recording with kept | grown
    · rw [kept]
      refine ih before (fresh.sublist ?_) others onward
      exact (List.Sublist.refl _).append (List.sublist_cons_self _ _)
    -- the new row has the clock of its recording, which is past every row before it
    · rw [grown]
      have ids : ((journal ++ [recording.event.row recording.id recording.now]).map JournalRow.id ++
          rest.map Recording.id).Nodup := by
        rw [List.map_append, List.append_assoc]
        exact fresh
      refine ih ⟨?_, ?_, ?_⟩ ids others ?_
      · exact ids.sublist (List.sublist_append_left _ _)
      · refine List.pairwise_append.mpr ⟨before.times, List.pairwise_singleton _ _, ?_⟩
        intro a mem b own
        rw [List.mem_singleton.mp own]
        exact later a mem recording (.head _)
      · intro row mem
        rcases List.mem_append.mp mem with old | own
        · exact before.actions row old
        · rw [List.mem_singleton.mp own]
          exact ⟨recording.event.action, rfl⟩
      · intro row mem other among
        rcases List.mem_append.mp mem with old | own
        · exact onward row old other among
        · rw [List.mem_singleton.mp own]
          exact first other among

theorem recordAll_recorded (enabled : Bool) {recordings : List Recording}
    (fresh : (recordings.map Recording.id).Nodup)
    (clock : recordings.Pairwise fun a b => a.now ≤ b.now) :
    Recorded (recordAll enabled recordings) :=
  recorded_foldl enabled ⟨.nil, .nil, nofun⟩ fresh clock nofun

/-! ### What an export returns -/

variable {window : ChangeWindow} {row : JournalRow}

theorem mem_selectChanges {journal : List JournalRow} :
    row ∈ selectChanges journal window ↔ row ∈ journal ∧ row.changedAt ≤ window.until ∧
      ∀ after, window.afterSnapshotId = some after → after < row.id := by
  rw [selectChanges, mem_sortBy, List.mem_filter, ChangeWindow.selects]
  cases window.afterSnapshotId <;> simp

variable {a b : JournalRow}

theorem JournalRow.key_le :
    a.key ≤ b.key ↔ a.changedAt < b.changedAt ∨ a.changedAt = b.changedAt ∧ a.id ≤ b.id :=
  Prod.Lex.toLex_le_toLex

theorem JournalRow.key_lt :
    a.key < b.key ↔ a.changedAt < b.changedAt ∨ a.changedAt = b.changedAt ∧ a.id < b.id :=
  Prod.Lex.toLex_lt_toLex

theorem before_selectChanges {journal : List JournalRow} (left : a ∈ selectChanges journal window)
    (right : b ∈ selectChanges journal window) (less : a.key < b.key) :
    Before (selectChanges journal window) a b := by
  have other : a ≠ b := fun same => less.ne (congrArg _ same)
  refine (Before.total left right other).resolve_right fun back => ?_
  exact absurd (back.of_pairwise (sortBy_ordered _ _)) less.not_ge

/-- The last change of the first window is the greatest by time and id. -/
theorem getLast?_selectChanges {journal : List JournalRow} {t : Int} {last : JournalRow}
    (found : (selectChanges journal ⟨none, t⟩).getLast? = some last) :
    last ∈ journal ∧ last.changedAt ≤ t ∧
      ∀ row ∈ journal, row.changedAt ≤ t → row.key ≤ last.key := by
  obtain ⟨front, split⟩ := List.getLast?_eq_some_iff.mp found
  have mem : last ∈ selectChanges journal ⟨none, t⟩ := by simp [split]
  obtain ⟨inside, early, _⟩ := mem_selectChanges.mp mem
  refine ⟨inside, early, fun row among upTo => ?_⟩
  have listed : row ∈ selectChanges journal ⟨none, t⟩ :=
    mem_selectChanges.mpr ⟨among, upTo, nofun⟩
  have ordered := sortBy_ordered JournalRow.key
    (journal.filter (ChangeWindow.selects ⟨none, t⟩))
  rw [← selectChanges, split] at ordered
  rw [split] at listed
  rcases List.mem_append.mp listed with sooner | own
  · exact (List.pairwise_append.mp ordered).2.2 row sooner last (by simp)
  · rw [List.mem_singleton.mp own]

private def JournalRow.change (row : JournalRow) : BackupChange where
  id := row.id
  entityName := row.entityName
  tableName := row.tableName
  primaryKey := row.primaryKey
  action := ((decodeBackupChangeAction row.action).toOption).getD .create
  changedAt := row.changedAt
  transactionId := row.transactionId
  rowHash := row.rowHash
  actorId := row.actorId
  correlationId := row.correlationId

theorem decode_text (action : ChangeAction) :
    ∃ decoded, decodeBackupChangeAction action.text = .ok decoded := by
  cases action
  · exact ⟨.create, rfl⟩
  · exact ⟨.update, rfl⟩
  · exact ⟨.delete, rfl⟩

namespace Recorded

variable {journal : List JournalRow} {t₁ t₂ : Int}

section

variable (recorded : Recorded journal)
include recorded

private theorem decode (mem : row ∈ journal) :
    decodeBackupChange row = .ok row.change := by
  obtain ⟨action, stored⟩ := recorded.actions row mem
  obtain ⟨decoded, read⟩ := decode_text action
  rw [decodeBackupChange, JournalRow.change, stored, read]
  rfl

private theorem exported (window : ChangeWindow) :
    exportChanges journal window = .ok ((selectChanges journal window).map JournalRow.change) :=
  mapM_ok fun _ mem => recorded.decode (mem_selectChanges.mp mem).1

theorem eq_of_id (left : a ∈ journal) (right : b ∈ journal)
    (same : a.id = b.id) : a = b :=
  List.inj_on_of_nodup_map recorded.ids left right same

theorem nodup_select (window : ChangeWindow) :
    (selectChanges journal window).Nodup :=
  (sortBy_perm _ _).nodup_iff.mpr ((recorded.ids.of_map _).filter _)

private theorem nodup_changes (window : ChangeWindow) :
    ((selectChanges journal window).map JournalRow.change).Nodup := by
  refine List.Nodup.map_on (fun a left b right same => ?_) (recorded.nodup_select window)
  exact recorded.eq_of_id (mem_selectChanges.mp left).1 (mem_selectChanges.mp right).1
    (congrArg BackupChange.id same)

private theorem mem_changes (window : ChangeWindow)
    (mem : row ∈ journal) :
    row.change ∈ (selectChanges journal window).map JournalRow.change ↔
      row ∈ selectChanges journal window := by
  refine ⟨fun mapped => ?_, List.mem_map_of_mem⟩
  obtain ⟨other, inside, same⟩ := List.mem_map.mp mapped
  have own := recorded.eq_of_id (mem_selectChanges.mp inside).1 mem
    (congrArg BackupChange.id same)
  exact own ▸ inside

/-- A change is returned once when exactly one of the windows selects it. -/
private theorem count_changes (v w : ChangeWindow)
    (mem : row ∈ journal) :
    ((selectChanges journal v).map JournalRow.change ++
        (selectChanges journal w).map JournalRow.change).count row.change = 1 ↔
      (row ∈ selectChanges journal v ↔ row ∉ selectChanges journal w) := by
  rw [List.count_append, (recorded.nodup_changes v).count, (recorded.nodup_changes w).count]
  simp only [recorded.mem_changes _ mem]
  split <;> split <;> simp_all

theorem before_ids (left : a ∈ journal) (right : b ∈ journal) :
    Before (journal.map JournalRow.id) a.id b.id ↔ Before journal a b := by
  rw [Before.map_iff]
  constructor
  · rintro ⟨x, y, before, first, second⟩
    rwa [← recorded.eq_of_id before.left_mem left first,
      ← recorded.eq_of_id before.right_mem right second]
  · exact fun before => ⟨a, b, before, rfl, rfl⟩

end

private def following (journal : List JournalRow) (t₁ t₂ : Int) : ChangeWindow :=
  ⟨(selectChanges journal ⟨none, t₁⟩).getLast?.map JournalRow.id, t₂⟩

/-- Every row up to `t₂` is in one of the two windows and not in the other. -/
private def Once (journal : List JournalRow) (t₁ t₂ : Int) : Prop :=
  ∀ row ∈ journal, row.changedAt ≤ t₂ →
    (row ∈ selectChanges journal ⟨none, t₁⟩ ↔
      row ∉ selectChanges journal (following journal t₁ t₂))

/-- The two windows, in terms of the rows they select. -/
private theorem losesNothing_rows (recorded : Recorded journal) :
    LosesNothing journal t₁ t₂ ↔ Once journal t₁ t₂ ∧
      ∀ a b, Before (selectChanges journal ⟨none, t₁⟩ ++
          selectChanges journal (following journal t₁ t₂)) a b →
        a.SameRow b → Before journal a b := by
  have last : ((selectChanges journal ⟨none, t₁⟩).map JournalRow.change).getLast?.map
      BackupChange.id = (selectChanges journal ⟨none, t₁⟩).getLast?.map JournalRow.id := by
    rw [List.getLast?_map, Option.map_map]
    rfl
  have inside {a b : JournalRow} (before : Before (selectChanges journal ⟨none, t₁⟩ ++
      selectChanges journal (following journal t₁ t₂)) a b) : a ∈ journal ∧ b ∈ journal := by
    have listed {row : JournalRow} (mem : row ∈ selectChanges journal ⟨none, t₁⟩ ++
        selectChanges journal (following journal t₁ t₂)) : row ∈ journal :=
      (List.mem_append.mp mem).elim (fun one => (mem_selectChanges.mp one).1)
        fun two => (mem_selectChanges.mp two).1
    exact ⟨listed before.left_mem, listed before.right_mem⟩
  constructor
  · rintro ⟨first, second, firstDone, secondDone, once, order⟩
    rw [recorded.exported] at firstDone
    cases firstDone
    rw [last, recorded.exported] at secondDone
    cases secondDone
    refine ⟨fun row mem upTo => ?_, fun a b before same => ?_⟩
    · obtain ⟨change, decoded, counted⟩ := once row mem upTo
      rw [recorded.decode mem] at decoded
      cases decoded
      exact (recorded.count_changes _ _ mem).mp counted
    · obtain ⟨left, right⟩ := inside before
      refine (recorded.before_ids left right).mp (order a.change b.change ?_ same.1 same.2)
      rw [← List.map_append]
      exact Before.map_iff.mpr ⟨a, b, before, rfl, rfl⟩
  · rintro ⟨once, order⟩
    refine ⟨_, _, recorded.exported _, (congrArg (fun after =>
      exportChanges journal ⟨after, t₂⟩) last).trans (recorded.exported _), ?_, ?_⟩
    · intro row mem upTo
      exact ⟨row.change, recorded.decode mem,
        (recorded.count_changes _ _ mem).mpr (once row mem upTo)⟩
    · intro x y before table key
      rw [← List.map_append] at before
      obtain ⟨a, b, rows, rfl, rfl⟩ := Before.map_iff.mp before
      obtain ⟨left, right⟩ := inside rows
      exact (recorded.before_ids left right).mpr (order a b rows ⟨table, key⟩)

theorem before_of_earlier (recorded : Recorded journal) (left : a ∈ journal) (right : b ∈ journal)
    (earlier : a.changedAt < b.changedAt) : Before journal a b := by
  have other : a ≠ b := fun same => earlier.ne (congrArg _ same)
  refine (Before.total left right other).resolve_right fun back => ?_
  exact absurd (back.of_pairwise recorded.times) earlier.not_ge

private theorem following_last {last : JournalRow}
    (mem : last ∈ journal) (early : last.changedAt ≤ t₁)
    (greatest : ∀ row ∈ journal, row.changedAt ≤ t₁ → row.key ≤ last.key) :
    following journal t₁ t₂ = ⟨some last.id, t₂⟩ := by
  have listed : last ∈ selectChanges journal ⟨none, t₁⟩ :=
    mem_selectChanges.mpr ⟨mem, early, nofun⟩
  cases found : (selectChanges journal ⟨none, t₁⟩).getLast? with
  | none => exact absurd (List.getLast?_eq_none_iff.mp found) (List.ne_nil_of_mem listed)
  | some other =>
    obtain ⟨inside, upTo, above⟩ := getLast?_selectChanges found
    have keys : other.key = last.key := le_antisymm (greatest other inside upTo)
      (above last mem early)
    have ids : other.id = last.id := BitVec.toNat_inj.mp (congrArg (fun k => (ofLex k).2) keys)
    rw [following, found, Option.map_some, ids]

private theorem mem_first (mem : row ∈ journal) :
    row ∈ selectChanges journal ⟨none, t₁⟩ ↔ row.changedAt ≤ t₁ := by
  rw [mem_selectChanges]
  exact ⟨fun found => found.2.1, fun early => ⟨mem, early, nofun⟩⟩

private theorem mem_after {after : Uuid} (mem : row ∈ journal) (upTo : row.changedAt ≤ t₂) :
    row ∈ selectChanges journal ⟨some after, t₂⟩ ↔ after < row.id := by
  rw [mem_selectChanges]
  refine ⟨fun found => found.2.2 _ rfl, fun above => ⟨mem, upTo, fun _ named => ?_⟩⟩
  cases named
  exact above

private theorem once_iff_cut :
    Once journal t₁ t₂ ↔ ∀ last ∈ journal, last.changedAt ≤ t₁ →
      (∀ row ∈ journal, row.changedAt ≤ t₁ → row.key ≤ last.key) →
      ∀ row ∈ journal, row.changedAt ≤ t₂ → (last.id < row.id ↔ t₁ < row.changedAt) := by
  constructor
  · intro once last mem early greatest row among upTo
    have both := once row among upTo
    rw [mem_first among, following_last mem early greatest,
      mem_after among upTo] at both
    rw [← not_le, both, not_not]
  · intro cut row mem upTo
    rw [mem_first mem]
    cases found : (selectChanges journal ⟨none, t₁⟩).getLast? with
    | none =>
      -- an empty first window leaves the second one without a lower bound
      have late : ¬ row.changedAt ≤ t₁ := by
        rw [← mem_first mem, List.getLast?_eq_none_iff.mp found]
        exact List.not_mem_nil
      rw [following, found, Option.map_none]
      exact iff_of_false late (not_not.mpr (mem_selectChanges.mpr ⟨mem, upTo, nofun⟩))
    | some last =>
      obtain ⟨inside, early, greatest⟩ := getLast?_selectChanges found
      rw [following, found, Option.map_some, mem_after mem upTo,
        cut last inside early greatest row mem upTo, not_lt]

private theorem before_of_window (recorded : Recorded journal)
    (before : Before (selectChanges journal window) a b)
    (tie : Before journal b a → a.changedAt = b.changedAt → b.id < a.id) : Before journal a b := by
  have left := (mem_selectChanges.mp before.left_mem).1
  have right := (mem_selectChanges.mp before.right_mem).1
  rcases JournalRow.key_le.mp (before.of_pairwise (sortBy_ordered _ _)) with earlier | ⟨time, id⟩
  · exact recorded.before_of_earlier left right earlier
  · have other : a ≠ b := by
      rintro rfl
      exact Before.asymm (recorded.nodup_select window) before before
    refine (Before.total left right other).resolve_right fun back => ?_
    exact absurd (tie back time) (BitVec.not_lt.mpr id)

/-- The windows lose nothing exactly when the ids follow the times. -/
theorem losesNothing_iff (recorded : Recorded journal) (ordered : t₁ ≤ t₂) :
    LosesNothing journal t₁ t₂ ↔ IdsFollowTimes journal t₁ t₂ := by
  rw [recorded.losesNothing_rows]
  constructor
  · rintro ⟨once, order⟩
    refine ⟨once_iff_cut.mp once, fun a b before same time upTo => ?_⟩
    by_contra descending
    have other : b.id ≠ a.id := (Before.ne_of_nodup recorded.ids before).symm
    have less : b.key < a.key := JournalRow.key_lt.mpr
      (.inr ⟨time.symm, BitVec.lt_of_le_ne (BitVec.not_lt.mp descending) other⟩)
    -- a window that returns both rows puts the lower id first
    have never {window : ChangeWindow} (left : a ∈ selectChanges journal window)
        (right : b ∈ selectChanges journal window)
        (part : (selectChanges journal window).Sublist (selectChanges journal ⟨none, t₁⟩ ++
          selectChanges journal (following journal t₁ t₂))) : False := by
      have back := order b a ((before_selectChanges right left less).trans part)
        ⟨same.1.symm, same.2.symm⟩
      exact Before.asymm (recorded.ids.of_map _) before back
    have left := once a before.left_mem (time ▸ upTo)
    have right := once b before.right_mem upTo
    rw [mem_first before.left_mem] at left
    rw [mem_first before.right_mem] at right
    by_cases early : b.changedAt ≤ t₁
    · exact never ((mem_first before.left_mem).mpr (time ▸ early))
        ((mem_first before.right_mem).mpr early) (List.sublist_append_left _ _)
    · exact never (not_not.mp fun absent => early (time ▸ left.mpr absent))
        (not_not.mp fun absent => early (right.mpr absent)) (List.sublist_append_right _ _)
  · rintro ⟨cut, tie⟩
    have once := once_iff_cut.mpr cut
    refine ⟨once, fun a b before same => ?_⟩
    have turned (back : Before journal b a) (time : a.changedAt = b.changedAt)
        (upTo : b.changedAt ≤ t₂) : b.id < a.id :=
      tie b a back ⟨same.1.symm, same.2.symm⟩ time.symm (time ▸ upTo)
    rcases Before.append_iff.mp before with first | ⟨first, second⟩ | second
    · have upTo := ((mem_selectChanges.mp first.right_mem).2.1).trans ordered
      exact recorded.before_of_window first fun back time => turned back time upTo
    · obtain ⟨left, early, _⟩ := mem_selectChanges.mp first
      obtain ⟨right, upTo, _⟩ := mem_selectChanges.mp second
      have late : ¬ b.changedAt ≤ t₁ := fun early =>
        (once b right upTo).mp ((mem_first right).mpr early) second
      exact recorded.before_of_earlier left right (lt_of_le_of_lt early (not_le.mp late))
    · have upTo : b.changedAt ≤ t₂ := (mem_selectChanges.mp second.right_mem).2.1
      exact recorded.before_of_window second fun back time => turned back time upTo

end Recorded

/-- Two windows in a row over a recorded journal lose nothing exactly when the drawn
ids follow the times. -/
theorem exportChanges_lossless (enabled : Bool) {recordings : List Recording}
    (fresh : (recordings.map Recording.id).Nodup)
    (clock : recordings.Pairwise fun a b => a.now ≤ b.now) {t₁ t₂ : Int} (ordered : t₁ ≤ t₂) :
    LosesNothing (recordAll enabled recordings) t₁ t₂ ↔
      IdsFollowTimes (recordAll enabled recordings) t₁ t₂ :=
  (recordAll_recorded enabled fresh clock).losesNothing_iff ordered

section Accounts

def accountEvent (action : ChangeAction) : MutationEvent where
  phase := .after
  action := action
  entityName := "Account"
  tableName := "accounts"
  primaryKeys := ["id"]
  id := "7"

def accountWrites (first second : Uuid) : List Recording :=
  [⟨first, 1, accountEvent .created⟩, ⟨second, 2, accountEvent .updated⟩]

def accountJournal (first second : Uuid) : List JournalRow :=
  [(accountEvent .created).row first 1, (accountEvent .updated).row second 2]

private theorem recordAll_accounts (first second : Uuid) :
    recordAll true (accountWrites first second) = accountJournal first second := rfl

theorem exportChanges_lossless_accounts : LosesNothing (recordAll true (accountWrites 1 2)) 1 2 := by
  refine (exportChanges_lossless true (by decide) (by decide) (by decide)).mpr ⟨?_, ?_⟩
  · intro last mem early _ row among _
    simp only [recordAll_accounts, accountJournal, List.mem_cons, List.not_mem_nil,
      or_false] at mem among
    rcases mem with rfl | rfl
    · rcases among with rfl | rfl <;> decide
    · exact absurd early (by decide)
  · intro a b before _ time _
    rw [recordAll_accounts, accountJournal] at before
    rcases Before.cons_iff.mp before with ⟨rfl, later⟩ | never
    · rw [List.mem_singleton.mp later] at time
      exact absurd time (by decide)
    · exact absurd never.length_le (Nat.not_succ_le_self 1)

/-- An update whose id is below the one of the creation is in neither window. -/
theorem exportChanges_loses_update :
    ∃ recordings : List Recording, (recordings.map Recording.id).Nodup ∧
      recordings.Pairwise (fun a b => a.now ≤ b.now) ∧
      ¬ LosesNothing (recordAll true recordings) 1 2 := by
  refine ⟨accountWrites 2 1, by decide, by decide, fun lossless => ?_⟩
  have recorded : Recorded (recordAll true (accountWrites 2 1)) :=
    recordAll_recorded true (by decide) (by decide)
  have cut := ((recorded.losesNothing_iff (by decide)).mp lossless).cut
  rw [recordAll_accounts, accountJournal] at cut
  have side := cut _ (.head _) (by decide) (fun row mem early => ?_)
    ((accountEvent .updated).row 1 2) (by simp) (by decide)
  · exact absurd (side.mpr (by decide)) (by decide)
  · simp only [List.mem_cons, List.not_mem_nil, or_false] at mem
    rcases mem with rfl | rfl
    · exact le_refl _
    · exact absurd early (by decide)

end Accounts

end GraphqlOrm.RowBackup
