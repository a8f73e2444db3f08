import GraphqlOrm.Backup.Payload

/-!
# Runs of the object tasks

What one step of a task does to the repository, and from it what any number of steps
leaves there, whichever tasks make them and whichever calls fail.
-/
namespace GraphqlOrm.Backup

open Outcome Faulty
open Lease (Uuid)
open Storage (Bytes)

/-! ### One step of a task -/

def Stage.rank : Stage → Nat
  | starting => 4
  | opened _ => 3
  | reusing => 2
  | checking => 1
  | mismatched _ => 1

theorem Stage.rank_pos (stage : Stage) : 0 < stage.rank := by
  cases stage <;> simp [Stage.rank]

def Task.IsWriter (task : Task) : Prop := ∃ actual, task.stage = .mismatched actual

instance (task : Task) : Decidable task.IsWriter :=
  match stage : task.stage with
  | .mismatched actual => .isTrue ⟨actual, stage⟩
  | .starting | .opened _ | .reusing | .checking =>
    .isFalse fun ⟨_, same⟩ => by rw [stage] at same; cases same

/-- Everything that a step of a task can do. -/
inductive Polled (codec : Codec) (task : Task) (fault : Option Fault) (repository : Repository) :
    Progress → Repository → Prop where
  | stopped (error : BackupError) (reader : fault = none → ¬ task.IsWriter) :
      Polled codec task fault repository (.failed error) repository
  | advanced (stage : Stage) (reader : ∀ actual, stage ≠ .mismatched actual)
      (nearer : stage.rank < task.stage.rank) :
      Polled codec task fault repository (.goesOn stage) repository
  | wrote (bytes : Bytes) (absent : repository.get? task.contentKey = none)
      (right : codec.sha256 bytes = task.object.sha256Hex) :
      Polled codec task fault repository (.finished (task.entry bytes.length))
        (repository.insert task.contentKey bytes)
  | wroteWrong (bytes : Bytes) (absent : repository.get? task.contentKey = none)
      (wrong : codec.sha256 bytes ≠ task.object.sha256Hex)
      (nearer : (Stage.mismatched (codec.sha256 bytes)).rank < task.stage.rank) :
      Polled codec task fault repository (.goesOn (.mismatched (codec.sha256 bytes)))
        (repository.insert task.contentKey bytes)
  | wroteAndStopped (bytes : Bytes) (absent : repository.get? task.contentKey = none)
      (error : BackupError) (faulty : fault ≠ none) :
      Polled codec task fault repository (.failed error) (repository.insert task.contentKey bytes)
  | deleted (actual : String) (writer : task.stage = .mismatched actual) (error : BackupError) :
      Polled codec task fault repository (.failed error) (repository.erase task.contentKey)
  | reused (size : Nat) (stored : Stored codec repository task.contentKey task.object.sha256Hex) :
      Polled codec task fault repository (.finished (task.entry size)) repository

section Poll

variable {codec : Codec} {objects : BackupObjectIndex} {task : Task} {fault : Option Fault}
  {repository : Repository}

private theorem polled_opened {source : Storage.StorageByteStream} (stage : task.stage = .opened source) :
    Polled codec task fault repository (task.poll codec objects fault repository).1
      (task.poll codec objects fault repository).2 := by
  have reader : ¬ task.IsWriter := by
    rintro ⟨actual, other⟩
    rw [stage] at other
    cases other
  simp only [Task.poll, stage, putStreamIfAbsent]
  cases drained : drain source with
  | error e =>
    cases fault with
    | none => exact .stopped e fun _ => reader
    | some fault =>
      simp only [ite_self]
      exact .stopped fault.error fun _ => reader
  | ok bytes =>
    by_cases present : repository.contains task.contentKey = true
    · simp only [if_pos present]
      cases fault with
      | none => exact .advanced .reusing (fun _ same => by cases same) (by simp [stage, Stage.rank])
      | some fault =>
        simp only [ite_self]
        exact .stopped fault.error fun _ => reader
    · have absent : repository.get? task.contentKey = none :=
        OrderedMap.contains_eq_false.mp (Bool.eq_false_iff.mpr present)
      simp only [if_neg present]
      cases fault with
      | none =>
        by_cases right : codec.sha256 bytes = task.object.sha256Hex
        · simp only [if_pos right]
          exact .wrote bytes absent right
        · simp only [if_neg right]
          exact .wroteWrong bytes absent right (by simp [stage, Stage.rank])
      | some fault =>
        by_cases effect : fault.effect = true
        · simp only [if_pos effect]
          exact .wroteAndStopped bytes absent fault.error (Option.some_ne_none fault)
        · simp only [if_neg effect]
          exact .stopped fault.error fun _ => reader

theorem Task.polled (codec : Codec) (objects : BackupObjectIndex) (task : Task)
    (fault : Option Fault) (repository : Repository) :
    Polled codec task fault repository (task.poll codec objects fault repository).1
      (task.poll codec objects fault repository).2 := by
  have reader (other : ∀ actual, task.stage ≠ .mismatched actual) : ¬ task.IsWriter :=
    fun ⟨actual, same⟩ => other actual same
  cases stage : task.stage with
  | starting =>
    have quiet : ¬ task.IsWriter := reader fun actual same => by rw [stage] at same; cases same
    simp only [Task.poll, stage]
    cases objects.loadObjectStream task.object (2 * task.index) with
    | error e => exact .stopped e fun _ => quiet
    | ok source =>
      exact .advanced (.opened source) (fun _ same => by cases same) (by simp [stage, Stage.rank])
  | opened source => exact polled_opened stage
  | mismatched actual =>
    simp only [Task.poll, stage]
    cases fault with
    | none => exact .deleted actual stage _
    | some fault =>
      by_cases effect : fault.effect = true
      · simp only [if_pos effect]
        exact .deleted actual stage _
      · simp only [if_neg effect]
        exact .stopped fault.error fun impossible => by cases impossible
  | reusing =>
    have quiet : ¬ task.IsWriter := reader fun actual same => by rw [stage] at same; cases same
    simp only [Task.poll, stage]
    cases (objects.loadObjectStream task.object (2 * task.index + 1)).bind drain with
    | error e => exact .stopped e fun _ => quiet
    | ok bytes =>
      by_cases other : codec.sha256 bytes ≠ task.object.sha256Hex
      · simp only [if_pos other]
        exact .stopped _ fun _ => quiet
      · simp only [if_neg other]
        exact .advanced .checking (fun _ same => by cases same) (by simp [stage, Stage.rank])
  | checking =>
    have quiet : ¬ task.IsWriter := reader fun actual same => by rw [stage] at same; cases same
    simp only [Task.poll, stage]
    cases fault with
    | some fault => exact .stopped fault.error fun _ => quiet
    | none =>
      cases verified : verifyBlobChecksum codec repository task.contentKey task.object.sha256Hex with
      | error e => exact .stopped e fun _ => quiet
      | ok size => exact .reused size (verifyBlobChecksum_stored.mp ⟨size, verified⟩)

end Poll

/-! ### Blobs -/

section Blobs

variable {codec : Codec} {repository : Repository} {key other digest : String} {bytes : Bytes}

theorem Stored.insert (stored : Stored codec repository key digest)
    (absent : repository.get? other = none) :
    Stored codec (repository.insert other bytes) key digest := by
  refine stored.congr ?_
  obtain ⟨body, found, _⟩ := stored
  rw [OrderedMap.get?_insert, if_neg]
  rintro rfl
  rw [absent] at found
  cases found

theorem stored_insert (right : codec.sha256 bytes = digest) :
    Stored codec (repository.insert key bytes) key digest :=
  ⟨bytes, by rw [OrderedMap.get?_insert, if_pos rfl], right⟩

theorem Stored.erase (stored : Stored codec repository key digest) (apart : key ≠ other) :
    Stored codec (repository.erase other) key digest :=
  stored.congr (by rw [OrderedMap.get?_erase, if_neg apart])

theorem Stored.digest_eq {digest' : String} (stored : Stored codec repository key digest)
    (again : Stored codec repository key digest') : digest = digest' := by
  obtain ⟨body, found, rfl⟩ := stored
  obtain ⟨body', found', rfl⟩ := again
  rw [found] at found'
  cases found'
  rfl

/-- Blobs stay as they are, and only objects are added. -/
structure AddsObjects (origin repository : Repository) : Prop where
  kept : ∀ key body, origin.get? key = some body → repository.get? key = some body
  others : ∀ key, (∀ sha256Hex, key ≠ objectContentKey sha256Hex) →
    repository.get? key = origin.get? key

theorem AddsObjects.refl (origin : Repository) : AddsObjects origin origin :=
  ⟨fun _ _ found => found, fun _ _ => rfl⟩

theorem AddsObjects.insert {origin : Repository} (adds : AddsObjects origin repository)
    {sha256Hex : String} (absent : repository.get? (objectContentKey sha256Hex) = none) :
    AddsObjects origin (repository.insert (objectContentKey sha256Hex) bytes) where
  kept key body found := by
    have present := adds.kept key body found
    rw [OrderedMap.get?_insert, if_neg, present]
    rintro rfl
    rw [absent] at present
    cases present
  others key apart := by
    rw [OrderedMap.get?_insert, if_neg (apart sha256Hex), adds.others key apart]

theorem AddsObjects.erase {origin : Repository} (adds : AddsObjects origin repository)
    {sha256Hex : String} (new : origin.get? (objectContentKey sha256Hex) = none) :
    AddsObjects origin (repository.erase (objectContentKey sha256Hex)) where
  kept key body found := by
    rw [OrderedMap.get?_erase, if_neg, adds.kept key body found]
    rintro rfl
    rw [new] at found
    cases found
  others key apart := by
    rw [OrderedMap.get?_erase, if_neg (apart sha256Hex), adds.others key apart]

end Blobs

/-! ### Steps of the pool -/

/-- An entry under the key of its checksum, with a blob that has it. -/
structure Addressed (codec : Codec) (repository : Repository) (entry : ObjectBackupEntry) : Prop where
  key : entry.contentKey = objectContentKey entry.sha256Hex
  stored : Stored codec repository entry.contentKey entry.sha256Hex

/-- What holds of a pool that started on `origin`. As long as no error has dropped them,
writers own the wrong blobs that they have added. -/
structure Pool.Sound (codec : Codec) (origin : Repository) (pool : Pool) (repository : Repository) :
    Prop where
  adds : AddsObjects origin repository
  collected : ∀ item ∈ pool.collected, Addressed codec repository item.2
  waiting : ∀ task ∈ pool.waiting, task.stage = .starting
  writers : pool.error = none → ∀ task ∈ pool.running, ∀ actual, task.stage = .mismatched actual →
    origin.get? task.contentKey = none ∧ actual ≠ task.object.sha256Hex ∧
      Stored codec repository task.contentKey actual

namespace Pool

def rank (pool : Pool) : Nat := ((pool.waiting ++ pool.running).map fun task => task.stage.rank).sum

section Steps

variable {codec : Codec} {objects : BackupObjectIndex} {concurrency choice : Nat}
  {fault : Option Fault} {pool : Pool} {origin repository : Repository}

theorem Sound.refill (sound : pool.Sound codec origin repository) (concurrency : Nat) :
    (pool.refill concurrency).Sound codec origin repository where
  adds := sound.adds
  collected := sound.collected
  waiting task mem := sound.waiting task (List.mem_of_mem_drop mem)
  writers live task mem actual stage := by
    rcases List.mem_append.mp mem with old | started
    · exact sound.writers live task old actual stage
    · have fresh := sound.waiting task (List.mem_of_mem_take started)
      rw [stage] at fresh
      cases fresh

/-- A step of the pool is a step of one of its tasks, once there is room for it. -/
theorem step_cases (open_ : pool.returned = false) (room : 0 < concurrency) (choice : Nat)
    (fault : Option Fault) (repository : Repository) :
    ∃ front task back, (pool.refill concurrency).running = front ++ task :: back ∧
      (pool.refill concurrency).pick choice = front.length ∧
      pool.step codec objects concurrency choice fault repository =
        ((pool.refill concurrency).settle front.length task
          (task.poll codec objects fault repository).1,
          (task.poll codec objects fault repository).2) := by
  obtain ⟨filled, named⟩ : ∃ filled, pool.refill concurrency = filled := ⟨_, rfl⟩
  have some_ : filled.running ≠ [] := by
    intro empty
    subst named
    simp only [Pool.refill, List.append_eq_nil_iff, List.take_eq_nil_iff] at empty
    obtain ⟨idle, none_ | nothing⟩ := empty
    · rw [idle, List.length_nil] at none_
      omega
    · simp [returned, idle, nothing] at open_
  have inside : filled.pick choice < filled.running.length :=
    Nat.mod_lt _ (List.length_pos_iff.mpr some_)
  refine ⟨filled.running.take (filled.pick choice), filled.running[filled.pick choice],
    filled.running.drop (filled.pick choice + 1), ?_, ?_, ?_⟩
  · rw [named, List.cons_getElem_drop_succ, List.take_append_drop]
  · rw [named, List.length_take]
    omega
  · unfold step
    rw [if_neg (by rw [open_]; decide), named]
    simp only [List.getElem?_eq_getElem inside, List.length_take, Nat.min_eq_left inside.le]

theorem settle_running {front back : List Task} {task : Task}
    (split : pool.running = front ++ task :: back) :
    pool.running.eraseIdx front.length = front ++ back ∧
      ∀ next, pool.running.set front.length next = front ++ next :: back := by
  rw [split]
  exact ⟨by simp [List.eraseIdx_append_of_length_le], fun next => by simp⟩

theorem Sound.settle (sound : pool.Sound codec origin repository) (live : pool.error = none)
    {front back : List Task} {task : Task} (split : pool.running = front ++ task :: back)
    {progress : Progress} {repository' : Repository}
    (polled : Polled codec task fault repository progress repository') :
    (pool.settle front.length task progress).Sound codec origin repository' := by
  obtain ⟨erased, replaced⟩ := settle_running split
  have mem : task ∈ pool.running := by simp [split]
  have old {other : Task} (inside : other ∈ front ++ back) : other ∈ pool.running := by
    rw [split]
    rcases List.mem_append.mp inside with before | after
    · exact List.mem_append_left _ before
    · exact List.mem_append_right _ (.tail _ after)
  cases polled with
  | stopped error reader =>
    exact ⟨sound.adds, sound.collected, sound.waiting, fun impossible => by cases impossible⟩
  | advanced stage reader nearer =>
    refine ⟨sound.adds, sound.collected, sound.waiting, fun _ other inside actual writer => ?_⟩
    simp only [Pool.settle, replaced] at inside
    rcases List.mem_append.mp inside with before | at_
    · exact sound.writers live other (old (List.mem_append_left _ before)) actual writer
    · rcases List.mem_cons.mp at_ with rfl | after
      · exact absurd writer (reader actual)
      · exact sound.writers live other (old (List.mem_append_right _ after)) actual writer
  | wrote bytes absent right =>
    refine ⟨sound.adds.insert absent, fun item inside => ?_, sound.waiting,
      fun _ other inside actual writer => ?_⟩
    · rcases List.mem_append.mp inside with before | here
      · have addressed := sound.collected item before
        exact ⟨addressed.key, addressed.stored.insert absent⟩
      · rw [List.mem_singleton.mp here]
        exact ⟨rfl, stored_insert right⟩
    · simp only [Pool.settle, erased] at inside
      obtain ⟨new, wrong, stored⟩ := sound.writers live other (old inside) actual writer
      exact ⟨new, wrong, stored.insert absent⟩
  | wroteWrong bytes absent wrong nearer =>
    refine ⟨sound.adds.insert absent, fun item inside => ?_, sound.waiting,
      fun _ other inside actual writer => ?_⟩
    · have addressed := sound.collected item inside
      exact ⟨addressed.key, addressed.stored.insert absent⟩
    · simp only [Pool.settle, replaced] at inside
      have kept {other : Task} (inside : other ∈ front ++ back)
          (writer : other.stage = .mismatched actual) := by
        obtain ⟨new, wrong, stored⟩ := sound.writers live other (old inside) actual writer
        exact (⟨new, wrong, stored.insert absent⟩ :
          _ ∧ _ ∧ Stored codec (repository.insert task.contentKey bytes) other.contentKey actual)
      rcases List.mem_append.mp inside with before | at_
      · exact kept (List.mem_append_left _ before) writer
      · rcases List.mem_cons.mp at_ with rfl | after
        · cases writer
          -- The key was free when the snapshot began: nothing else removes a blob.
          have new : origin.get? task.contentKey = none := by
            cases found : origin.get? task.contentKey with
            | none => rfl
            | some body =>
              rw [sound.adds.kept _ body found] at absent
              cases absent
          exact ⟨new, wrong, stored_insert rfl⟩
        · exact kept (List.mem_append_right _ after) writer
  | wroteAndStopped bytes absent error faulty =>
    refine ⟨sound.adds.insert absent, fun item inside => ?_, sound.waiting,
      fun impossible => by cases impossible⟩
    have addressed := sound.collected item inside
    exact ⟨addressed.key, addressed.stored.insert absent⟩
  | deleted actual writer error =>
    obtain ⟨new, wrong, stored⟩ := sound.writers live task mem actual writer
    refine ⟨sound.adds.erase new, fun item inside => ?_, sound.waiting,
      fun impossible => by cases impossible⟩
    have addressed := sound.collected item inside
    refine ⟨addressed.key, addressed.stored.erase fun same => wrong ?_⟩
    -- An entry under the deleted key would have the checksum of a wrong blob.
    have digests : item.2.sha256Hex = task.object.sha256Hex :=
      objectContentKey_inj.mp (addressed.key.symm.trans same)
    rw [← digests]
    exact (same ▸ stored).digest_eq addressed.stored
  | reused size stored =>
    refine ⟨sound.adds, fun item inside => ?_, sound.waiting, fun _ other inside actual writer => ?_⟩
    · rcases List.mem_append.mp inside with before | here
      · exact sound.collected item before
      · rw [List.mem_singleton.mp here]
        exact ⟨rfl, stored⟩
    · simp only [Pool.settle, erased] at inside
      exact sound.writers live other (old inside) actual writer

theorem live_of_open (open_ : pool.returned = false) : pool.error = none := by
  unfold returned at open_
  cases error : pool.error with
  | none => rfl
  | some e => simp [error] at open_

theorem Sound.step (objects : BackupObjectIndex) (choice : Nat) (fault : Option Fault)
    (sound : pool.Sound codec origin repository) (room : 0 < concurrency) :
    (pool.step codec objects concurrency choice fault repository).1.Sound codec origin
      (pool.step codec objects concurrency choice fault repository).2 := by
  cases open_ : pool.returned with
  | true =>
    unfold Pool.step
    rw [if_pos open_]
    exact sound
  | false =>
    obtain ⟨front, task, back, split, _, stepped⟩ :=
      step_cases open_ room choice fault repository
    rw [stepped]
    have live := live_of_open open_
    exact (sound.refill concurrency).settle live split (task.polled codec objects fault repository)

/-! ### Progress -/

theorem rank_refill (concurrency : Nat) (pool : Pool) : (pool.refill concurrency).rank = pool.rank := by
  simp only [rank, refill, List.map_append, List.sum_append, List.map_drop, List.map_take]
  have whole := congrArg List.sum (List.take_append_drop (concurrency - pool.running.length)
    (pool.waiting.map fun task => task.stage.rank))
  rw [List.sum_append] at whole
  omega

theorem rank_settle {front back : List Task} {task : Task}
    (split : pool.running = front ++ task :: back) {progress : Progress} {repository' : Repository}
    (polled : Polled codec task fault repository progress repository') :
    (pool.settle front.length task progress).returned = true ∨
      (pool.settle front.length task progress).rank < pool.rank := by
  obtain ⟨erased, replaced⟩ := settle_running split
  have positive := task.stage.rank_pos
  have goesOn {stage : Stage} (nearer : stage.rank < task.stage.rank) :
      (pool.settle front.length task (.goesOn stage)).rank < pool.rank := by
    simp only [settle, rank]
    rw [replaced, split]
    simp only [List.map_append, List.map_cons, List.sum_append, List.sum_cons]
    omega
  have finished (entry : ObjectBackupEntry) :
      (pool.settle front.length task (.finished entry)).rank < pool.rank := by
    simp only [settle, rank]
    rw [erased, split]
    simp only [List.map_append, List.map_cons, List.sum_append, List.sum_cons]
    omega
  cases polled with
  | stopped | wroteAndStopped | deleted => exact .inl rfl
  | advanced stage reader nearer | wroteWrong bytes absent wrong nearer =>
    exact .inr (goesOn nearer)
  | wrote | reused => exact .inr (finished _)

theorem rank_step (open_ : pool.returned = false) (room : 0 < concurrency) :
    (pool.step codec objects concurrency choice fault repository).1.returned = true ∨
      (pool.step codec objects concurrency choice fault repository).1.rank < pool.rank := by
  obtain ⟨front, task, back, split, _, stepped⟩ :=
    step_cases open_ room choice fault repository
  rw [stepped, ← rank_refill concurrency pool]
  exact rank_settle split (task.polled codec objects fault repository)

/-- Enough steps end the run. -/
theorem step_returned (room : 0 < concurrency) {fuel : Nat}
    (bound : pool.returned = true ∨ pool.rank ≤ fuel + 1) :
    (pool.step codec objects concurrency choice fault repository).1.returned = true ∨
      (pool.step codec objects concurrency choice fault repository).1.rank ≤ fuel := by
  cases open_ : pool.returned with
  | true =>
    unfold Pool.step
    rw [if_pos open_]
    exact .inl open_
  | false =>
    rcases bound with done | low
    · rw [open_] at done
      cases done
    · exact (rank_step open_ room).imp_right fun less => by omega

theorem returned_of_rank (idle : pool.rank ≤ 0) : pool.returned = true := by
  have none_ : pool.waiting ++ pool.running = [] := by
    cases tasks : pool.waiting ++ pool.running with
    | nil => rfl
    | cons task rest =>
      have positive := task.stage.rank_pos
      simp only [rank, tasks, List.map_cons, List.sum_cons] at idle
      omega
  obtain ⟨waiting, running⟩ := List.append_eq_nil_iff.mp none_
  simp [returned, waiting, running]

theorem rank_start (objectRefs : List BackupObjectRef) : (start objectRefs).rank = 4 * objectRefs.length := by
  have each (n : Nat) : ((objectRefs.zipIdx n).map fun entry =>
      (Task.mk entry.2 entry.1 .starting).stage.rank).sum = 4 * objectRefs.length := by
    simp [Stage.rank, Nat.mul_comm]
  simpa [rank, start, List.map_map, Function.comp_def] using each 0

/-! ### Whole runs -/

theorem sound_start (codec : Codec) (origin : Repository) (objectRefs : List BackupObjectRef) :
    (start objectRefs).Sound codec origin origin where
  adds := .refl origin
  collected _ mem := by cases mem
  waiting task mem := by
    obtain ⟨entry, _, rfl⟩ := List.mem_map.mp mem
    rfl
  writers _ _ mem := by cases mem

/-- However the calls fail, a run with enough fuel returns, and is sound at every point. -/
theorem triple_run (room : 0 < concurrency) (choose : Nat → Nat) (fuel position : Nat) (pool : Pool) :
    Triple (fun repository => pool.Sound codec origin repository ∧
        (pool.returned = true ∨ pool.rank ≤ fuel))
      (Pool.run codec objects concurrency choose fuel position pool)
      (fun last repository => last.Sound codec origin repository ∧ last.returned = true)
      (fun _ => AddsObjects origin) (AddsObjects origin) := by
  induction fuel generalizing position pool with
  | zero =>
    exact Triple.pure fun _ ⟨sound, bound⟩ => ⟨sound, bound.elim id returned_of_rank⟩
  | succ fuel ih =>
    refine Triple.through (fun next repository => next.Sound codec origin repository ∧
      (next.returned = true ∨ next.rank ≤ fuel)) (Triple.call ?_) fun next => ih _ next
    intro fault repository ⟨sound, bound⟩
    have after := Sound.step objects (choose position) fault sound room
    exact ⟨⟨after, step_returned room bound⟩, after.adds⟩

end Steps

end Pool

section Entries

variable {codec : Codec} {objects : BackupObjectIndex} {origin : Repository}

/-- Writing objects adds blobs and disturbs none, whatever fails. The entries that it returns
name blobs with their checksums. -/
theorem triple_writeObjectEntries (origin : Repository) (objectRefs : List BackupObjectRef) (objectConcurrency : Nat)
    (choose : Nat → Nat) :
    Triple (fun repository => repository = origin)
      (writeObjectEntries codec objects objectRefs objectConcurrency choose)
      (fun entries repository => AddsObjects origin repository ∧
        ∀ entry ∈ entries, Addressed codec repository entry)
      (fun _ => AddsObjects origin) (AddsObjects origin) := by
  have room : 0 < max objectConcurrency 1 := by omega
  refine Triple.through _ ((Pool.triple_run room choose _ 0 _).weaken ?_ (fun _ _ h => h)
    (fun _ _ h => h) fun _ h => h) fun pool => ?_
  · rintro repository rfl
    exact ⟨Pool.sound_start codec repository objectRefs, .inr (Pool.rank_start objectRefs).le⟩
  · cases failed : pool.error with
    | some error => exact Triple.throw fun _ ⟨sound, _⟩ => sound.adds
    | none =>
      refine Triple.pure fun repository ⟨sound, _⟩ => ⟨sound.adds, fun entry mem => ?_⟩
      obtain ⟨item, inside, rfl⟩ := List.mem_map.mp mem
      exact sound.collected item (mem_sortBy.mp inside)

end Entries

end GraphqlOrm.Backup
