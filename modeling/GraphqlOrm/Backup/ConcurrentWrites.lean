import GraphqlOrm.Backup.ObjectPool
import GraphqlOrm.Backup.SnapshotJson

/-!
# Content addressing under concurrent writes

A task whose source does not match its checksum stores the blob first and deletes it
afterwards. The first error drops the other tasks where they are, so that the blob
of one that waits for its deletion stays behind under a checksum that it does not have.
-/
namespace GraphqlOrm.Backup

open Outcome Faulty
open Storage (Bytes)

namespace Pool

section Drops

variable (codec : Codec) (objects : BackupObjectIndex) (concurrency : Nat)

/-- The states of a run in which no repository call fails. -/
def states (choose : Nat → Nat) (pool : Pool) (repository : Repository) : Nat → Pool × Repository
  | 0 => (pool, repository)
  | n + 1 =>
    let reached := states choose pool repository n
    reached.1.step codec objects concurrency (choose n) none reached.2

/-- The chosen task fails while another one that is in flight has yet to delete its blob. -/
def DropsWriter (choice : Nat) (pool : Pool) (repository : Repository) : Prop :=
  pool.returned = false ∧
    ∃ front task back, (pool.refill concurrency).running = front ++ task :: back ∧
      (pool.refill concurrency).pick choice = front.length ∧
      (∃ error, (task.poll codec objects none repository).1 = .failed error) ∧
      ∃ other ∈ front ++ back, other.IsWriter

/-- The chosen task is the one at its position. -/
theorem dropsWriter_iff {choice : Nat} {pool : Pool} {repository : Repository} :
    DropsWriter codec objects concurrency choice pool repository ↔
      pool.returned = false ∧
        ∃ task ∈ (pool.refill concurrency).running[(pool.refill concurrency).pick choice]?,
          (task.poll codec objects none repository).1.isFailed = true ∧
          ∃ other ∈ (pool.refill concurrency).running.eraseIdx ((pool.refill concurrency).pick choice),
            other.IsWriter := by
  have failed_iff (progress : Progress) :
      progress.isFailed = true ↔ ∃ error, progress = .failed error := by
    cases progress <;> simp [Progress.isFailed]
  simp only [DropsWriter, failed_iff]
  refine and_congr_right fun _ => ?_
  generalize (pool.refill concurrency).running = running
  generalize (pool.refill concurrency).pick choice = position
  constructor
  · rintro ⟨front, task, back, rfl, rfl, failed, other, mem, writer⟩
    refine ⟨task, by simp, failed, other, ?_, writer⟩
    rwa [List.eraseIdx_append_of_length_le (Nat.le_refl _), Nat.sub_self, List.eraseIdx_cons_zero]
  · rintro ⟨task, found, failed, other, mem, writer⟩
    obtain ⟨inside, rfl⟩ := List.getElem?_eq_some_iff.mp found
    refine ⟨running.take position, running[position], running.drop (position + 1), ?_, ?_, failed,
      other, ?_, writer⟩
    · rw [List.cons_getElem_drop_succ, List.take_append_drop]
    · rw [List.length_take]
      omega
    · rwa [List.eraseIdx_eq_take_drop_succ] at mem

instance (choice : Nat) (pool : Pool) (repository : Repository) :
    Decidable (DropsWriter codec objects concurrency choice pool repository) :=
  decidable_of_iff _ (dropsWriter_iff codec objects concurrency).symm

end Drops

/-- Every blob that was added has its checksum, or a writer in flight is about to delete it. -/
def Clean (codec : Codec) (origin : Repository) (pool : Pool) (repository : Repository) : Prop :=
  ∀ sha256Hex body, origin.get? (objectContentKey sha256Hex) = none →
    repository.get? (objectContentKey sha256Hex) = some body →
      codec.sha256 body = sha256Hex ∨
        (pool.error = none ∧
          ∃ task ∈ pool.running, task.IsWriter ∧ task.object.sha256Hex = sha256Hex)

section Runs

variable {codec : Codec} {objects : BackupObjectIndex} {concurrency choice : Nat}
  {pool : Pool} {origin repository : Repository}

private theorem run_states_from (choose : Nat → Nat) (first : Pool) (start : Repository)
    (fuel position : Nat) :
    let from_ := states codec objects concurrency choose first start position
    let done := Pool.run codec objects concurrency choose fuel position from_.1 [] from_.2
    let last := states codec objects concurrency choose first start (position + fuel)
    done.value = .ok last.1 ∧ done.state = last.2 := by
  induction fuel generalizing position with
  | zero => exact ⟨rfl, rfl⟩
  | succ fuel ih =>
    have next := ih (position + 1)
    rw [Nat.add_right_comm] at next
    exact next

/-- Without faults the run of the pool goes through its states. -/
theorem run_states (codec : Codec) (objects : BackupObjectIndex) (concurrency : Nat)
    (choose : Nat → Nat) (first : Pool) (start : Repository) (fuel : Nat) :
    let done := Pool.run codec objects concurrency choose fuel 0 first [] start
    let last := states codec objects concurrency choose first start fuel
    done.value = .ok last.1 ∧ done.state = last.2 := by
  intro done last
  have whole : done.value = .ok (states codec objects concurrency choose first start (0 + fuel)).1 ∧
      done.state = (states codec objects concurrency choose first start (0 + fuel)).2 :=
    run_states_from choose first start fuel 0
  rw [Nat.zero_add] at whole
  exact whole

private theorem clean_insert (clean : pool.Clean codec origin repository) {key : String} {bytes : Bytes}
    {next : Pool} (error : next.error = none)
    (kept : ∀ task ∈ pool.running, task.IsWriter → ∃ again ∈ next.running,
      again.IsWriter ∧ again.object.sha256Hex = task.object.sha256Hex)
    (added : codec.sha256 bytes = key ∨
      ∃ task ∈ next.running, task.IsWriter ∧ task.object.sha256Hex = key) :
    next.Clean codec origin (repository.insert (objectContentKey key) bytes) := by
  intro sha256Hex body new found
  rw [OrderedMap.get?_insert] at found
  split at found
  next same =>
    cases found
    rw [objectContentKey_inj.mp same]
    exact added.imp_right fun writer => ⟨error, writer⟩
  · rcases clean sha256Hex body new found with right | ⟨_, task, mem, writer, rfl⟩
    · exact .inl right
    · exact .inr ⟨error, kept task mem writer⟩

/-- A step that drops no writer leaves no blob that nobody will delete. -/
theorem Clean.settle (clean : pool.Clean codec origin repository)
    (sound : pool.Sound codec origin repository) (live : pool.error = none)
    {front back : List Task} {task : Task} (split : pool.running = front ++ task :: back)
    {progress : Progress} {repository' : Repository}
    (polled : Polled codec task none repository progress repository')
    (keeps : (∃ error, progress = .failed error) → ∀ other ∈ front ++ back, ¬ other.IsWriter) :
    (pool.settle front.length task progress).Clean codec origin repository' := by
  obtain ⟨erased, replaced⟩ := settle_running split
  have here : task ∈ pool.running := by simp [split]
  -- Who owns a blob is no reader of it.
  have reader (apart : ∀ actual, actual ≠ task.object.sha256Hex →
      ¬ Stored codec repository task.contentKey actual) : ¬ task.IsWriter := by
    rintro ⟨actual, stage⟩
    obtain ⟨_, wrong, stored⟩ := sound.writers live task here actual stage
    exact apart actual wrong stored
  have free (absent : repository.get? task.contentKey = none) : ¬ task.IsWriter := by
    refine reader fun actual _ ⟨body, found, _⟩ => ?_
    rw [absent] at found
    cases found
  have rest {other : Task} (mem : other ∈ pool.running) (apart : other ≠ task) :
      other ∈ front ++ back := by
    rw [split] at mem
    rcases List.mem_append.mp mem with before | at_
    · exact List.mem_append_left _ before
    · rcases List.mem_cons.mp at_ with same | after
      · exact absurd same apart
      · exact List.mem_append_right _ after
  cases polled with
  | stopped error quiet =>
    intro sha256Hex body new found
    rcases clean sha256Hex body new found with right | ⟨_, other, mem, writer, _⟩
    · exact .inl right
    · have apart : other ≠ task := fun same => quiet rfl (same ▸ writer)
      exact absurd writer (keeps ⟨error, rfl⟩ other (rest mem apart))
  | advanced stage quiet nearer =>
    intro sha256Hex body new found
    rcases clean sha256Hex body new found with right | ⟨_, other, mem, writer, same⟩
    · exact .inl right
    · refine .inr ⟨live, other, ?_, writer, same⟩
      have apart : other ≠ task := by
        rintro rfl
        obtain ⟨actual, stage'⟩ := writer
        rw [stage'] at nearer
        -- A writer has one step left, and it is no wait.
        exact absurd nearer (Nat.not_lt.mpr stage.rank_pos)
      simp only [Pool.settle, replaced]
      rcases List.mem_append.mp (rest mem apart) with before | after
      · exact List.mem_append_left _ before
      · exact List.mem_append_right _ (.tail _ after)
  | wrote bytes absent right =>
    refine clean_insert clean live (fun other mem writer => ?_) (.inl right)
    refine ⟨other, ?_, writer, rfl⟩
    simp only [Pool.settle, erased]
    exact rest mem fun same => free absent (same ▸ writer)
  | wroteWrong bytes absent wrong nearer =>
    refine clean_insert clean live (fun other mem writer => ⟨other, ?_, writer, rfl⟩)
      (.inr ⟨{ task with stage := .mismatched (codec.sha256 bytes) }, ?_, ⟨_, rfl⟩, rfl⟩)
    · simp only [Pool.settle, replaced]
      rcases List.mem_append.mp (rest mem fun same => free absent (same ▸ writer)) with
        before | after
      · exact List.mem_append_left _ before
      · exact List.mem_append_right _ (.tail _ after)
    · simp [Pool.settle, replaced]
  | wroteAndStopped bytes absent error faulty => exact absurd rfl faulty
  | deleted actual stage error =>
    intro sha256Hex body new found
    rw [OrderedMap.get?_erase] at found
    split at found
    · cases found
    next other =>
      rcases clean sha256Hex body new found with right | ⟨_, writer, mem, waits, same⟩
      · exact .inl right
      · have apart : writer ≠ task := by
          rintro rfl
          exact other (same ▸ rfl)
        exact absurd waits (keeps ⟨error, rfl⟩ writer (rest mem apart))
  | reused size stored =>
    intro sha256Hex body new found
    rcases clean sha256Hex body new found with right | ⟨_, other, mem, writer, same⟩
    · exact .inl right
    · refine .inr ⟨live, other, ?_, writer, same⟩
      simp only [Pool.settle, erased]
      refine rest mem fun itself => reader (fun actual wrong again => ?_) (itself ▸ writer)
      exact wrong (again.digest_eq stored)

theorem Clean.step (clean : pool.Clean codec origin repository)
    (sound : pool.Sound codec origin repository) (room : 0 < concurrency)
    (keeps : ¬ DropsWriter codec objects concurrency choice pool repository) :
    (pool.step codec objects concurrency choice none repository).1.Clean codec origin
      (pool.step codec objects concurrency choice none repository).2 := by
  cases open_ : pool.returned with
  | true =>
    unfold Pool.step
    rw [if_pos open_]
    exact clean
  | false =>
    obtain ⟨front, task, back, split, chosen, stepped⟩ := step_cases open_ room choice none repository
    rw [stepped]
    have live := live_of_open open_
    have filled : (pool.refill concurrency).Clean codec origin repository := by
      intro sha256Hex body new found
      rcases clean sha256Hex body new found with right | ⟨_, other, mem, writer, same⟩
      · exact .inl right
      · exact .inr ⟨live, other, List.mem_append_left _ mem, writer, same⟩
    refine filled.settle (sound.refill concurrency) live split
      (task.polled codec objects none repository) fun failed other mem writer => ?_
    exact keeps ⟨open_, front, task, back, split, chosen, failed, other, mem, writer⟩

theorem states_sound (room : 0 < concurrency) (choose : Nat → Nat) (sound : pool.Sound codec origin repository)
    (clean : pool.Clean codec origin repository)
    (keeps : ∀ n, ¬ DropsWriter codec objects concurrency (choose n)
      (states codec objects concurrency choose pool repository n).1
      (states codec objects concurrency choose pool repository n).2) (n : Nat) :
    (states codec objects concurrency choose pool repository n).1.Sound codec origin
        (states codec objects concurrency choose pool repository n).2 ∧
      (states codec objects concurrency choose pool repository n).1.Clean codec origin
        (states codec objects concurrency choose pool repository n).2 := by
  induction n with
  | zero => exact ⟨sound, clean⟩
  | succ n ih => exact ⟨ih.1.step _ _ _ room, ih.2.step ih.1 room (keeps n)⟩

/-- A pool that has returned stays as it is. -/
theorem states_returned (choose : Nat → Nat) {n : Nat}
    (returned : (states codec objects concurrency choose pool repository n).1.returned = true)
    (more : Nat) : states codec objects concurrency choose pool repository (n + more) =
      states codec objects concurrency choose pool repository n := by
  induction more with
  | zero => rfl
  | succ more ih =>
    rw [← Nat.add_assoc, states, ih, Pool.step, if_pos returned]

/-- A run that has returned drops nothing any more. -/
theorem not_dropsWriter_of_returned (choose : Nat → Nat) {last : Nat}
    (returned : (states codec objects concurrency choose pool repository last).1.returned = true)
    (before : ∀ n < last, ¬ DropsWriter codec objects concurrency (choose n)
      (states codec objects concurrency choose pool repository n).1
      (states codec objects concurrency choose pool repository n).2) (n : Nat) :
    let reached := states codec objects concurrency choose pool repository n
    ¬ DropsWriter codec objects concurrency (choose n) reached.1 reached.2 := by
  intro reached
  by_cases early : n < last
  · exact before n early
  · have same : reached = states codec objects concurrency choose pool repository last := by
      have late := states_returned choose returned (n - last)
      rwa [Nat.add_sub_cancel' (Nat.not_lt.mp early)] at late
    rw [same]
    exact fun drops => Bool.false_ne_true (drops.1.symm.trans returned)

/-! ### One task at a time -/

theorem running_le_step (few : pool.running.length ≤ concurrency) (fault : Option Fault) :
    (pool.step codec objects concurrency choice fault repository).1.running.length ≤ concurrency := by
  have filled : (pool.refill concurrency).running.length ≤ concurrency := by
    simp only [Pool.refill, List.length_append, List.length_take]
    omega
  unfold Pool.step
  split
  · exact few
  · simp only
    split
    · exact filled
    next task _ =>
      cases (task.poll codec objects fault repository).1 with
      | goesOn stage => simpa [settle] using filled
      | finished entry | failed error => exact (List.length_eraseIdx_le _ _).trans filled

/-- Without concurrency there is nothing to drop. -/
theorem not_dropsWriter_of_single (choose : Nat → Nat) (few : pool.running.length ≤ 1) (n : Nat) :
    let reached := states codec objects 1 choose pool repository n
    ¬ DropsWriter codec objects 1 (choose n) reached.1 reached.2 := by
  intro reached
  have atMost : reached.1.running.length ≤ 1 := by
    have each : ∀ m, (states codec objects 1 choose pool repository m).1.running.length ≤ 1 := by
      intro m
      induction m with
      | zero => exact few
      | succ m ih => exact running_le_step ih none
    exact each n
  rintro ⟨_, front, task, back, split, _, _, other, mem, _⟩
  have whole := congrArg List.length split
  have inside := List.length_pos_of_mem mem
  simp only [Pool.refill, List.length_append, List.length_take, List.length_cons] at whole inside
  omega

end Runs

end Pool

/-- As long as no task fails while another one in flight has yet to delete its blob, every object blob
that the call adds has the checksum in its key, and every entry that it returns names such a blob. -/
theorem objects_stay_addressed (codec : Codec) (objects : BackupObjectIndex)
    (objectRefs : List BackupObjectRef) (objectConcurrency : Nat) (choose : Nat → Nat)
    (repository : Repository)
    (keeps : ∀ n,
      let reached := Pool.states codec objects (max objectConcurrency 1) choose
        (Pool.start objectRefs) repository n
      ¬ Pool.DropsWriter codec objects (max objectConcurrency 1) (choose n) reached.1 reached.2) :
    let done := writeObjectEntries codec objects objectRefs objectConcurrency choose [] repository
    (∀ sha256Hex body, repository.get? (objectContentKey sha256Hex) = none →
      done.state.get? (objectContentKey sha256Hex) = some body → codec.sha256 body = sha256Hex) ∧
    ∀ entries, done.value = .ok entries → ∀ entry ∈ entries,
      entry.contentKey = objectContentKey entry.sha256Hex ∧
        ∃ body, done.state.get? entry.contentKey = some body ∧
          codec.sha256 body = entry.sha256Hex := by
  intro done
  have room : 0 < max objectConcurrency 1 := by omega
  have start : (Pool.start objectRefs).Clean codec repository repository := by
    intro sha256Hex body new found
    rw [new] at found
    cases found
  obtain ⟨value, reached⟩ := Pool.run_states codec objects (max objectConcurrency 1) choose
    (Pool.start objectRefs) repository (4 * objectRefs.length)
  obtain ⟨last, named⟩ : ∃ last, Pool.states codec objects (max objectConcurrency 1) choose
    (Pool.start objectRefs) repository (4 * objectRefs.length) = last := ⟨_, rfl⟩
  have clean := (Pool.states_sound room choose (Pool.sound_start codec repository objectRefs) start
    keeps (4 * objectRefs.length)).2
  have ended := (Pool.triple_run room choose (4 * objectRefs.length) 0 _).returns [] repository
    ⟨Pool.sound_start codec repository objectRefs, .inr (Pool.rank_start objectRefs).le⟩ _ value
  rw [named] at value reached clean ended
  have final : done.state = last.2 := by
    obtain ⟨_, _, same⟩ := bind_of_ok (f := fun pool => _) value
    rw [← reached]
    refine same.trans ?_
    cases last.1.error <;> rfl
  refine ⟨fun sha256Hex body new found => ?_, fun entries returned entry mem => ?_⟩
  · rw [final] at found
    rcases clean sha256Hex body new found with right | ⟨live, task, running, _, _⟩
    · exact right
    · -- A run that has ended without an error has nothing in flight.
      have idle := ended.2
      simp only [Pool.returned, live, Option.isSome_none, Bool.false_or, Bool.and_eq_true,
        List.isEmpty_iff] at idle
      rw [idle.2] at running
      cases running
  · have entries := (triple_writeObjectEntries _ objectRefs objectConcurrency choose).returns []
      repository rfl entries returned
    exact ⟨(entries.2 entry mem).key, (entries.2 entry mem).stored⟩

/-- The checksum of the three bytes `abc`. -/
def abcChecksum : String := "ba7816bf8f01cfea414140de5dae2223b00361a396177a9cb410ff61f20015ad"

def emptyChecksum : String := "e3b0c44298fc1c149afbf4c8996fb92427ae41e4649b934ca495991b7852b855"

/-- An object whose source has lost its bytes, and an empty one. -/
def emptiedObjects : List BackupObjectRef :=
  [⟨1, "letters.txt", abcChecksum, 3, some "text/plain"⟩, ⟨2, "empty.txt", emptyChecksum, 0, none⟩]

def emptiedIndex : BackupObjectIndex where
  listFull := .ok emptiedObjects
  listIncremental _ := .ok []
  loadObjectStream _ _ := .ok [.ok []]

/-- Both tasks are in flight and take turns. The first one writes no bytes under the checksum of
`abc`, the second one stores its blob, and then the first deletes what it wrote. One after the
other they never get in each other's way. -/
theorem objects_stay_addressed_turns :
    let done := writeObjectEntries plainCodec emptiedIndex emptiedObjects 2 (· % 2) [] .empty
    done.value.isOk = false ∧ done.state.keys = [objectContentKey emptyChecksum] ∧
      (∀ sha256Hex body, (OrderedMap.empty : Repository).get? (objectContentKey sha256Hex) = none →
        done.state.get? (objectContentKey sha256Hex) = some body →
          plainCodec.sha256 body = sha256Hex) ∧
      ∀ choose, let alone := writeObjectEntries plainCodec emptiedIndex emptiedObjects 1 choose [] .empty
        ∀ entries, alone.value = .ok entries → ∀ entry ∈ entries,
          entry.contentKey = objectContentKey entry.sha256Hex ∧
            ∃ body, alone.state.get? entry.contentKey = some body ∧
              plainCodec.sha256 body = entry.sha256Hex := by
  have returned : (Pool.states plainCodec emptiedIndex 2 (· % 2) (Pool.start emptiedObjects)
      OrderedMap.empty 5).1.returned = true := by decide +kernel
  have before : ∀ n < 5, ¬ Pool.DropsWriter plainCodec emptiedIndex 2 (n % 2)
      (Pool.states plainCodec emptiedIndex 2 (· % 2) (Pool.start emptiedObjects) OrderedMap.empty n).1
      (Pool.states plainCodec emptiedIndex 2 (· % 2) (Pool.start emptiedObjects)
        OrderedMap.empty n).2 := by decide +kernel
  have single : (Pool.start emptiedObjects).running.length ≤ 1 := Nat.zero_le 1
  exact ⟨by decide +kernel, by decide +kernel,
    (objects_stay_addressed plainCodec emptiedIndex emptiedObjects 2 (· % 2) .empty
      (Pool.not_dropsWriter_of_returned (· % 2) returned before)).1,
    fun choose => (objects_stay_addressed plainCodec emptiedIndex emptiedObjects 1 choose .empty
      (Pool.not_dropsWriter_of_single choose single)).2⟩

/-- An object whose source has lost its bytes, and one whose source is gone. -/
def damagedObjects : List BackupObjectRef :=
  [⟨1, "letters.txt", abcChecksum, 3, some "text/plain"⟩, ⟨2, "gone.txt", emptyChecksum, 0, none⟩]

def damagedIndex : BackupObjectIndex where
  listFull := .ok damagedObjects
  listIncremental _ := .ok []
  loadObjectStream object _ :=
    if object.objectId = 1 then .ok [.ok []] else .error (.missingBlob object.storageKey)

/-- The first task stores no bytes under the checksum of `abc`. Then the second one fails, and
the first is dropped before it deletes the blob. -/
theorem writeObjectEntries_leaves_blob :
    let done := writeObjectEntries plainCodec damagedIndex damagedObjects 8
      (fun n => if n < 2 then 0 else 1) [] .empty
    done.value.isOk = false ∧ done.state.get? (objectContentKey abcChecksum) = some [] ∧
      plainCodec.sha256 [] ≠ abcChecksum := by
  decide +kernel

end GraphqlOrm.Backup
