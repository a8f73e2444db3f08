import GraphqlOrm.Storage.Local

/-!
# Ranges of a body

A range is cut out of a body chunk by chunk: two counters hold what is still to be skipped and what
is still to be delivered, and each poll of the stream gives out one chunk.

## Main result

- `rangedStorageStream_slice`: the stream delivers the bytes of the range and nothing after them.
-/
namespace GraphqlOrm.Storage.Ranges

open Outcome

/-- Bytes in memory: the length is a `usize` of 64 bits. -/
abbrev Chunk : Type := { bytes : Bytes // bytes.length < 2 ^ 64 }

/-- How a poll ends when it gives out no chunk and the stream is not over. -/
inductive Halt where
  | error (source : StorageError)
  | panicked

/-- A body with the errors `ε` and, where it is known, its size. -/
structure StorageByteStream (ε : Type) where
  inner : List (Except ε Chunk)
  sizeHint : Option Nat

/-! ### Arithmetic of the counters -/

/-- A subtraction of `u64`. -/
def subtract (a b : Nat) : Except Halt Nat := if b ≤ a then .ok (a - b) else .error .panicked

/-- `usize::try_from`. -/
def toUsize (n : Nat) (condition : String) : Except Halt Nat :=
  if n < 2 ^ 64 then .ok n else .error (.error (.preconditionFailed "" condition))

/-- An addition of `usize`. -/
def addUsize (a b : Nat) : Except Halt Nat :=
  if a + b < 2 ^ 64 then .ok (a + b) else .error .panicked

/-- `Bytes::slice`. -/
def slice (chunk : Chunk) (start finish : Nat) : Except Halt Chunk :=
  if start ≤ finish ∧ finish ≤ chunk.1.length then
    .ok ⟨(chunk.1.drop start).take (finish - start), by
      have short := chunk.2
      rw [List.length_take, List.length_drop]
      omega⟩
  else .error .panicked

/-! ### The stream -/

structure State where
  inner : List (Except StorageError Chunk)
  skip : Nat
  remaining : Nat

def nextChunk (remaining : Nat) :
    List (Except StorageError Chunk) → Nat → Except Halt (Option (Chunk × State))
  | [], _ => .ok none
  | .error source :: _, _ => .error (.error source)
  | .ok chunk :: rest, skip =>
    -- The length of a chunk always fits, so the fallback of the conversion is never taken.
    if min chunk.1.length (2 ^ 64 - 1) ≤ skip then do
      let skip ← subtract skip (min chunk.1.length (2 ^ 64 - 1))
      nextChunk remaining rest skip
    else do
      let start ← toUsize skip "range start cannot fit in memory"
      let available ← subtract (min chunk.1.length (2 ^ 64 - 1)) skip
      let width ← toUsize (min available remaining) "range length cannot fit in memory"
      let finish ← addUsize start width
      let output ← slice chunk start finish
      let left ← subtract remaining (min available remaining)
      return some (output, ⟨rest, 0, left⟩)

def poll (state : State) : Except Halt (Option (Chunk × State)) :=
  if state.remaining = 0 then .ok none else nextChunk state.remaining state.inner state.skip

/-- `stream::try_unfold`: the stream is over after an error. -/
def tryUnfold {σ ε α : Type} (step : σ → Except ε (Option (α × σ))) :
    Nat → σ → List (Except ε α)
  | 0, _ => []
  | fuel + 1, state =>
    match step state with
    | .error e => [.error e]
    | .ok none => []
    | .ok (some (item, next)) => .ok item :: tryUnfold step fuel next

def rangedStorageStream (body : StorageByteStream StorageError) (skip length : Nat) :
    StorageByteStream Halt where
  -- Every chunk that is given out takes one from the body.
  inner := tryUnfold poll (body.inner.length + 1) ⟨body.inner, skip, length⟩
  sizeHint := body.sizeHint.map fun hint => min (hint - skip) length

/-! ### What a stream delivers -/

section Delivery

variable {ε : Type}

/-- The bytes up to the end or the first error. -/
def delivered : List (Except ε Chunk) → Bytes
  | [] => []
  | .error _ :: _ => []
  | .ok chunk :: rest => chunk.1 ++ delivered rest

def firstError : List (Except ε Chunk) → Option ε
  | [] => none
  | .error e :: _ => some e
  | .ok _ :: rest => firstError rest

end Delivery

/-! ### One poll -/

theorem subtract_of_le {a b : Nat} (below : b ≤ a) : subtract a b = .ok (a - b) := if_pos below

theorem toUsize_of_lt {n : Nat} (fits : n < 2 ^ 64) (condition : String) :
    toUsize n condition = .ok n := if_pos fits

theorem addUsize_of_lt {a b : Nat} (fits : a + b < 2 ^ 64) : addUsize a b = .ok (a + b) := if_pos fits

theorem slice_of_le {chunk : Chunk} {start finish : Nat} (ordered : start ≤ finish)
    (inside : finish ≤ chunk.1.length) :
    ∃ output, slice chunk start finish = .ok output ∧
      output.1 = (chunk.1.drop start).take (finish - start) :=
  ⟨_, if_pos ⟨ordered, inside⟩, rfl⟩

/-- What a poll of an unfinished range returns. -/
inductive Polled (inner : List (Except StorageError Chunk)) (skip remaining : Nat) :
    Except Halt (Option (Chunk × State)) → Prop
  | ended : (delivered inner).length ≤ skip → firstError inner = none →
      Polled inner skip remaining (.ok none)
  | failed (source : StorageError) : (delivered inner).length ≤ skip →
      firstError inner = some source → Polled inner skip remaining (.error (.error source))
  | chunk (output : Chunk) (rest : List (Except StorageError Chunk)) (left : Nat) (unused : Bytes) :
      output.1 ≠ [] → rest.length < inner.length → output.1.length + left = remaining →
      (delivered inner).drop skip = output.1 ++ unused ++ delivered rest →
      (left = 0 ∨ unused = []) → firstError inner = firstError rest →
      Polled inner skip remaining (.ok (some (output, ⟨rest, 0, left⟩)))

/-- A chunk that is skipped as a whole changes nothing but the counter. -/
theorem Polled.skipped {chunk : Chunk} {rest : List (Except StorageError Chunk)}
    {skip remaining : Nat} {result : Except Halt (Option (Chunk × State))}
    (whole : chunk.1.length ≤ skip) (polled : Polled rest (skip - chunk.1.length) remaining result) :
    Polled (.ok chunk :: rest) skip remaining result := by
  cases polled with
  | ended short none_ =>
    refine .ended ?_ none_
    rw [delivered, List.length_append]
    omega
  | failed source short first =>
    refine .failed source ?_ first
    rw [delivered, List.length_append]
    omega
  | chunk output later left unused some_ fewer counted bytes exhausted first =>
    refine .chunk output later left unused some_ (Nat.lt_succ_of_lt fewer) counted ?_ exhausted first
    rw [delivered, List.drop_append, List.drop_eq_nil_of_le whole, List.nil_append]
    exact bytes

theorem nextChunk_polled {remaining : Nat} (open_ : 0 < remaining)
    (inner : List (Except StorageError Chunk)) (skip : Nat) :
    Polled inner skip remaining (nextChunk remaining inner skip) := by
  induction inner generalizing skip with
  | nil => exact .ended (Nat.zero_le _) rfl
  | cons item rest ih =>
    cases item with
    | error source => exact .failed source (Nat.zero_le _) rfl
    | ok chunk =>
      have short := chunk.2
      have length : min chunk.1.length (2 ^ 64 - 1) = chunk.1.length := by omega
      unfold nextChunk
      rw [length]
      split
      next whole =>
        rw [subtract_of_le whole]
        exact (ih (skip - chunk.1.length)).skipped whole
      next part =>
        have width : min (chunk.1.length - skip) remaining ≤ chunk.1.length - skip :=
          Nat.min_le_left _ _
        obtain ⟨output, sliced, bytes⟩ := @slice_of_le chunk _ _
          (Nat.le_add_right skip (min (chunk.1.length - skip) remaining)) (by omega)
        rw [Nat.add_sub_cancel_left] at bytes
        have size : output.1.length = min (chunk.1.length - skip) remaining := by
          rw [bytes, List.length_take, List.length_drop]
          omega
        rw [toUsize_of_lt (by omega), subtract_of_le (by omega)]
        simp only [bind, Except.bind]
        rw [toUsize_of_lt (by omega)]
        simp only
        rw [addUsize_of_lt (by omega)]
        simp only
        rw [sliced]
        simp only
        rw [subtract_of_le (Nat.min_le_right _ _)]
        refine .chunk output rest _
          ((chunk.1.drop skip).drop (min (chunk.1.length - skip) remaining)) ?_
          (Nat.lt_succ_self _) ?_ ?_ ?_ rfl
        · rw [← List.length_pos_iff_ne_nil]
          omega
        · omega
        · rw [bytes, List.take_append_drop, delivered, List.drop_append_of_le_length (by omega)]
        · -- Either the chunk reaches past the range, or all that is left of it is delivered.
          rcases Nat.le_total remaining (chunk.1.length - skip) with past | within
          · exact .inl (by omega)
          · refine .inr (List.drop_eq_nil_of_le ?_)
            rw [List.length_drop]
            omega

theorem poll_polled (state : State) (open_ : state.remaining ≠ 0) :
    Polled state.inner state.skip state.remaining (poll state) := by
  unfold poll
  rw [if_neg open_]
  exact nextChunk_polled (Nat.pos_of_ne_zero open_) state.inner state.skip

/-! ### The whole stream -/

def stream (fuel : Nat) (state : State) : List (Except Halt Chunk) := tryUnfold poll fuel state

theorem stream_closed (fuel : Nat) {state : State} (closed : state.remaining = 0) :
    stream fuel state = [] := by
  cases fuel with
  | zero => rfl
  | succ fuel =>
    unfold stream
    rw [tryUnfold, poll, if_pos closed]

/-- The items of an unfinished range, one poll and the rest. -/
theorem stream_succ (fuel : Nat) (state : State) (open_ : state.remaining ≠ 0) :
    (stream (fuel + 1) state = [] ∧ (delivered state.inner).length ≤ state.skip ∧
      firstError state.inner = none) ∨
    (∃ source, stream (fuel + 1) state = [.error (.error source)] ∧
      (delivered state.inner).length ≤ state.skip ∧ firstError state.inner = some source) ∨
    ∃ output rest left unused, stream (fuel + 1) state = .ok output :: stream fuel ⟨rest, 0, left⟩ ∧
      output.1 ≠ [] ∧ rest.length < state.inner.length ∧ output.1.length + left = state.remaining ∧
      (delivered state.inner).drop state.skip = output.1 ++ unused ++ delivered rest ∧
      (left = 0 ∨ unused = []) ∧ firstError state.inner = firstError rest := by
  have polled := poll_polled state open_
  unfold stream
  rw [tryUnfold]
  generalize poll state = result at polled
  cases polled with
  | ended short none_ => exact .inl ⟨rfl, short, none_⟩
  | failed source short first => exact .inr (.inl ⟨source, rfl, short, first⟩)
  | chunk output rest left unused some_ fewer counted bytes exhausted first =>
    exact .inr (.inr ⟨output, rest, left, unused, rfl, some_, fewer, counted, bytes, exhausted, first⟩)

/-- What is delivered, and the error that ends the stream. -/
theorem stream_delivered (fuel : Nat) (state : State) (enough : state.inner.length < fuel) :
    delivered (stream fuel state) = ((delivered state.inner).drop state.skip).take state.remaining ∧
      firstError (stream fuel state) =
        if ((delivered state.inner).drop state.skip).length < state.remaining then
          (firstError state.inner).map Halt.error
        else none := by
  induction fuel generalizing state with
  | zero => exact absurd enough (Nat.not_lt_zero _)
  | succ fuel ih =>
    by_cases closed : state.remaining = 0
    · rw [stream_closed _ closed, closed, List.take_zero, if_neg (Nat.not_lt_zero _)]
      exact ⟨rfl, rfl⟩
    · rcases stream_succ fuel state closed with ⟨items, short, none_⟩ | ⟨source, items, short, first⟩ |
        ⟨output, rest, left, unused, items, some_, fewer, counted, bytes, exhausted, first⟩
      · rw [items, List.drop_eq_nil_of_le short, none_, List.take_nil, Option.map_none, ite_self]
        exact ⟨rfl, rfl⟩
      · rw [items, List.drop_eq_nil_of_le short, first, List.take_nil, List.length_nil,
          if_pos (Nat.pos_of_ne_zero closed)]
        exact ⟨rfl, rfl⟩
      · obtain ⟨later, error⟩ := ih ⟨rest, 0, left⟩ (by dsimp only; omega)
        rw [items, bytes, first, delivered, firstError, later, error, ← counted]
        rcases exhausted with done | used
        · subst done
          rw [List.append_assoc, Nat.add_zero, List.take_left, List.length_append]
          exact ⟨by simp, by simp⟩
        · subst used
          rw [List.append_nil, List.take_length_add_append, List.length_append, List.drop_zero]
          refine ⟨rfl, ?_⟩
          simp only [Nat.add_lt_add_iff_left]

theorem stream_nonempty (fuel : Nat) (state : State) {chunk : Chunk}
    (mem : .ok chunk ∈ stream fuel state) : chunk.1 ≠ [] := by
  induction fuel generalizing state with
  | zero => cases mem
  | succ fuel ih =>
    by_cases closed : state.remaining = 0
    · rw [stream_closed _ closed] at mem
      cases mem
    · rcases stream_succ fuel state closed with ⟨items, _⟩ | ⟨source, items, _⟩ |
        ⟨output, rest, left, unused, items, some_, _⟩
      · rw [items] at mem
        cases mem
      · rw [items, List.mem_singleton] at mem
        cases mem
      · rw [items, List.mem_cons] at mem
        rcases mem with same | later
        · cases same
          exact some_
        · exact ih ⟨rest, 0, left⟩ later

/-- Nothing follows the last byte of the range. -/
theorem stream_quiet (fuel : Nat) (state : State) {before after : List (Except Halt Chunk)}
    (items : stream fuel state = before ++ after)
    (exhausted : (delivered before).length = state.remaining) : after = [] := by
  induction fuel generalizing state before with
  | zero => exact (List.append_eq_nil_iff.mp items.symm).2
  | succ fuel ih =>
    by_cases closed : state.remaining = 0
    · rw [stream_closed _ closed] at items
      exact (List.append_eq_nil_iff.mp items.symm).2
    · cases before with
      | nil => exact absurd exhausted.symm closed
      | cons item before =>
        rcases stream_succ fuel state closed with ⟨none_, _⟩ | ⟨source, alone, _⟩ |
          ⟨output, rest, left, unused, later, _, _, counted, _⟩
        · rw [none_] at items
          cases items
        · rw [alone, List.cons_append, List.cons.injEq] at items
          exact (List.append_eq_nil_iff.mp items.2.symm).2
        · rw [later, List.cons_append, List.cons.injEq] at items
          obtain ⟨rfl, tail⟩ := items
          rw [delivered, List.length_append] at exhausted
          exact ih ⟨rest, 0, left⟩ tail (Nat.add_left_cancel (exhausted.trans counted.symm))

/-! ### The range -/

/-- A stream gives out the bytes `skip .. skip + length` of a body, as far as there are so many. -/
structure DeliversRange (body : StorageByteStream StorageError) (skip length : Nat)
    (out : StorageByteStream Halt) : Prop where
  bytes : delivered out.inner =
    ((delivered body.inner).take (min (skip + length) (delivered body.inner).length)).drop skip
  /-- The first error of the body ends the stream if the range is not complete before it. -/
  error : firstError out.inner =
    if (delivered body.inner).length - skip < length then (firstError body.inner).map Halt.error
    else none
  quiet : ∀ before after, out.inner = before ++ after → (delivered before).length = length →
    after = []
  nonempty : ∀ chunk, .ok chunk ∈ out.inner → chunk.1 ≠ []
  hint : out.sizeHint.isSome = body.sizeHint.isSome
  exact : body.sizeHint = some (delivered body.inner).length →
    out.sizeHint = some (delivered out.inner).length

/-- Every body, cut into chunks and failing in any way, and every range of it. -/
theorem rangedStorageStream_slice (body : StorageByteStream StorageError) (skip length : Nat) :
    DeliversRange body skip length (rangedStorageStream body skip length) := by
  obtain ⟨bytes, error⟩ := stream_delivered (body.inner.length + 1) ⟨body.inner, skip, length⟩
    (Nat.lt_succ_self _)
  have cut : (delivered body.inner).take (min (skip + length) (delivered body.inner).length) =
      (delivered body.inner).take (skip + length) := by
    rw [← List.take_take, List.take_length]
  refine ⟨?_, ?_, fun before after => stream_quiet _ _, fun chunk => stream_nonempty _ _, ?_, ?_⟩
  · rw [cut, List.drop_take, Nat.add_sub_cancel_left]
    exact bytes
  · rw [← List.length_drop]
    exact error
  · exact Option.isSome_map
  · intro known
    have size : (delivered (rangedStorageStream body skip length).inner).length =
        min ((delivered body.inner).length - skip) length := by
      rw [show delivered (rangedStorageStream body skip length).inner = _ from bytes,
        List.length_take, List.length_drop, Nat.min_comm]
    rw [size, rangedStorageStream, known, Option.map_some]

end GraphqlOrm.Storage.Ranges
