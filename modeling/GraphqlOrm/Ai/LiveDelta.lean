import GraphqlOrm.Foundation.Checked
import GraphqlOrm.Foundation.KindRuns
import GraphqlOrm.Foundation.Outcome
import GraphqlOrm.Foundation.Slices
import GraphqlOrm.Foundation.StableSort

/-!
# Coalescing of live deltas

Visible text of a provider is collected in a buffer and given out in batches: when the buffer is
full, when its time is over, when text of the other kind comes and at the end.

## Main result

* `deliver_coalesces`: the batches are numbered, bounded and say what the events say
-/
namespace GraphqlOrm.Ai.LiveDelta

open Text KindRuns Outcome

/-! ### Data -/

inductive AiLiveDeltaKind where
  | text | reasoningSummary
deriving DecidableEq

/-- Times and durations are nanoseconds. -/
structure AiLiveDeltaCoalescerLimits where
  maximumDelay : Nat
  maximumBytes : Nat
  accepted : 1000000 ≤ maximumDelay ∧ maximumDelay ≤ 50000000 ∧
    4 ≤ maximumBytes ∧ maximumBytes ≤ 4096

/-- The events with visible text. Every other event is ignored. -/
inductive ProviderEvent where
  | textDelta (text : List Char)
  | reasoningSummaryDelta (text : List Char)
  | other

def ProviderEvent.visible : ProviderEvent → Option (AiLiveDeltaKind × List Char)
  | .textDelta text => some (.text, text)
  | .reasoningSummaryDelta text => some (.reasoningSummary, text)
  | .other => none

structure AiLiveDeltaBatch where
  sequence : Nat
  kind : AiLiveDeltaKind
  text : List Char

structure PendingDelta where
  text : List Char
  startedAt : Nat
  firstFragmentOrder : Nat

structure AiLiveDeltaCoalescer where
  text : Option PendingDelta
  reasoningSummary : Option PendingDelta
  nextFragmentOrder : Nat
  nextBatchSequence : Nat

/-- Where a call stops. The first two are the same error to the caller; the third is a panic,
and the last a loop that does not end. -/
inductive Stop where
  | sequenceOverflow | providerFailed | sliced | unending

def AiLiveDeltaCoalescer.new : AiLiveDeltaCoalescer := ⟨none, none, 0, 0⟩

/-! ### Text -/

def boundaryBelow (value : List Char) : Nat → Nat
  | 0 => 0
  | offset + 1 =>
    if (splitAtByte value (offset + 1)).isSome then offset + 1 else boundaryBelow value offset

def utf8PrefixLen (value : List Char) (maximumBytes : Nat) : Nat :=
  if byteLength value ≤ maximumBytes then byteLength value else boundaryBelow value maximumBytes

/-! ### The coalescer -/

namespace AiLiveDeltaCoalescer

variable (limits : AiLiveDeltaCoalescerLimits)

def nextCounter (counter : Nat) : Except Stop Nat :=
  okOr .sequenceOverflow (Checked.addU64 counter 1)

def batch (self : AiLiveDeltaCoalescer) (kind : AiLiveDeltaKind) (pending : PendingDelta) :
    Except Stop (AiLiveDeltaBatch × AiLiveDeltaCoalescer) := do
  require (decide (¬(pending.text = [] ∨ limits.maximumBytes < byteLength pending.text)))
    .providerFailed
  let next ← nextCounter self.nextBatchSequence
  return (⟨self.nextBatchSequence, kind, pending.text⟩, { self with nextBatchSequence := next })

def batchAll (self : AiLiveDeltaCoalescer) :
    List (AiLiveDeltaKind × PendingDelta) →
      Except Stop (List AiLiveDeltaBatch × AiLiveDeltaCoalescer)
  | [] => .ok ([], self)
  | (kind, pending) :: rest => do
    let (first, self) ← self.batch limits kind pending
    let (others, self) ← self.batchAll rest
    return (first :: others, self)

def pendingOf (self : AiLiveDeltaCoalescer) : AiLiveDeltaKind → Option PendingDelta
  | .text => self.text
  | .reasoningSummary => self.reasoningSummary

def put (self : AiLiveDeltaCoalescer) (kind : AiLiveDeltaKind) (pending : Option PendingDelta) :
    AiLiveDeltaCoalescer :=
  match kind with
  | .text => { self with text := pending }
  | .reasoningSummary => { self with reasoningSummary := pending }

/-- A pending delta whose maximum delay has elapsed; time may also run backwards. -/
def isDue (now : Nat) (pending : Option PendingDelta) : Bool :=
  pending.any fun pending => limits.maximumDelay ≤ now - pending.startedAt

/-- The pending deltas of the kinds that are chosen, in the order of their first fragments. -/
def flush (self : AiLiveDeltaCoalescer) (chosen : AiLiveDeltaKind → Bool) :
    Except Stop (List AiLiveDeltaBatch × AiLiveDeltaCoalescer) :=
  let take := fun kind => if chosen kind then (self.pendingOf kind).toList.map (kind, ·) else []
  let keep := fun kind => if chosen kind then none else self.pendingOf kind
  batchAll limits { self with text := keep .text, reasoningSummary := keep .reasoningSummary }
    (sortBy (fun due => due.2.firstFragmentOrder) (take .text ++ take .reasoningSummary))

def flushDue (self : AiLiveDeltaCoalescer) (now : Nat) :
    Except Stop (List AiLiveDeltaBatch × AiLiveDeltaCoalescer) :=
  self.flush limits fun kind => isDue limits now (self.pendingOf kind)

def flushAll (self : AiLiveDeltaCoalescer) :
    Except Stop (List AiLiveDeltaBatch × AiLiveDeltaCoalescer) :=
  self.flush limits fun _ => true

/-! ### Events -/

/-- The loop of `push_event`: the buffer of the event's kind is outside the coalescer. -/
structure Pushing where
  self : AiLiveDeltaCoalescer
  batches : List AiLiveDeltaBatch
  pending : Option PendingDelta
  remainder : List Char

def orderAfter (self : AiLiveDeltaCoalescer) (buffer : PendingDelta) : Except Stop Nat :=
  if buffer.text = [] then nextCounter self.nextFragmentOrder else .ok self.nextFragmentOrder

def settle (kind : AiLiveDeltaKind) (loop : Pushing) (buffer : PendingDelta)
    (remainder : List Char) : Except Stop Pushing :=
  if byteLength buffer.text = limits.maximumBytes then do
    let (completed, self) ← loop.self.batch limits kind buffer
    return ⟨self, loop.batches ++ [completed], none, remainder⟩
  else return { loop with pending := some buffer, remainder := remainder }

def turn (kind : AiLiveDeltaKind) (now : Nat) (loop : Pushing) : Except Stop Pushing := do
  let buffer := loop.pending.getD ⟨[], now, loop.self.nextFragmentOrder⟩
  let order ← loop.self.orderAfter buffer
  let self := { loop.self with nextFragmentOrder := order }
  let capacity ← okOr .providerFailed
    (if byteLength buffer.text ≤ limits.maximumBytes
      then some (limits.maximumBytes - byteLength buffer.text) else none)
  let split := utf8PrefixLen loop.remainder capacity
  if split = 0 then do
    -- Not even one character fits: the remainder stays and the next turn has a new buffer.
    let (completed, self) ← self.batch limits kind buffer
    return ⟨self, loop.batches ++ [completed], none, loop.remainder⟩
  else do
    let (fitting, remainder) ← okOr .sliced (splitAtByte loop.remainder split)
    settle limits kind { loop with self := self } { buffer with text := buffer.text ++ fitting }
      remainder

def turns (kind : AiLiveDeltaKind) (now : Nat) : Nat → Pushing → Except Stop Pushing
  | 0, loop => if loop.remainder = [] then .ok loop else .error .unending
  | fuel + 1, loop =>
    if loop.remainder = [] then .ok loop
    else do turns kind now fuel (← turn limits kind now loop)

def otherKind : AiLiveDeltaKind → AiLiveDeltaKind
  | .text => .reasoningSummary
  | .reasoningSummary => .text

def pushFragment (self : AiLiveDeltaCoalescer) (kind : AiLiveDeltaKind) (fragment : List Char)
    (now : Nat) : Except Stop (List AiLiveDeltaBatch × AiLiveDeltaCoalescer) := do
  let preceding := (self.pendingOf (otherKind kind)).toList.map (otherKind kind, ·)
  let (batches, after) ← (self.put (otherKind kind) none).batchAll limits preceding
  -- Each turn but the first of two in a row takes a character.
  let loop ← turns limits kind now (2 * fragment.length + 1)
    ⟨after.put kind none, batches, after.pendingOf kind, fragment⟩
  return (loop.batches, loop.self.put kind loop.pending)

def pushEvent (self : AiLiveDeltaCoalescer) (event : ProviderEvent) (now : Nat) :
    Except Stop (List AiLiveDeltaBatch × AiLiveDeltaCoalescer) := do
  let (batches, self) ← self.flushDue limits now
  match event.visible.filter fun visible => !visible.2.isEmpty with
  | none => return (batches, self)
  | some (kind, fragment) => do
    let (others, self) ← self.pushFragment limits kind fragment now
    return (batches ++ others, self)

end AiLiveDeltaCoalescer

/-! ### Runs -/

inductive Call where
  | pushEvent (event : ProviderEvent) (now : Nat)
  | flushDue (now : Nat)

section Runs

variable (limits : AiLiveDeltaCoalescerLimits)

def Call.run (self : AiLiveDeltaCoalescer) :
    Call → Except Stop (List AiLiveDeltaBatch × AiLiveDeltaCoalescer)
  | .pushEvent event now => self.pushEvent limits event now
  | .flushDue now => self.flushDue limits now

def runCalls (self : AiLiveDeltaCoalescer) :
    List Call → Except Stop (List AiLiveDeltaBatch × AiLiveDeltaCoalescer)
  | [] => .ok ([], self)
  | call :: rest => do
    let (batches, self) ← call.run limits self
    let (others, self) ← runCalls self rest
    return (batches ++ others, self)

/-- Every batch of a new coalescer, with what `flush_all` gives at the end. -/
def deliver (calls : List Call) : Except Stop (List AiLiveDeltaBatch) := do
  let (batches, self) ← runCalls limits .new calls
  let (last, _) ← self.flushAll limits
  return batches ++ last

end Runs

def Call.fragment : Call → Option (AiLiveDeltaKind × List Char)
  | .pushEvent event _ => event.visible.filter fun visible => !visible.2.isEmpty
  | .flushDue _ => none

/-! ### Cutting at a boundary -/

theorem boundaryBelow_le (value : List Char) (offset : Nat) : boundaryBelow value offset ≤ offset := by
  induction offset with
  | zero => rfl
  | succ offset ih =>
    rw [boundaryBelow]
    split <;> omega

theorem splitAtByte_boundaryBelow (value : List Char) (offset : Nat) :
    (splitAtByte value (boundaryBelow value offset)).isSome := by
  induction offset with
  | zero => cases value <;> rfl
  | succ offset ih =>
    rw [boundaryBelow]
    split
    · assumption
    · exact ih

theorem le_boundaryBelow {value : List Char} {boundary offset : Nat} (below : boundary ≤ offset)
    (cuts : (splitAtByte value boundary).isSome) : boundary ≤ boundaryBelow value offset := by
  induction offset with
  | zero => exact below
  | succ offset ih =>
    rw [boundaryBelow]
    split
    · exact below
    · next inside =>
      -- The offset itself is inside a character, so the boundary is another one.
      have other : boundary ≠ offset + 1 := fun same => inside (same ▸ cuts)
      exact ih (by omega)

theorem utf8PrefixLen_le (value : List Char) (maximumBytes : Nat) :
    utf8PrefixLen value maximumBytes ≤ maximumBytes := by
  unfold utf8PrefixLen
  split
  · assumption
  · exact boundaryBelow_le value maximumBytes

theorem exists_splitAtByte (value : List Char) (maximumBytes : Nat) : ∃ fitting remainder,
    splitAtByte value (utf8PrefixLen value maximumBytes) = some (fitting, remainder) := by
  unfold utf8PrefixLen
  split
  · exact ⟨value, [], by simpa using splitAtByte_append value []⟩
  · obtain ⟨parts, cut⟩ := Option.isSome_iff_exists.mp (splitAtByte_boundaryBelow value maximumBytes)
    exact ⟨parts.1, parts.2, cut⟩

/-- A fresh buffer can hold any character. -/
theorem utf8PrefixLen_pos {value : List Char} {maximumBytes : Nat} (content : value ≠ [])
    (wide : 4 ≤ maximumBytes) : utf8PrefixLen value maximumBytes ≠ 0 := by
  obtain ⟨c, rest, rfl⟩ := List.exists_cons_of_ne_nil content
  have filled := c.utf8Size_pos
  have narrow := c.utf8Size_le_four
  unfold utf8PrefixLen
  split
  · rw [byteLength_cons]
    omega
  · have cut : splitAtByte (c :: rest) c.utf8Size = some ([c], rest) := by
      simpa using splitAtByte_append [c] rest
    have first := @le_boundaryBelow _ _ maximumBytes (by omega)
      (Option.isSome_iff_exists.mpr ⟨_, cut⟩)
    omega

/-! ### Accounts -/

variable {limits : AiLiveDeltaCoalescerLimits}

def textOf (pending : Option PendingDelta) : List Char := (pending.map (·.text)).getD []

def Fits (limits : AiLiveDeltaCoalescerLimits) (text : List Char) : Prop :=
  text ≠ [] ∧ byteLength text ≤ limits.maximumBytes

def AiLiveDeltaBatch.part (batch : AiLiveDeltaBatch) : AiLiveDeltaKind × List Char :=
  (batch.kind, batch.text)

/-- The batches, numbered from the first sequence on, and the elements that are still pending
account for everything that was said. -/
structure Accounts (limits : AiLiveDeltaCoalescerLimits) (first : Nat)
    (total : List (AiLiveDeltaKind × Char)) (batches : List AiLiveDeltaBatch)
    (next : Nat) (rest : List (AiLiveDeltaKind × Char)) : Prop where
  said : elements (batches.map AiLiveDeltaBatch.part) ++ rest = total
  sequences : batches.map (·.sequence) = List.range' first batches.length
  counted : next = first + batches.length
  fit : ∀ batch ∈ batches, Fits limits batch.text

theorem Accounts.start (first : Nat) (rest : List (AiLiveDeltaKind × Char)) :
    Accounts limits first rest [] first rest :=
  ⟨rfl, rfl, rfl, nofun⟩

variable {first : Nat} {total rest : List (AiLiveDeltaKind × Char)}
  {batches : List AiLiveDeltaBatch}

theorem Accounts.trans {middle last : Nat} {said held : List (AiLiveDeltaKind × Char)}
    {others : List AiLiveDeltaBatch} (earlier : Accounts limits first total batches middle held)
    (later : Accounts limits middle (held ++ said) others last rest) :
    Accounts limits first (total ++ said) (batches ++ others) last rest where
  said := by
    rw [List.map_append, elements_append, List.append_assoc, later.said, ← List.append_assoc,
      earlier.said]
  sequences := by
    rw [List.map_append, earlier.sequences, later.sequences, earlier.counted, List.length_append,
      ← List.range'_append_1]
  counted := by
    rw [later.counted, earlier.counted, List.length_append]
    omega
  fit := by
    intro batch mem
    rcases List.mem_append.mp mem with before | behind
    · exact earlier.fit batch before
    · exact later.fit batch behind

theorem Accounts.give {middle last : Nat} {held : List (AiLiveDeltaKind × Char)}
    {others : List AiLiveDeltaBatch} (earlier : Accounts limits first total batches middle held)
    (later : Accounts limits middle held others last rest) :
    Accounts limits first total (batches ++ others) last rest := by
  have later : Accounts limits middle (held ++ []) others last rest := by simpa using later
  simpa using earlier.trans later

theorem Accounts.say {last : Nat} (accounts : Accounts limits first total batches last rest)
    (said : List (AiLiveDeltaKind × Char)) :
    Accounts limits first (total ++ said) batches last (rest ++ said) :=
  ⟨by rw [← List.append_assoc, accounts.said], accounts.sequences, accounts.counted, accounts.fit⟩

variable {self : AiLiveDeltaCoalescer}

namespace AiLiveDeltaCoalescer

theorem nextCounter_spec (counter : Nat) :
    Unless .sequenceOverflow (nextCounter counter) (· = counter + 1) := by
  unfold nextCounter
  cases found : Checked.addU64 counter 1 with
  | none => exact .inl rfl
  | some next => exact .inr ⟨next, rfl, (Checked.addU64_eq_some.mp found).2⟩

variable {kind : AiLiveDeltaKind} {pending : PendingDelta}

/-- A buffer that is given out moves from the pending text to the batches. -/
theorem batch_spec (fits : Fits limits pending.text) (rest : List (AiLiveDeltaKind × Char)) :
    Unless .sequenceOverflow (self.batch limits kind pending) fun made =>
      Accounts limits self.nextBatchSequence (tagged kind pending.text ++ rest) [made.1]
        made.2.nextBatchSequence rest ∧
      made.2.text = self.text ∧ made.2.reasoningSummary = self.reasoningSummary := by
  have admitted : require (decide (¬(pending.text = [] ∨
      limits.maximumBytes < byteLength pending.text))) Stop.providerFailed = .ok () := by
    rw [require_eq_ok, decide_eq_true_eq, not_or, not_lt]
    exact fits
  unfold batch
  rw [admitted]
  apply (nextCounter_spec self.nextBatchSequence).bind
  rintro next rfl
  apply unless_ok
  refine ⟨⟨?_, rfl, rfl, ?_⟩, rfl, rfl⟩
  · simp [AiLiveDeltaBatch.part, elements]
  · simpa using fits

/-- What holds between two turns: everything said is in a batch, in the buffer or still to come. -/
structure Pushed (limits : AiLiveDeltaCoalescerLimits) (first : Nat)
    (total : List (AiLiveDeltaKind × Char)) (kind : AiLiveDeltaKind) (loop : Pushing) : Prop where
  accounts : Accounts limits first total loop.batches loop.self.nextBatchSequence
    (tagged kind (textOf loop.pending ++ loop.remainder))
  free : loop.self.text = none ∧ loop.self.reasoningSummary = none
  fits : ∀ pending ∈ loop.pending, Fits limits pending.text

/-- A buffer that is given out makes room, so it counts for half a character. -/
def Pushing.work (loop : Pushing) : Nat := 2 * loop.remainder.length + loop.pending.toList.length

theorem orderAfter_spec (self : AiLiveDeltaCoalescer) (buffer : PendingDelta) :
    Unless .sequenceOverflow (self.orderAfter buffer) fun _ => True := by
  unfold orderAfter
  split
  · exact (nextCounter_spec _).mono fun _ _ => trivial
  · exact unless_ok trivial

/-- Giving the buffer out, whatever remains to be pushed. -/
theorem Pushed.give {loop : Pushing} {buffer : PendingDelta} {remainder : List Char}
    (self : AiLiveDeltaCoalescer)
    (accounts : Accounts limits first total loop.batches self.nextBatchSequence
      (tagged kind (buffer.text ++ remainder)))
    (free : self.text = none ∧ self.reasoningSummary = none) (fits : Fits limits buffer.text) :
    Unless .sequenceOverflow (self.batch limits kind buffer) fun made =>
      Pushed limits first total kind ⟨made.2, loop.batches ++ [made.1], none, remainder⟩ := by
  apply (batch_spec fits (tagged kind remainder)).mono
  rintro made ⟨given, text, summary⟩
  rw [← tagged_append] at given
  exact ⟨accounts.give given, ⟨text ▸ free.1, summary ▸ free.2⟩, nofun⟩

theorem settle_spec (loop : Pushing) {buffer : PendingDelta} {remainder : List Char}
    (accounts : Accounts limits first total loop.batches loop.self.nextBatchSequence
      (tagged kind (buffer.text ++ remainder)))
    (free : loop.self.text = none ∧ loop.self.reasoningSummary = none)
    (fits : Fits limits buffer.text) :
    Unless .sequenceOverflow (settle limits kind loop buffer remainder) fun next =>
      Pushed limits first total kind next ∧ next.remainder = remainder := by
  unfold settle
  split
  · apply (Pushed.give _ accounts free fits).bind
    intro made pushed
    exact unless_ok ⟨pushed, rfl⟩
  · apply unless_ok
    refine ⟨⟨accounts, free, ?_⟩, rfl⟩
    rintro pending ⟨⟩
    exact fits

theorem Pushing.work_le (loop : Pushing) : loop.work ≤ 2 * loop.remainder.length + 1 := by
  unfold work
  cases loop.pending <;> simp

theorem turn_spec {now : Nat} {loop : Pushing} (pushed : Pushed limits first total kind loop)
    (more : loop.remainder ≠ []) :
    Unless .sequenceOverflow (turn limits kind now loop) fun next =>
      Pushed limits first total kind next ∧ next.work < loop.work := by
  unfold turn
  generalize made : loop.pending.getD ⟨[], now, loop.self.nextFragmentOrder⟩ = buffer
  have text : buffer.text = textOf loop.pending := by
    rw [← made, textOf]
    cases loop.pending <;> rfl
  have room : byteLength buffer.text ≤ limits.maximumBytes := by
    rw [text]
    cases held : loop.pending with
    | none => exact Nat.zero_le _
    | some pending => exact (pushed.fits pending held).2
  apply (orderAfter_spec loop.self buffer).bind
  rintro order -
  rw [if_pos room]
  obtain ⟨fitting, remainder, cut⟩ :=
    exists_splitAtByte loop.remainder (limits.maximumBytes - byteLength buffer.text)
  have capacity := utf8PrefixLen_le loop.remainder (limits.maximumBytes - byteLength buffer.text)
  obtain ⟨parts, size⟩ := splitAtByte_sound cut
  have accounts := pushed.accounts
  rw [← text] at accounts
  apply (unless_ok (P := (· = limits.maximumBytes - byteLength buffer.text)) rfl).bind
  rintro _ rfl
  dsimp only
  split
  · next nothing =>
    -- The new buffer of an earlier turn would have held a character.
    cases held : loop.pending with
    | none =>
      rw [text, held] at nothing
      have wide := limits.accepted.2.2.1
      exact absurd nothing (utf8PrefixLen_pos more (by simpa [textOf] using wide))
    | some pending =>
      have fits : Fits limits buffer.text := by
        rw [text, held]
        exact pushed.fits pending held
      apply (Pushed.give { loop.self with nextFragmentOrder := order } accounts
        pushed.free fits).bind
      intro made given
      refine unless_ok ⟨given, ?_⟩
      simp [Pushing.work, held]
  · next something =>
    rw [cut]
    apply (unless_ok (P := (· = (fitting, remainder))) rfl).bind
    rintro _ rfl
    have content : fitting ≠ [] := by
      rintro rfl
      exact something size.symm
    have shorter : remainder.length < loop.remainder.length := by
      have filled := List.length_pos_iff.mpr content
      rw [parts, List.length_append]
      omega
    rw [parts, ← List.append_assoc] at accounts
    have fits : Fits limits (buffer.text ++ fitting) := by
      refine ⟨by simp [content], ?_⟩
      rw [byteLength_append, size]
      omega
    apply (settle_spec { loop with self := { loop.self with nextFragmentOrder := order } }
      accounts pushed.free fits).mono
    rintro next ⟨given, same⟩
    refine ⟨given, ?_⟩
    have half : next.work ≤ 2 * remainder.length + 1 := by
      simpa only [same] using next.work_le
    have whole : 2 * loop.remainder.length ≤ loop.work := Nat.le_add_right _ _
    omega

theorem turns_spec {now fuel : Nat} {loop : Pushing} (pushed : Pushed limits first total kind loop)
    (enough : loop.work ≤ fuel) :
    Unless .sequenceOverflow (turns limits kind now fuel loop) fun last =>
      Pushed limits first total kind last ∧ last.remainder = [] := by
  induction fuel generalizing loop with
  | zero =>
    have done : loop.remainder = [] := by
      have whole : 2 * loop.remainder.length ≤ loop.work := Nat.le_add_right _ _
      exact List.length_eq_zero_iff.mp (by omega)
    rw [turns, if_pos done]
    exact unless_ok ⟨pushed, done⟩
  | succ fuel ih =>
    rw [turns]
    split
    · next done => exact unless_ok ⟨pushed, done⟩
    · next more =>
      apply (turn_spec pushed more).bind
      rintro next ⟨kept, less⟩
      exact ih kept (by omega)

def held (self : AiLiveDeltaCoalescer) : List (AiLiveDeltaKind × Char) :=
  tagged .text (textOf self.text) ++ tagged .reasoningSummary (textOf self.reasoningSummary)

/-- At most one kind is pending, with text that fits a batch. -/
structure Proper (limits : AiLiveDeltaCoalescerLimits) (coalescer : AiLiveDeltaCoalescer) :
    Prop where
  single : coalescer.text = none ∨ coalescer.reasoningSummary = none
  fits : ∀ kind, ∀ pending ∈ coalescer.pendingOf kind, Fits limits pending.text

/-- What a call does: it says something, and accounts for it and for what was pending. -/
def Keeps (limits : AiLiveDeltaCoalescerLimits) (self : AiLiveDeltaCoalescer)
    (said : List (AiLiveDeltaKind × Char))
    (made : List AiLiveDeltaBatch × AiLiveDeltaCoalescer) : Prop :=
  Accounts limits self.nextBatchSequence (self.held ++ said) made.1 made.2.nextBatchSequence
    made.2.held ∧ Proper limits made.2

theorem proper_new : Proper limits .new := ⟨.inl rfl, fun kind => by cases kind <;> nofun⟩

theorem batchAll_single (self : AiLiveDeltaCoalescer) (fits : Fits limits pending.text)
    (rest : List (AiLiveDeltaKind × Char)) :
    Unless .sequenceOverflow (self.batchAll limits [(kind, pending)]) fun made =>
      Accounts limits self.nextBatchSequence (tagged kind pending.text ++ rest) made.1
        made.2.nextBatchSequence rest ∧
      made.2.text = self.text ∧ made.2.reasoningSummary = self.reasoningSummary := by
  unfold batchAll
  apply (batch_spec fits rest).bind
  rintro made given
  exact unless_ok given

/-- One buffer, pending alone, is given out. -/
theorem flush_one (self : AiLiveDeltaCoalescer) (fits : Fits limits pending.text) :
    Unless .sequenceOverflow
      (batchAll limits { self with text := none, reasoningSummary := none } [(kind, pending)])
      fun made => Accounts limits self.nextBatchSequence (tagged kind pending.text) made.1
        made.2.nextBatchSequence made.2.held ∧ Proper limits made.2 ∧ made.2.held = [] := by
  apply (batchAll_single _ fits []).mono
  rintro ⟨batches, after⟩ ⟨given, text, summary⟩
  dsimp only at given text summary
  have nothing : after.held = [] := by rw [held, text, summary]; rfl
  refine ⟨?_, ⟨.inl text, ?_⟩, nothing⟩
  · rw [List.append_nil] at given
    rw [nothing]
    exact given
  · intro kind
    cases kind
    · rw [pendingOf, text]
      nofun
    · rw [pendingOf, summary]
      nofun

theorem flush_spec (proper : Proper limits self) (chosen : AiLiveDeltaKind → Bool) :
    Unless .sequenceOverflow (self.flush limits chosen) fun made =>
      Keeps limits self [] made ∧ ((∀ kind, chosen kind = true) → made.2.held = []) := by
  obtain ⟨text, summary, order, sequence⟩ := self
  have nothing : Keeps limits ⟨text, summary, order, sequence⟩ []
      ([], ⟨text, summary, order, sequence⟩) := by
    refine ⟨?_, proper⟩
    rw [List.append_nil]
    exact .start _ _
  unfold flush
  cases text with
  | none =>
    cases summary with
    | none =>
      simp only [pendingOf, ite_self, Option.toList_none, List.map_nil, List.append_nil]
      exact unless_ok ⟨nothing, fun _ => rfl⟩
    | some pending =>
      cases due : chosen .reasoningSummary with
      | false =>
        simp only [due, pendingOf, ite_self, Option.toList_none, List.map_nil, List.append_nil,
          Bool.false_eq_true, if_false]
        exact unless_ok ⟨nothing, fun all => by simp [all] at due⟩
      | true =>
        have fits := proper.fits .reasoningSummary pending rfl
        simp only [due, pendingOf, Option.toList_some, Option.toList_none, List.map_cons,
          List.map_nil, if_true, ite_self, List.nil_append, sortBy_singleton]
        apply (flush_one ⟨none, some pending, order, sequence⟩ fits).mono
        rintro made ⟨given, after, empty⟩
        refine ⟨⟨?_, after⟩, fun _ => empty⟩
        simpa [held, textOf, tagged] using given
  | some pending =>
    obtain rfl : summary = none := proper.single.resolve_left (by simp)
    cases due : chosen .text with
    | false =>
      simp only [due, pendingOf, ite_self, Option.toList_none, List.map_nil, List.append_nil,
        Bool.false_eq_true, if_false]
      exact unless_ok ⟨nothing, fun all => by simp [all] at due⟩
    | true =>
      have fits := proper.fits .text pending rfl
      simp only [due, pendingOf, Option.toList_some, Option.toList_none, List.map_cons,
        List.map_nil, if_true, ite_self, List.append_nil, sortBy_singleton]
      apply (flush_one ⟨some pending, none, order, sequence⟩ fits).mono
      rintro made ⟨given, after, empty⟩
      refine ⟨⟨?_, after⟩, fun _ => empty⟩
      simpa [held, textOf, tagged] using given

theorem held_of_single (alone : self.pendingOf (otherKind kind) = none) :
    self.held = tagged kind (textOf (self.pendingOf kind)) := by
  obtain ⟨text, summary, order, sequence⟩ := self
  cases kind <;> cases alone <;> simp [held, pendingOf, textOf, tagged]

theorem pendingOf_put (self : AiLiveDeltaCoalescer) (kind : AiLiveDeltaKind)
    (pending : Option PendingDelta) : (self.put kind pending).pendingOf kind = pending := by
  cases kind <;> rfl

theorem pendingOf_put_other (self : AiLiveDeltaCoalescer) (kind : AiLiveDeltaKind)
    (pending : Option PendingDelta) :
    (self.put kind pending).pendingOf (otherKind kind) = self.pendingOf (otherKind kind) := by
  cases kind <;> rfl

theorem nextBatchSequence_put (self : AiLiveDeltaCoalescer) (kind : AiLiveDeltaKind)
    (pending : Option PendingDelta) :
    (self.put kind pending).nextBatchSequence = self.nextBatchSequence := by
  cases kind <;> rfl

theorem free_of_pendingOf (own : self.pendingOf kind = none)
    (other : self.pendingOf (otherKind kind) = none) :
    self.text = none ∧ self.reasoningSummary = none := by
  cases kind
  · exact ⟨own, other⟩
  · exact ⟨other, own⟩

theorem Proper.put {pending : Option PendingDelta}
    (free : self.text = none ∧ self.reasoningSummary = none)
    (fits : ∀ buffer ∈ pending, Fits limits buffer.text) :
    Proper limits (self.put kind pending) := by
  obtain ⟨text, summary⟩ := free
  cases kind
  · refine ⟨.inr summary, fun kind => ?_⟩
    cases kind
    · exact fits
    · rw [pendingOf, AiLiveDeltaCoalescer.put, summary]
      nofun
  · refine ⟨.inl text, fun kind => ?_⟩
    cases kind
    · rw [pendingOf, AiLiveDeltaCoalescer.put, text]
      nofun
    · exact fits

/-- Text of the other kind goes out before text of this kind comes in. -/
theorem preceding_spec (proper : Proper limits self) (kind : AiLiveDeltaKind) :
    Unless .sequenceOverflow ((self.put (otherKind kind) none).batchAll limits
      ((self.pendingOf (otherKind kind)).toList.map (otherKind kind, ·))) fun made =>
      Accounts limits self.nextBatchSequence self.held made.1 made.2.nextBatchSequence
        (tagged kind (textOf (self.pendingOf kind))) ∧
      made.2.pendingOf kind = self.pendingOf kind ∧ made.2.pendingOf (otherKind kind) = none := by
  have kept : (self.put (otherKind kind) none).pendingOf kind = self.pendingOf kind := by
    cases kind <;> rfl
  cases other : self.pendingOf (otherKind kind) with
  | none =>
    refine unless_ok ⟨?_, kept, pendingOf_put self (otherKind kind) none⟩
    rw [held_of_single other, nextBatchSequence_put]
    exact .start _ _
  | some pending =>
    have own : self.pendingOf kind = none := by
      rcases proper.single with text | summary <;> cases kind <;> simp_all [pendingOf, otherKind]
    have fits := proper.fits (otherKind kind) pending other
    have alone : self.pendingOf (otherKind (otherKind kind)) = none := by cases kind <;> exact own
    apply (batchAll_single (self.put (otherKind kind) none) fits []).mono
    rintro made ⟨given, text, summary⟩
    have same : ∀ k, made.2.pendingOf k = (self.put (otherKind kind) none).pendingOf k := by
      intro k
      cases k
      · exact text
      · exact summary
    refine ⟨?_, (same kind).trans kept, (same _).trans (pendingOf_put self (otherKind kind) none)⟩
    rw [List.append_nil, nextBatchSequence_put] at given
    rw [held_of_single alone, other, own]
    exact given

theorem pushFragment_spec (proper : Proper limits self) (kind : AiLiveDeltaKind)
    (fragment : List Char) (now : Nat) :
    Unless .sequenceOverflow (self.pushFragment limits kind fragment now)
      (Keeps limits self (tagged kind fragment)) := by
  unfold pushFragment
  apply (preceding_spec proper kind).bind
  rintro ⟨batches, after⟩ ⟨given, own, other⟩
  dsimp only at given own other ⊢
  have pushed : Pushed limits self.nextBatchSequence (self.held ++ tagged kind fragment) kind
      ⟨after.put kind none, batches, after.pendingOf kind, fragment⟩ := by
    refine ⟨?_, ?_, ?_⟩
    · rw [own, tagged_append, nextBatchSequence_put]
      exact given.say _
    · exact free_of_pendingOf (pendingOf_put after kind none)
        ((pendingOf_put_other after kind none).trans other)
    · rw [own]
      exact proper.fits kind
  apply (turns_spec pushed (Pushing.work_le _)).bind
  rintro last ⟨kept, done⟩
  refine unless_ok ⟨?_, .put kept.free kept.fits⟩
  have alone : (last.self.put kind last.pending).pendingOf (otherKind kind) = none := by
    rw [pendingOf_put_other]
    cases kind
    · exact kept.free.2
    · exact kept.free.1
  have accounts := kept.accounts
  rw [done, List.append_nil] at accounts
  rw [held_of_single alone, pendingOf_put, nextBatchSequence_put]
  exact accounts

theorem Keeps.trans {said later : List (AiLiveDeltaKind × Char)}
    {made others : List AiLiveDeltaBatch × AiLiveDeltaCoalescer}
    (first : Keeps limits self said made) (second : Keeps limits made.2 later others) :
    Keeps limits self (said ++ later) (made.1 ++ others.1, others.2) := by
  refine ⟨?_, second.2⟩
  rw [← List.append_assoc]
  exact first.1.trans second.1

theorem pushEvent_spec (proper : Proper limits self) (event : ProviderEvent) (now : Nat) :
    Unless .sequenceOverflow (self.pushEvent limits event now)
      (Keeps limits self (elements (Call.pushEvent event now).fragment.toList)) := by
  unfold pushEvent
  apply ((flush_spec proper fun kind => isDue limits now (self.pendingOf kind))).bind
  rintro ⟨batches, after⟩ ⟨kept, -⟩
  rw [Call.fragment]
  cases visible : event.visible.filter fun visible => !visible.2.isEmpty with
  | none => exact unless_ok kept
  | some fragment =>
    apply (pushFragment_spec kept.2 fragment.1 fragment.2 now).bind
    rintro others second
    apply unless_ok
    have both := kept.trans second
    simpa [elements] using both

end AiLiveDeltaCoalescer

/-! ### Every run -/

open AiLiveDeltaCoalescer

theorem Call.run_spec (proper : Proper limits self) (call : Call) :
    Unless .sequenceOverflow (call.run limits self)
      (Keeps limits self (elements call.fragment.toList)) := by
  cases call with
  | pushEvent event now => exact pushEvent_spec proper event now
  | flushDue now =>
    apply (flush_spec proper fun kind => isDue limits now (self.pendingOf kind)).mono
    exact fun made kept => kept.1

theorem runCalls_spec (proper : Proper limits self) (calls : List Call) :
    Unless .sequenceOverflow (runCalls limits self calls)
      (Keeps limits self (elements (calls.filterMap Call.fragment))) := by
  induction calls generalizing self with
  | nil =>
    refine unless_ok ⟨?_, proper⟩
    simpa [elements] using Accounts.start _ _
  | cons call rest ih =>
    rw [runCalls]
    apply (Call.run_spec proper call).bind
    rintro first kept
    apply (ih kept.2).bind
    rintro others later
    apply unless_ok
    have both := kept.trans later
    cases said : call.fragment with
    | none | some fragment => simpa [said, elements] using both

end GraphqlOrm.Ai.LiveDelta
