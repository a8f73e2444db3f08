import GraphqlOrm.Router.GatewayMoves

/-!
# Accounts of the gateway

The counters of the gateway are the sums of what its connections hold. What a connection holds is
bounded and given back when it closes, once.
-/
namespace GraphqlOrm.Router

/-! ### What the operations do -/

@[simp] theorem Counter.fetchSub_zero (counter : Counter) : counter.fetchSub 0 = counter := by
  simp [Counter.fetchSub]

/-- Giving back a share of a counter leaves the rest. -/
theorem Counter.fetchSub_share (rest share : Nat) :
    Counter.fetchSub ⟨rest + share, false⟩ share = ⟨rest, false⟩ := by
  simp [Counter.fetchSub]

theorem View.removeOperations_eq (count : Nat) (view : View) :
    view.removeOperations count =
      { view with activeOperations := view.activeOperations.fetchSub count } := by
  unfold View.removeOperations
  split
  · rfl
  next none =>
    obtain rfl := not_not.mp none
    rw [Counter.fetchSub_zero]

theorem View.dropPermit_eq (view : View) :
    view.dropPermit =
      { view.withState { view.state with permit := false } with
        activeConnections := view.activeConnections.fetchSub view.state.permit.toNat } := by
  unfold View.dropPermit
  split
  next held => rw [held, Bool.toNat_true]
  next free =>
    have free : view.state.permit = false := by simpa using free
    obtain ⟨connections, operations, ⟨⟨phase, sink, held, permit⟩, _⟩⟩ := view
    obtain rfl := free
    simp [View.withState]

theorem View.removeOperation_eq (id : String) (view : View) :
    view.removeOperation id =
      { view.withState { view.state with operations := view.state.operations.erase id } with
        activeOperations :=
          view.activeOperations.fetchSub (if id ∈ view.state.operations then 1 else 0) } := by
  unfold View.removeOperation
  split
  · rw [View.removeOperations_eq]
    rfl
  next absent =>
    rw [Finset.erase_eq_of_notMem absent, Counter.fetchSub_zero]
    rfl

theorem View.drop_eq (view : View) :
    view.drop =
      ⟨view.activeConnections.fetchSub view.state.permit.toNat,
        view.activeOperations.fetchSub view.state.operations.card,
        { view.connection with
          state := { view.state with operations := ∅, permit := false }, alive := false }⟩ := by
  unfold View.drop
  rw [View.removeOperations_eq, View.dropPermit_eq]
  rfl

namespace View

variable {view : View} {farewell : Farewell}

theorem part_of_closed (closed : view.phase = .closed) : view.part farewell = view := by
  unfold part terminate
  rw [if_pos closed]
  rfl

def internalCloses (farewell : Farewell) (sink : Option Nat) : List (Nat × Message) :=
  sink.toList.flatMap fun sink => farewell.internalClose.toList.map fun reason => (sink, .close reason)

def defers (farewell : Farewell) (sink : Option Nat) : Bool := farewell.waits && sink.isSome

def publicCloses (farewell : Farewell) (sink : Option Nat) : List Message :=
  if defers farewell sink then [] else farewell.publicClose.toList.map .close

def partings (farewell : Farewell) (sink : Option Nat) : List Waiting :=
  if defers farewell sink then farewell.publicClose.toList.map .parting else []

theorem part_of_open (open_ : view.phase ≠ .closed) :
    view.part farewell =
      ⟨view.activeConnections.fetchSub view.state.permit.toNat,
        view.activeOperations.fetchSub view.state.operations.card,
        { view.connection with
          state := ⟨.closed, none, ∅, false⟩
          sent := view.connection.sent ++ internalCloses farewell view.state.internalSink
          published := view.connection.published ++ publicCloses farewell view.state.internalSink
          waiting := partings farewell view.state.internalSink ++ view.connection.waiting
          severed := farewell.internalClose.isNone }⟩ := by
  unfold part terminate
  rw [if_neg open_, View.removeOperations_eq, View.dropPermit_eq]
  obtain ⟨internalClose, publicClose, waits⟩ := farewell
  unfold internalCloses publicCloses partings defers sendClose publishClose
  cases view.state.internalSink <;> cases internalClose <;> cases publicClose <;> cases waits <;>
    simp [withState, send, publish, suspend]

theorem partings_connecting (farewell : Farewell) (sink : Option Nat) :
    (partings farewell sink).countP Waiting.isConnecting = 0 := by
  unfold partings
  split
  · simp [List.countP_map, Function.comp_def, Waiting.isConnecting]
  · rfl

/-- There is one public close at most, at once or after a wait. -/
theorem publicCloses_le (farewell : Farewell) (sink : Option Nat) :
    (publicCloses farewell sink).countP Message.isClose +
      (partings farewell sink).countP Waiting.isParting ≤ 1 := by
  unfold publicCloses partings
  cases farewell.publicClose <;> split <;> simp [Message.isClose, Waiting.isParting]

end View

/-! ### Counters -/

/-- The counters are the shares of the other connections and what this one holds. -/
structure Accounts (limits : SubscriptionConfig) (operations permits : Nat) (view : View) : Prop where
  operations : view.activeOperations = ⟨operations + view.state.operations.card, false⟩
  connections : view.activeConnections = ⟨permits + view.state.permit.toNat, false⟩
  limited : view.activeConnections.value ≤ limits.maxConnections
  bounded : view.state.operations.card ≤ limits.maxOperationsPerConnection
  released : view.phase = .closed → view.state.operations = ∅ ∧ view.state.permit = false

section Accounts

variable {limits : SubscriptionConfig} {operations permits : Nat} {view : View}

theorem Accounts.removeOperation (accounts : Accounts limits operations permits view) (id : String) :
    Accounts limits operations permits (view.removeOperation id) := by
  rw [View.removeOperation_eq]
  refine ⟨?_, accounts.connections, accounts.limited, ?_, fun closed => ?_⟩
  · show view.activeOperations.fetchSub _ = ⟨operations + (view.state.operations.erase id).card, false⟩
    rw [accounts.operations]
    by_cases held : id ∈ view.state.operations
    · rw [if_pos held, ← Finset.card_erase_add_one held, ← Nat.add_assoc, Counter.fetchSub_share]
    · rw [if_neg held, Counter.fetchSub_zero, Finset.erase_eq_of_notMem held]
  · exact (Finset.card_erase_le).trans accounts.bounded
  · obtain ⟨none, free⟩ := accounts.released closed
    exact ⟨by show view.state.operations.erase id = ∅; rw [none, Finset.erase_empty], free⟩

theorem Accounts.part (accounts : Accounts limits operations permits view)
    (farewell : View.Farewell) : Accounts limits operations permits (view.part farewell) := by
  by_cases closed : view.phase = .closed
  · rwa [View.part_of_closed closed]
  · rw [View.part_of_open closed]
    refine ⟨?_, ?_, ?_, Nat.zero_le _, fun _ => ⟨rfl, rfl⟩⟩
    · rw [accounts.operations, Counter.fetchSub_share]
      rfl
    · rw [accounts.connections, Counter.fetchSub_share]
      rfl
    · exact (Nat.sub_le _ _).trans accounts.limited

section

variable {gateway : SubscriptionGateway} {regular : Prop} {after : View}
    (accounts : Accounts gateway.config operations permits view)
include accounts

theorem Accounts.move (move : Move gateway regular view after) :
    Accounts gateway.config operations permits after := by
  obtain ⟨held, free, limited, bounded, released⟩ := accounts
  cases move with
  | tasks | publish | send | connect | announce => exact ⟨held, free, limited, bounded, released⟩
  | authenticate | acknowledge => exact ⟨held, free, limited, bounded, nofun⟩
  | subscribe id sink message ready _ unused room =>
    have more : (insert id view.state.operations).card = view.state.operations.card + 1 :=
      Finset.card_insert_of_notMem unused
    refine ⟨?_, free, limited, ?_, fun closed => ?_⟩
    · show view.activeOperations.fetchAdd 1 = ⟨operations + (insert id view.state.operations).card, false⟩
      rw [held, more, ← Nat.add_assoc]
      rfl
    · show (insert id view.state.operations).card ≤ _
      omega
    · cases ready.symm.trans closed
  | complete id sink message =>
    obtain ⟨held, free, limited, bounded, released⟩ :=
      Accounts.removeOperation ⟨held, free, limited, bounded, released⟩ id
    exact ⟨held, free, limited, bounded, released⟩
  | part farewell => exact Accounts.part ⟨held, free, limited, bounded, released⟩ farewell
  | abort id farewell =>
    exact (Accounts.removeOperation ⟨held, free, limited, bounded, released⟩ id).part farewell
  | drop =>
    rw [View.drop_eq]
    refine ⟨?_, ?_, (Nat.sub_le _ _).trans limited, Nat.zero_le _, fun _ => ⟨rfl, rfl⟩⟩
    · rw [held, Counter.fetchSub_share]
      rfl
    · rw [free, Counter.fetchSub_share]
      rfl

theorem Accounts.moves (moves : Moves gateway regular view after) : Accounts gateway.config operations permits after := by
  induction moves with
  | refl => exact accounts
  | tail _ move ih => exact ih.move move

end

end Accounts

/-! ### Sinks -/

/-- What is known of the sinks that a connection stored. Only one handshake is ever made. -/
structure SinksKnown (connection : Connection) : Prop where
  kept : connection.state.phase ≠ .closed → ∀ entry ∈ connection.stored,
    connection.state.internalSink = some entry.1
  late : connection.state.phase = .closed → ∀ sink,
    connection.state.internalSink = some sink → (sink, .closed) ∈ connection.stored
  notified : connection.state.phase = .closed → ∀ entry ∈ connection.stored, entry.2 ≠ .closed →
    connection.severed = true ∨ ∃ reason, (entry.1, Message.close reason) ∈ connection.sent
  once : connection.stored.length + connection.waiting.countP Waiting.isConnecting ≤ 1
  fresh : connection.state.phase = .waitingForInit →
    connection.stored.length + connection.waiting.countP Waiting.isConnecting = 0

section Sinks

variable {gateway : SubscriptionGateway} {regular : Prop} {view after : View}

section

variable (known : SinksKnown view.connection)
include known

theorem SinksKnown.removeOperation (id : String) :
    SinksKnown (view.removeOperation id).connection := by
  rw [View.removeOperation_eq]
  exact ⟨known.kept, known.late, known.notified, known.once, known.fresh⟩

theorem SinksKnown.part (farewell : View.Farewell) :
    SinksKnown (view.part farewell).connection := by
  by_cases closed : view.phase = .closed
  · rwa [View.part_of_closed closed]
  · rw [View.part_of_open closed]
    refine ⟨fun open_ => absurd rfl open_, fun _ _ => nofun, fun _ entry mem early => ?_, ?_, nofun⟩
    · -- The sink that was stored is the one that is taken, and it gets the close.
      have sink : view.state.internalSink = some entry.1 := known.kept closed entry mem
      cases given : farewell.internalClose with
      | none => exact .inl rfl
      | some reason =>
        refine .inr ⟨reason, List.mem_append_right _ ?_⟩
        unfold View.internalCloses
        rw [sink, given]
        exact List.mem_singleton_self _
    · show _ + (View.partings farewell view.state.internalSink ++ view.connection.waiting).countP _ ≤ 1
      rw [List.countP_append, View.partings_connecting, Nat.zero_add]
      exact known.once

theorem SinksKnown.connected {token : String}
    (waits : .connecting token ∈ view.connection.waiting) :
    SinksKnown (view.connected token).connection := by
  have counted : 0 < view.connection.waiting.countP Waiting.isConnecting :=
    List.countP_pos_iff.mpr ⟨_, waits, rfl⟩
  have first : view.connection.stored = [] := by
    rw [← List.length_eq_zero_iff]
    have once := known.once
    omega
  have others : (view.connection.waiting.erase (.connecting token)).countP Waiting.isConnecting = 0 := by
    have erased := List.countP_erase Waiting.isConnecting view.connection.waiting (.connecting token)
    have own : Waiting.isConnecting (.connecting token) = true := rfl
    rw [if_pos ⟨waits, own⟩] at erased
    have once := known.once
    omega
  have single : (view.connected token).connection.stored = [(view.connection.stored.length, view.phase)] :=
    congrArg (· ++ [(view.connection.stored.length, view.phase)]) first
  refine ⟨fun _ entry mem => ?_, fun closed sink own => ?_, fun closed entry mem early => ?_,
    ?_, fun fresh => ?_⟩
  · rw [single] at mem
    rw [List.mem_singleton.mp mem]
    rfl
  · obtain rfl := Option.some.inj own
    rw [single]
    exact List.mem_singleton.mpr (Prod.ext rfl (Eq.symm closed))
  · rw [single] at mem
    rw [List.mem_singleton.mp mem] at early
    exact absurd closed early
  · rw [single]
    show 1 + (view.connection.waiting.erase (.connecting token)).countP Waiting.isConnecting ≤ 1
    omega
  · have none := known.fresh fresh
    omega

theorem SinksKnown.move (move : Move gateway regular view after) :
    SinksKnown after.connection := by
  obtain ⟨kept, late, notified, once, fresh⟩ := known
  cases move with
  | tasks waiting initTimeout expiries fewer =>
    have connecting := fewer.connecting
    refine ⟨kept, late, notified, ?_, fun waits => ?_⟩
    · exact (Nat.add_le_add_left connecting _).trans once
    · have none := fresh waits
      show view.connection.stored.length + waiting.countP Waiting.isConnecting = 0
      omega
  | publish => exact ⟨kept, late, notified, once, fresh⟩
  | send sink message =>
    refine ⟨kept, late, fun closed entry mem early => ?_, once, fresh⟩
    exact (notified closed entry mem early).imp id fun ⟨reason, sent⟩ =>
      ⟨reason, List.mem_append_left _ sent⟩
  | authenticate token waits =>
    have none := fresh waits
    refine ⟨fun _ entry mem => ?_, nofun, nofun, ?_, nofun⟩
    · have empty : view.connection.stored = [] := List.length_eq_zero_iff.mp (by omega)
      exact absurd (empty ▸ mem) List.not_mem_nil
    · show view.connection.stored.length +
        (.connecting token :: view.connection.waiting).countP Waiting.isConnecting ≤ 1
      rw [List.countP_cons_of_pos rfl]
      omega
  | acknowledge connecting =>
    have kept := kept (by rw [show view.connection.state.phase = _ from connecting]; nofun)
    exact ⟨fun _ => kept, nofun, nofun, once, nofun⟩
  | connect token waits => exact SinksKnown.connected ⟨kept, late, notified, once, fresh⟩ waits
  | subscribe id sink message ready =>
    refine ⟨kept, late, fun closed => ?_, once, fresh⟩
    cases ready.symm.trans closed
  | complete id sink message ready =>
    obtain ⟨kept, late, notified, once, fresh⟩ :=
      SinksKnown.removeOperation ⟨kept, late, notified, once, fresh⟩ id
    refine ⟨kept, late, fun closed entry mem early => ?_, once, fresh⟩
    exact (notified closed entry mem early).imp (fun severed => severed) fun ⟨reason, sent⟩ =>
      ⟨reason, List.mem_append_left _ sent⟩
  | part farewell => exact SinksKnown.part ⟨kept, late, notified, once, fresh⟩ farewell
  | abort id farewell =>
    exact (SinksKnown.removeOperation ⟨kept, late, notified, once, fresh⟩ id).part farewell
  | announce reason waits =>
    have fewer := (fewer_erase view.connection.waiting (.parting reason)).connecting
    refine ⟨kept, late, notified, ?_, fun waits => ?_⟩
    · exact (Nat.add_le_add_left fewer _).trans once
    · have none := fresh waits
      show view.connection.stored.length +
        (view.connection.waiting.erase (.parting reason)).countP Waiting.isConnecting = 0
      omega
  | drop =>
    rw [View.drop_eq]
    exact ⟨kept, late, notified, once, fresh⟩

theorem SinksKnown.moves (moves : Moves gateway regular view after) :
    SinksKnown after.connection := by
  induction moves with
  | refl => exact known
  | tail _ move ih => exact ih.move move

end

end Sinks

/-! ### Sinks of regular steps -/

/-- Every sink was stored before the connection was closed, and is told of its end. -/
structure Attended (connection : Connection) : Prop where
  timely : ∀ entry ∈ connection.stored, entry.2 ≠ .closed
  told : connection.severed = false

section Attended

variable {gateway : SubscriptionGateway} {regular : Prop} {view after : View}

section

variable (attended : Attended view.connection)
include attended

theorem Attended.removeOperation (id : String) :
    Attended (view.removeOperation id).connection := by
  rw [View.removeOperation_eq]
  exact ⟨attended.timely, attended.told⟩

theorem Attended.part {farewell : View.Farewell}
    (told : view.phase ≠ .closed → farewell.internalClose.isSome = true) :
    Attended (view.part farewell).connection := by
  by_cases closed : view.phase = .closed
  · rwa [View.part_of_closed closed]
  · rw [View.part_of_open closed]
    refine ⟨attended.timely, ?_⟩
    show farewell.internalClose.isNone = false
    rw [Option.isNone_eq_false_iff, told closed]

theorem Attended.move (holds : regular)
    (move : Move gateway regular view after) : Attended after.connection := by
  obtain ⟨timely, told⟩ := attended
  cases move with
  | tasks | publish | send | authenticate | acknowledge | subscribe | announce =>
    exact ⟨timely, told⟩
  | connect token waits open_ =>
    refine ⟨fun entry mem => ?_, told⟩
    rcases List.mem_append.mp mem with earlier | own
    · exact timely entry earlier
    · rw [List.mem_singleton.mp own]
      exact open_ holds
  | complete id =>
    obtain ⟨timely, told⟩ := Attended.removeOperation ⟨timely, told⟩ id
    exact ⟨timely, told⟩
  | part farewell closes => exact Attended.part ⟨timely, told⟩ (closes holds)
  | abort id farewell closes =>
    exact (Attended.removeOperation ⟨timely, told⟩ id).part fun _ => closes
  | drop =>
    rw [View.drop_eq]
    exact ⟨timely, told⟩

theorem Attended.moves (holds : regular)
    (moves : Moves gateway regular view after) : Attended after.connection := by
  induction moves with
  | refl => exact attended
  | tail _ move ih => exact ih.move holds move

end

end Attended

/-! ### Public closes -/

def Connection.closes (connection : Connection) : Nat :=
  connection.published.countP Message.isClose + connection.waiting.countP Waiting.isParting

structure ClosesOnce (connection : Connection) : Prop where
  once : connection.closes ≤ 1
  none : connection.state.phase ≠ .closed → connection.closes = 0

section Closes

variable {gateway : SubscriptionGateway} {regular : Prop} {view after : View}

/-- A connection that has not more to close than before. -/
theorem ClosesOnce.fewer {before after : Connection} (closes : ClosesOnce before)
    (fewer : after.closes ≤ before.closes)
    (open_ : after.state.phase ≠ .closed → before.state.phase ≠ .closed) : ClosesOnce after where
  once := fewer.trans closes.once
  none stays := Nat.le_zero.mp (closes.none (open_ stays) ▸ fewer)

theorem ClosesOnce.part (closes : ClosesOnce view.connection) (farewell : View.Farewell) :
    ClosesOnce (view.part farewell).connection := by
  by_cases closed : view.phase = .closed
  · rwa [View.part_of_closed closed]
  · have none := closes.none closed
    have added := View.publicCloses_le farewell view.state.internalSink
    rw [View.part_of_open closed]
    refine ⟨?_, fun open_ => absurd rfl open_⟩
    unfold Connection.closes at none ⊢
    simp only [List.countP_append]
    omega

theorem ClosesOnce.move (closes : ClosesOnce view.connection) (move : Move gateway regular view after) :
    ClosesOnce after.connection := by
  cases move with
  | tasks waiting initTimeout expiries fewer =>
    exact closes.fewer (Nat.add_le_add_left fewer.parting _) id
  | publish message open_ =>
    refine closes.fewer (Nat.add_le_add_right (le_of_eq ?_) _) id
    show (view.connection.published ++ [message]).countP Message.isClose = _
    rw [List.countP_append, List.countP_singleton, open_]
    rfl
  | send | subscribe => exact closes.fewer le_rfl id
  | authenticate token waits =>
    refine closes.fewer le_rfl fun _ closed => ?_
    cases (show view.connection.state.phase = _ from waits).symm.trans closed
  | acknowledge connecting =>
    refine closes.fewer le_rfl fun _ closed => ?_
    cases (show view.connection.state.phase = _ from connecting).symm.trans closed
  | connect token waits =>
    exact closes.fewer (Nat.add_le_add_left (fewer_erase _ _).parting _) id
  | complete id sink message =>
    rw [View.removeOperation_eq]
    exact closes.fewer le_rfl fun open_ => open_
  | part farewell => exact closes.part farewell
  | abort id farewell =>
    have removed : ClosesOnce (view.removeOperation id).connection := by
      rw [View.removeOperation_eq]
      exact closes.fewer le_rfl fun open_ => open_
    exact removed.part farewell
  | announce reason waits =>
    refine closes.fewer (le_of_eq ?_) id
    have erased := List.countP_erase Waiting.isParting view.connection.waiting (.parting reason)
    have own : Waiting.isParting (.parting reason) = true := rfl
    have held : 0 < view.connection.waiting.countP Waiting.isParting :=
      List.countP_pos_iff.mpr ⟨_, waits, own⟩
    rw [if_pos ⟨waits, own⟩] at erased
    show (view.connection.published ++ [Message.close reason]).countP Message.isClose +
      (view.connection.waiting.erase (.parting reason)).countP Waiting.isParting = _
    rw [List.countP_append, erased]
    show _ + 1 + _ = view.connection.published.countP Message.isClose + _
    omega
  | drop =>
    rw [View.drop_eq]
    exact closes.fewer le_rfl id

theorem ClosesOnce.moves (closes : ClosesOnce view.connection) (moves : Moves gateway regular view after) :
    ClosesOnce after.connection := by
  induction moves with
  | refl => exact closes
  | tail _ move ih => exact ih.move move

/-! ### The last phase -/

theorem part_closed (view : View) (farewell : View.Farewell) :
    (view.part farewell).phase = .closed := by
  by_cases closed : view.phase = .closed
  · rwa [View.part_of_closed closed]
  · rw [View.part_of_open closed]

theorem removeOperation_phase (view : View) (id : String) :
    (view.removeOperation id).phase = view.phase := by
  rw [View.removeOperation_eq]
  rfl

theorem Move.closed (move : Move gateway regular view after) (closed : view.phase = .closed) :
    after.phase = .closed := by
  cases move with
  | tasks | publish | send | connect | subscribe | announce => exact closed
  | authenticate token waits => cases waits.symm.trans closed
  | acknowledge connecting => cases connecting.symm.trans closed
  | complete id => exact (removeOperation_phase view id).trans closed
  | part farewell => exact part_closed view farewell
  | abort id farewell => exact part_closed _ farewell
  | drop =>
    rw [View.drop_eq]
    exact closed

theorem Moves.closed (moves : Moves gateway regular view after) (closed : view.phase = .closed) :
    after.phase = .closed := by
  induction moves with
  | refl => exact closed
  | tail _ move ih => exact move.closed ih

end Closes

/-! ### Connections -/

/-- What holds of a connection at any time, whatever the others do. -/
structure Connection.Sound (limits : SubscriptionConfig) (connection : Connection) : Prop where
  bounded : connection.state.operations.card ≤ limits.maxOperationsPerConnection
  released : connection.state.phase = .closed →
    connection.state.operations = ∅ ∧ connection.state.permit = false
  sinks : SinksKnown connection
  closes : ClosesOnce connection

section Steps

variable {gateway : SubscriptionGateway} {action : Action} {operations permits : Nat}
  {view after : View}

section

variable (acted : view.act gateway action = some after)
include acted

/-- The shares and the soundness of a connection are kept by whatever happens next to it. -/
theorem act_sound (accounts : Accounts gateway.config operations permits view)
    (sound : view.connection.Sound gateway.config) :
    Accounts gateway.config operations permits after ∧ after.connection.Sound gateway.config := by
  -- A frame may first end an operation, and moves follow.
  obtain ⟨between, accounts', sinks, closes, moves⟩ : ∃ between,
      Accounts gateway.config operations permits between ∧ SinksKnown between.connection ∧
        ClosesOnce between.connection ∧
          Moves gateway (view.connection.Regular action) between after := by
    rcases act_moves acted with moves | ⟨sink, frame, id, _, _, moves⟩
    · exact ⟨view, accounts, sound.sinks, sound.closes, moves⟩
    · have taken : Move gateway (view.connection.Regular action) view (view.take (.receiving sink)) :=
        move_take _ view
      refine ⟨_, (accounts.move taken).removeOperation id,
        (sound.sinks.move taken).removeOperation id, ?_, moves⟩
      rw [View.removeOperation_eq]
      exact (sound.closes.move taken).fewer le_rfl fun open_ => open_
  have accounts := accounts'.moves moves
  exact ⟨accounts, accounts.bounded, accounts.released, sinks.moves moves, closes.moves moves⟩

/-- A regular step leaves no sink that is not told of the end. -/
theorem act_attended (regular : view.connection.Regular action) (attended : Attended view.connection) :
    Attended after.connection := by
  rcases act_moves acted with moves | ⟨sink, frame, id, _, _, moves⟩
  · exact attended.moves regular moves
  · have taken : Move gateway (view.connection.Regular action) view (view.take (.receiving sink)) :=
      move_take _ view
    exact ((attended.move regular taken).removeOperation id).moves regular moves

theorem act_closed (closed : view.phase = .closed) : after.phase = .closed := by
  rcases act_moves acted with moves | ⟨sink, frame, id, _, _, moves⟩
  · exact moves.closed closed
  · exact moves.closed ((removeOperation_phase _ id).trans closed)

end

end Steps

end GraphqlOrm.Router
