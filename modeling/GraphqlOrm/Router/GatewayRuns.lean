import GraphqlOrm.Router.GatewayAccounts
import Mathlib.Algebra.BigOperators.Group.List.Basic

/-!
# Runs of the gateway

In every order of the steps of all connections, the counters are what the connections hold. A closed
connection keeps no sink, and its sink is sent a close, as long as no handshake completes after the
connection was closed and the internal side is not the one to end it.

## Main result

* `gateway_accounts`
-/
namespace GraphqlOrm.Router

/-! ### Shares -/

/-- A sum is the share of one element and the rest, which stays when that element is replaced. -/
theorem exists_rest {α : Type} {xs : List α} {i : Nat} {x : α} (found : xs[i]? = some x)
    (share : α → Nat) :
    ∃ rest, (xs.map share).sum = rest + share x ∧
      ∀ y, ((xs.set i y).map share).sum = rest + share y := by
  induction xs generalizing i with
  | nil => cases found
  | cons first others ih =>
    cases i with
    | zero =>
      obtain rfl := Option.some.inj found
      refine ⟨(others.map share).sum, Nat.add_comm _ _, fun y => Nat.add_comm _ _⟩
    | succ i =>
      obtain ⟨rest, before, later⟩ := ih (show others[i]? = some x from found)
      refine ⟨share first + rest, ?_, fun y => ?_⟩
      · rw [List.map_cons, List.sum_cons, before, Nat.add_assoc]
      · rw [List.set_cons_succ, List.map_cons, List.sum_cons, later y, Nat.add_assoc]

namespace World

def operations (world : World) : Nat :=
  (world.connections.map fun connection => connection.state.operations.card).sum

def permits (world : World) : Nat :=
  world.upgrades + (world.connections.map fun connection => connection.state.permit.toNat).sum

structure Sound (limits : SubscriptionConfig) (world : World) : Prop where
  operations : world.activeOperations = ⟨world.operations, false⟩
  permits : world.activeConnections = ⟨world.permits, false⟩
  limited : world.activeConnections.value ≤ limits.maxConnections
  each : ∀ connection ∈ world.connections, connection.Sound limits

theorem start_sound (limits : SubscriptionConfig) : World.start.Sound limits where
  operations := rfl
  permits := rfl
  limited := Nat.zero_le _
  each _ := nofun

variable {action : GatewayAction}

section Steps

variable {gateway : SubscriptionGateway} {world after : World}

theorem new_sound (limits : SubscriptionConfig) : Connection.new.Sound limits where
  bounded := Nat.zero_le _
  released := nofun
  sinks := ⟨fun _ _ => nofun, nofun, nofun, Nat.zero_le _, fun _ => rfl⟩
  closes := ⟨Nat.zero_le _, fun _ => rfl⟩

/-- A connection that refuses the protocol is closed at once. -/
theorem createConnectionService_sound {limits : SubscriptionConfig} {operations permits : Nat}
    {connections actives : Counter}
    (accounts : Accounts limits operations permits ⟨connections, actives, .new⟩)
    (acceptedSubprotocol : Bool) :
    Accounts limits operations permits
        (View.createConnectionService acceptedSubprotocol ⟨connections, actives, .new⟩) ∧
      (View.createConnectionService acceptedSubprotocol
        ⟨connections, actives, .new⟩).connection.Sound limits := by
  have sound := new_sound limits
  cases acceptedSubprotocol with
  | true =>
    have same : Accounts limits operations permits
        (View.createConnectionService true ⟨connections, actives, .new⟩) :=
      ⟨accounts.operations, accounts.connections, accounts.limited, accounts.bounded,
        accounts.released⟩
    obtain ⟨kept, late, notified, once, fresh⟩ := sound.sinks
    exact ⟨same, sound.bounded, sound.released, ⟨kept, late, notified, once, fresh⟩,
      sound.closes.fewer le_rfl id⟩
  | false =>
    have parted := accounts.part ⟨some View.clientDisconnected, none, false⟩
    obtain ⟨held, free, limited, bounded, released⟩ := parted
    obtain ⟨kept, late, notified, once, fresh⟩ :=
      @SinksKnown.part ⟨connections, actives, .new⟩ sound.sinks
        ⟨some View.clientDisconnected, none, false⟩
    refine ⟨⟨held, free, limited, bounded, released⟩, bounded, released,
      ⟨kept, late, notified, once, fresh⟩, ?_⟩
    exact ⟨le_rfl, fun open_ => absurd rfl open_⟩

section

variable (sound : world.Sound gateway.config)
include sound

theorem Sound.reserve (stepped : world.step gateway .reserve = some after) : after.Sound gateway.config := by
  obtain ⟨held, free, limited, each⟩ := sound
  unfold World.step at stepped
  simp only at stepped
  split at stepped
  · obtain rfl := Option.some.inj stepped
    exact ⟨held, free, limited, each⟩
  next counter reserved =>
    obtain rfl := Option.some.inj stepped
    unfold tryReserveConnection at reserved
    split at reserved
    · cases reserved
    next room =>
      obtain rfl := Option.some.inj reserved
      refine ⟨held, ?_, ?_, each⟩
      · show world.activeConnections.fetchAdd 1 = ⟨world.upgrades + 1 + _, false⟩
        rw [free, Nat.add_right_comm]
        rfl
      · show world.activeConnections.value + 1 ≤ _
        omega

theorem Sound.abandon (stepped : world.step gateway .abandon = some after) : after.Sound gateway.config := by
  obtain ⟨held, free, limited, each⟩ := sound
  unfold World.step at stepped
  simp only at stepped
  split at stepped
  next some =>
    obtain rfl := Option.some.inj stepped
    refine ⟨held, ?_, (Nat.sub_le _ _).trans limited, each⟩
    show world.activeConnections.fetchSub 1 = ⟨world.upgrades - 1 + _, false⟩
    have split : world.permits = world.upgrades - 1 +
        (world.connections.map fun connection => connection.state.permit.toNat).sum + 1 := by
      unfold World.permits
      omega
    rw [free, split, Counter.fetchSub_share]
  · cases stepped

theorem Sound.create {acceptedSubprotocol : Bool}
    (stepped : world.step gateway (.create acceptedSubprotocol) = some after) :
    after.Sound gateway.config := by
  obtain ⟨held, free, limited, each⟩ := sound
  unfold World.step at stepped
  simp only at stepped
  split at stepped
  next some =>
    obtain rfl := Option.some.inj stepped
    -- The permit of the upgrade becomes that of the connection.
    have accounts : Accounts gateway.config world.operations (world.permits - 1)
        (world.view .new) := by
      refine ⟨held, free.trans ?_, limited, Nat.zero_le _, nofun⟩
      congr
      show world.permits = world.permits - 1 + 1
      unfold World.permits
      omega
    obtain ⟨accounts, created⟩ : Accounts gateway.config world.operations (world.permits - 1)
        ((world.view .new).createConnectionService acceptedSubprotocol) ∧ _ :=
      createConnectionService_sound accounts acceptedSubprotocol
    refine ⟨accounts.operations.trans (congrArg (Counter.mk · false) ?_),
      accounts.connections.trans (congrArg (Counter.mk · false) ?_), accounts.limited, ?_⟩
    · unfold World.operations
      rw [List.map_append, List.sum_append, List.map_singleton, List.sum_singleton]
    · unfold World.permits View.state
      simp only [List.map_append, List.sum_append, List.map_singleton, List.sum_singleton]
      omega
    · intro connection mem
      rcases List.mem_append.mp mem with earlier | last
      · exact each connection earlier
      · rw [List.mem_singleton.mp last]
        exact created
  · cases stepped

/-- What happens next to one connection does not touch the shares of the others. -/
theorem Sound.act {index : Nat} {action : Action}
    (stepped : world.step gateway (.act index action) = some after) : after.Sound gateway.config := by
  obtain ⟨held, free, limited, each⟩ := sound
  unfold World.step at stepped
  obtain ⟨connection, found, stepped⟩ := Option.bind_eq_some_iff.mp stepped
  obtain ⟨view, acted, stepped⟩ := Option.bind_eq_some_iff.mp stepped
  obtain rfl := Option.some.inj stepped
  have own := each connection (List.mem_of_getElem? found)
  obtain ⟨operations, before, later⟩ :=
    exists_rest found fun connection => connection.state.operations.card
  obtain ⟨others, before', later'⟩ :=
    exists_rest found fun connection => connection.state.permit.toNat
  have accounts : Accounts gateway.config operations (world.upgrades + others)
      (world.view connection) := by
    refine ⟨held.trans (congrArg (Counter.mk · false) before),
      free.trans (congrArg (Counter.mk · false) ?_), limited, own.bounded, own.released⟩
    unfold World.permits
    rw [before', Nat.add_assoc]
    rfl
  obtain ⟨accounts, kept⟩ := act_sound acted accounts own
  refine ⟨accounts.operations.trans (congrArg (Counter.mk · false) (later view.connection).symm),
    accounts.connections.trans (congrArg (Counter.mk · false) ?_), accounts.limited, ?_⟩
  · unfold World.permits
    rw [later', Nat.add_assoc]
  · intro other mem
    rcases List.mem_or_eq_of_mem_set mem with earlier | rfl
    · exact each other earlier
    · exact kept

theorem Sound.step (stepped : world.step gateway action = some after) :
    after.Sound gateway.config := by
  cases action with
  | reserve => exact sound.reserve stepped
  | abandon => exact sound.abandon stepped
  | create acceptedSubprotocol => exact sound.create stepped
  | act index action => exact sound.act stepped

theorem Sound.run {actions : List GatewayAction}
    (ran : world.run gateway actions = some after) : after.Sound gateway.config := by
  induction actions generalizing world with
  | nil =>
    obtain rfl := Option.some.inj ran
    exact sound
  | cons action rest ih =>
    obtain ⟨next, stepped, ran⟩ := Option.bind_eq_some_iff.mp ran
    exact ih (sound.step stepped) ran

end

/-- No connection leaves its last phase, and none disappears. -/
theorem step_closed (stepped : world.step gateway action = some after) {index : Nat}
    {connection : Connection} (found : world.connections[index]? = some connection)
    (closed : connection.state.phase = .closed) :
    ∃ later, after.connections[index]? = some later ∧ later.state.phase = .closed := by
  cases action with
  | reserve =>
    unfold World.step at stepped
    simp only at stepped
    split at stepped
    · obtain rfl := Option.some.inj stepped
      exact ⟨connection, found, closed⟩
    · obtain rfl := Option.some.inj stepped
      exact ⟨connection, found, closed⟩
  | abandon =>
    unfold World.step at stepped
    simp only at stepped
    split at stepped
    · obtain rfl := Option.some.inj stepped
      exact ⟨connection, found, closed⟩
    · cases stepped
  | create acceptedSubprotocol =>
    unfold World.step at stepped
    simp only at stepped
    split at stepped
    · obtain rfl := Option.some.inj stepped
      exact ⟨connection, List.getElem?_append_left (List.getElem?_eq_some_iff.mp found).1 ▸ found,
        closed⟩
    · cases stepped
  | act other action =>
    unfold World.step at stepped
    obtain ⟨acting, there, stepped⟩ := Option.bind_eq_some_iff.mp stepped
    obtain ⟨view, acted, stepped⟩ := Option.bind_eq_some_iff.mp stepped
    obtain rfl := Option.some.inj stepped
    by_cases same : other = index
    · subst same
      obtain rfl := Option.some.inj (found.symm.trans there)
      refine ⟨view.connection, List.getElem?_set_self ?_, act_closed acted closed⟩
      exact (List.getElem?_eq_some_iff.mp found).1
    · exact ⟨connection, (List.getElem?_set_ne same).trans found, closed⟩

end Steps

/-! ### Regular runs -/

def Regular (world : World) : GatewayAction → Prop
  | .act index action => ∀ connection ∈ world.connections[index]?, connection.Regular action
  | .reserve | .abandon | .create _ => True

/-- A run whose steps are all regular. -/
def RegularRun (gateway : SubscriptionGateway) : List GatewayAction → World → Prop
  | [], _ => True
  | action :: rest, world =>
    world.Regular action ∧ ∀ next ∈ world.step gateway action, RegularRun gateway rest next

instance (connection : Connection) (action : Action) : Decidable (connection.Regular action) :=
  decidable_of_iff ((connection.state.phase = .closed → action.connects = false) ∧
      (connection.state.phase ≠ .closed → action.severs = false))
    ⟨fun ⟨timely, attended⟩ => ⟨timely, attended⟩, fun ⟨timely, attended⟩ => ⟨timely, attended⟩⟩

instance (world : World) : (action : GatewayAction) → Decidable (world.Regular action)
  | .act index action =>
    inferInstanceAs (Decidable (∀ connection ∈ world.connections[index]?, connection.Regular action))
  | .reserve | .abandon | .create _ => .isTrue trivial

instance decidableRegularRun (gateway : SubscriptionGateway) :
    (actions : List GatewayAction) → (world : World) → Decidable (RegularRun gateway actions world)
  | [], _ => .isTrue trivial
  | action :: rest, world =>
    have : ∀ next, Decidable (RegularRun gateway rest next) := decidableRegularRun gateway rest
    inferInstanceAs (Decidable (world.Regular action ∧
      ∀ next ∈ world.step gateway action, RegularRun gateway rest next))

section Regular

variable {gateway : SubscriptionGateway} {world after : World}

def Attended (world : World) : Prop :=
  ∀ connection ∈ world.connections, Router.Attended connection

theorem createConnectionService_attended (world : World) (acceptedSubprotocol : Bool) :
    Router.Attended ((world.view .new).createConnectionService acceptedSubprotocol).connection := by
  have new : Router.Attended Connection.new := ⟨fun _ => nofun, rfl⟩
  cases acceptedSubprotocol with
  | true => exact ⟨new.timely, new.told⟩
  | false =>
    obtain ⟨timely, told⟩ := @Attended.part (world.view .new) new
      ⟨some View.clientDisconnected, none, false⟩ fun _ => rfl
    exact ⟨timely, told⟩

theorem Attended.step (attended : world.Attended) (regular : world.Regular action)
    (stepped : world.step gateway action = some after) :
    after.Attended := by
  unfold World.step at stepped
  cases action with
  | reserve =>
    simp only at stepped
    split at stepped
    · obtain rfl := Option.some.inj stepped
      exact attended
    · obtain rfl := Option.some.inj stepped
      exact attended
  | abandon =>
    simp only at stepped
    split at stepped
    · obtain rfl := Option.some.inj stepped
      exact attended
    · cases stepped
  | create acceptedSubprotocol =>
    simp only at stepped
    split at stepped
    · obtain rfl := Option.some.inj stepped
      intro connection mem
      rcases List.mem_append.mp mem with earlier | last
      · exact attended connection earlier
      · rw [List.mem_singleton.mp last]
        exact createConnectionService_attended world acceptedSubprotocol
    · cases stepped
  | act index action =>
    obtain ⟨connection, found, stepped⟩ := Option.bind_eq_some_iff.mp stepped
    obtain ⟨view, acted, stepped⟩ := Option.bind_eq_some_iff.mp stepped
    obtain rfl := Option.some.inj stepped
    intro other mem
    rcases List.mem_or_eq_of_mem_set mem with earlier | rfl
    · exact attended other earlier
    · exact act_attended acted (regular connection found)
        (attended connection (List.mem_of_getElem? found))

theorem Attended.run (attended : world.Attended) {actions : List GatewayAction}
    (regular : RegularRun gateway actions world) (ran : world.run gateway actions = some after) :
    after.Attended := by
  induction actions generalizing world with
  | nil =>
    obtain rfl := Option.some.inj ran
    exact attended
  | cons action rest ih =>
    obtain ⟨next, stepped, ran⟩ := Option.bind_eq_some_iff.mp ran
    exact ih (attended.step regular.1 stepped) (regular.2 next stepped) ran

end Regular

end World

/-! ### Accounts -/

/-- In every order of steps the counters are what is held and keep their bounds, and a closed connection
holds no permit and no operation and stays closed. If the steps are regular, it holds no sink either,
and every sink that it stored was sent a close. -/
theorem gateway_accounts {gateway : SubscriptionGateway} {actions : List GatewayAction}
    {world : World} (ran : World.start.run gateway actions = some world) :
    world.activeOperations = ⟨world.operations, false⟩ ∧
      world.activeConnections = ⟨world.permits, false⟩ ∧
      world.permits ≤ gateway.config.maxConnections ∧
      (∀ connection ∈ world.connections,
        connection.state.operations.card ≤ gateway.config.maxOperationsPerConnection ∧
        connection.closes ≤ 1 ∧
        (connection.state.phase = .closed →
          connection.state.operations = ∅ ∧ connection.state.permit = false)) ∧
      (∀ action after, world.step gateway action = some after →
        ∀ (index : Nat) (connection : Connection), world.connections[index]? = some connection →
          connection.state.phase = .closed →
          ∃ later, after.connections[index]? = some later ∧ later.state.phase = .closed) ∧
      (World.RegularRun gateway actions World.start →
        ∀ connection ∈ world.connections, connection.state.phase = .closed →
          connection.state.internalSink = none ∧
          ∀ entry ∈ connection.stored, ∃ reason, (entry.1, Message.close reason) ∈ connection.sent) := by
  obtain ⟨operations, permits, limited, each⟩ := (World.start_sound gateway.config).run ran
  refine ⟨operations, permits, by rwa [permits] at limited, fun connection mem => ?_,
    fun action after stepped index connection found closed =>
      World.step_closed stepped found closed, fun regular connection mem closed => ?_⟩
  · obtain ⟨bounded, released, _, closes⟩ := each connection mem
    exact ⟨bounded, closes.once, released⟩
  · have none : World.start.Attended := fun _ => nofun
    obtain ⟨timely, told⟩ := none.run regular ran connection mem
    obtain ⟨_, _, sinks, _⟩ := each connection mem
    constructor
    · -- A sink that is still there was stored too late.
      refine Option.eq_none_iff_forall_not_mem.mpr fun sink held => ?_
      exact timely _ (sinks.late closed sink held) rfl
    · intro entry stored
      refine (sinks.notified closed entry stored (timely entry stored)).resolve_left fun severed => ?_
      cases told.symm.trans severed

def smallGateway : SubscriptionGateway := ⟨⟨1, 1, 65536⟩, "secret"⟩

def clockAt (now : Nat) : AuthenticationProvider :=
  ⟨fun _ => some ⟨"user", [], some 10⟩, some now⟩

def textFrame (kind : String) (members : List (String × JsonValue)) : Frame :=
  .text 64 (.json (.object (("type", .text kind) :: members)))

def initFrame : Frame :=
  textFrame "connection_init" [("payload", .object [("authorization", .text "Bearer token")])]

def idFrame (kind id : String) : Frame := textFrame kind [("id", .text id)]

/-- A client subscribes to something, and then its credential expires. -/
def expiring : List GatewayAction :=
  [.reserve, .create true, .act 0 (.frame (clockAt 5) initFrame),
    .act 0 (.resume (.connecting "token") true), .act 0 (.resume (.greeting 0) true),
    .act 0 (.receive 0 (some (textFrame "connection_ack" []))),
    .act 0 (.resume (.publishing 0) true),
    .act 0 (.frame (clockAt 5) (idFrame "subscribe" "a")), .act 0 .expire]

theorem gateway_accounts_expiring :
    ∃ world connection, World.start.run smallGateway expiring = some world ∧
      world.connections = [connection] ∧ connection.state.phase = .closed ∧
      connection.stored = [(0, .connecting)] ∧
      connection.state.internalSink = none ∧
      ∃ reason, (0, Message.close reason) ∈ connection.sent := by
  have ran : ((World.start.run smallGateway expiring).map fun world =>
      world.connections.map fun connection => (connection.state.phase, connection.stored)) =
        some [(.closed, [(0, .connecting)])] := by
    decide
  obtain ⟨world, ran, shape⟩ := Option.map_eq_some_iff.mp ran
  obtain ⟨connection, alone, same⟩ := List.map_eq_singleton_iff.mp shape
  obtain ⟨closed, stored⟩ := Prod.mk.inj same
  have accounts := (gateway_accounts ran).2.2.2.2.2 (by decide) connection
    (alone ▸ List.mem_singleton_self connection) closed
  exact ⟨world, connection, ran, alone, closed, stored, accounts.1,
    accounts.2 (0, .connecting) (stored ▸ List.mem_singleton_self _)⟩

/-- The credential expires while the internal side is connected to. -/
def lateHandshake : List GatewayAction :=
  [.reserve, .create true, .act 0 (.frame (clockAt 5) initFrame), .act 0 .expire,
    .act 0 (.resume (.connecting "token") true)]

/-- The internal side ends its stream. -/
def endedStream : List GatewayAction :=
  [.reserve, .create true, .act 0 (.frame (clockAt 5) initFrame),
    .act 0 (.resume (.connecting "token") true), .act 0 (.resume (.greeting 0) true),
    .act 0 (.receive 0 none)]

/-- A closed connection has a sink, and two have stored a sink to which no close was sent. -/
theorem sinks_stay_open :
    ((World.start.run smallGateway lateHandshake).map fun world =>
      world.connections.map fun connection => (connection.state.phase,
        connection.state.internalSink, connection.stored.map (·.1),
        connection.sent.any fun sent => sent.2.isClose)) =
      some [(.closed, some 0, [0], false)] ∧
    ((World.start.run smallGateway endedStream).map fun world =>
      world.connections.map fun connection => (connection.state.phase,
        connection.state.internalSink, connection.stored.map (·.1),
        connection.sent.any fun sent => sent.2.isClose)) =
      some [(.closed, none, [0], false)] := by
  constructor
  · decide
  · decide

end GraphqlOrm.Router
