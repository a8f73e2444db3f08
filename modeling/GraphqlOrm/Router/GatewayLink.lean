import GraphqlOrm.Router.GatewayRuns

/-!
# Operations that are open upstream

The internal endpoint receives what a connection sends, in order, and its frames reach the gateway in
order. As long as no late ending of an operation meets a new use of its id, the gateway knows all
operations that stay open, so that its limit bounds them.
-/
namespace GraphqlOrm.Router

/-! ### The internal endpoint -/

def Request.apply (opened : Finset String) : Request → Finset String
  | .subscribe id => insert id opened
  | .complete id => opened.erase id

/-- A connection and its endpoint, with how many messages this has taken, the operations that are open
there, and the frames on the way back. An endpoint may hang up at any time, in particular when it takes
a close. -/
structure Link where
  view : View
  received : Nat
  opened : Finset String
  inbound : List Frame
  serving : Bool

inductive LinkAction where
  /-- a step of the gateway that takes no frame of the endpoint -/
  | gateway (action : Action)
  | deliver (sink : Nat)
  | serve
  /-- the endpoint ends an operation, which it says once -/
  | finish (id : String) (frame : Frame)
  | emit (frame : Frame)
  | hangUp (reason : Option CloseReason)

def Action.takesFrame : Action → Bool
  | .receive _ (some _) => true
  | _ => false

namespace Link

def start (activeConnections activeOperations : Counter) : Link :=
  ⟨⟨activeConnections, activeOperations, { Connection.new with initTimeout := true }⟩, 0, ∅, [], true⟩

def pending (link : Link) : List Request :=
  (link.view.connection.sent.drop link.received).filterMap fun sent => requestOf sent.2

def close (reason : Option CloseReason) (link : Link) : Link :=
  { link with opened := ∅, serving := false, inbound := link.inbound ++ [.close reason] }

/-- The endpoint takes the next message. It does not accept an id that is in use. -/
def serve (link : Link) : Option Link := do
  let (_, message) ← link.view.connection.sent[link.received]?
  let link := { link with received := link.received + 1 }
  match requestOf message with
  | none => some link
  | some (.subscribe id) =>
    if id ∈ link.opened then some (link.close (some (closeReason 4409 "Subscriber already exists")))
    else some { link with opened := insert id link.opened }
  | some request => some { link with opened := request.apply link.opened }

def step (gateway : SubscriptionGateway) (action : LinkAction) (link : Link) : Option Link :=
  match action with
  | .gateway action =>
    if action.takesFrame then none
    else (link.view.act gateway action).map fun view => { link with view := view }
  | .deliver sink =>
    match link.inbound with
    | [] => none
    | frame :: rest =>
      (link.view.act gateway (.receive sink (some frame))).map fun view =>
        { link with view := view, inbound := rest }
  | .serve => if link.serving then link.serve else none
  | .finish id frame =>
    if link.serving ∧ id ∈ link.opened ∧ endingOf frame = some id then
      some { link with opened := link.opened.erase id, inbound := link.inbound ++ [frame] }
    else none
  | .emit frame =>
    if link.serving ∧ endingOf frame = none then
      some { link with inbound := link.inbound ++ [frame] }
    else none
  | .hangUp reason => if link.serving then some (link.close reason) else none

def run (gateway : SubscriptionGateway) (actions : List LinkAction) (link : Link) : Option Link :=
  actions.foldlM (fun link action => link.step gateway action) link

/-! ### Operations that stay open -/

def staying (link : Link) : Finset String :=
  link.opened.filter fun id => Request.complete id ∉ link.pending

def upcoming (link : Link) : Finset String := link.pending.foldl Request.apply link.opened

/-- The connection is neither closed nor dropped. -/
def Open (link : Link) : Prop :=
  link.view.phase ≠ .closed ∧ link.view.connection.alive = true

/-- The gateway is not about to take an ending for an id that is in use again. -/
def Uncrossed (link : Link) : LinkAction → Prop
  | .deliver _ => ∀ id ∈ link.inbound.head?.bind endingOf, id ∉ link.upcoming
  | .gateway _ | .serve | .finish _ _ | .emit _ | .hangUp _ => True

def UncrossedRun (gateway : SubscriptionGateway) : List LinkAction → Link → Prop
  | [], _ => True
  | action :: rest, link =>
    link.Uncrossed action ∧ ∀ next ∈ link.step gateway action, UncrossedRun gateway rest next

instance (link : Link) : Decidable link.Open :=
  inferInstanceAs (Decidable (link.view.phase ≠ .closed ∧ link.view.connection.alive = true))

instance (link : Link) : (action : LinkAction) → Decidable (link.Uncrossed action)
  | .deliver _ =>
    inferInstanceAs (Decidable (∀ id ∈ link.inbound.head?.bind endingOf, id ∉ link.upcoming))
  | .gateway _ | .serve | .finish _ _ | .emit _ | .hangUp _ => .isTrue trivial

instance decidableUncrossedRun (gateway : SubscriptionGateway) :
    (actions : List LinkAction) → (link : Link) → Decidable (UncrossedRun gateway actions link)
  | [], _ => .isTrue trivial
  | action :: rest, link =>
    have : ∀ next, Decidable (UncrossedRun gateway rest next) := decidableUncrossedRun gateway rest
    inferInstanceAs (Decidable (link.Uncrossed action ∧
      ∀ next ∈ link.step gateway action, UncrossedRun gateway rest next))

end Link

section Requests

variable {opened more : Finset String} {requests : List Request} {id : String}

theorem Request.apply_mono (sub : opened ⊆ more) (request : Request) :
    request.apply opened ⊆ request.apply more := by
  cases request with
  | subscribe id => exact Finset.insert_subset_insert id sub
  | complete id => exact Finset.erase_subset_erase id sub

theorem foldl_apply_mono (sub : opened ⊆ more) :
    requests.foldl Request.apply opened ⊆ requests.foldl Request.apply more := by
  induction requests generalizing opened more with
  | nil => exact sub
  | cons request rest ih => exact ih (Request.apply_mono sub request)

/-- An operation stays open as long as no request to end it is on its way. -/
theorem mem_foldl_apply (mem : id ∈ opened) (kept : Request.complete id ∉ requests) :
    id ∈ requests.foldl Request.apply opened := by
  induction requests generalizing opened with
  | nil => exact mem
  | cons request rest ih =>
    refine ih ?_ fun later => kept (.tail _ later)
    cases request with
    | subscribe other => exact Finset.mem_insert_of_mem mem
    | complete other =>
      refine Finset.mem_erase.mpr ⟨?_, mem⟩
      rintro rfl
      exact kept (.head _)

end Requests

/-! ### What the gateway knows -/

def upcomingOf (opened : Finset String) (received : Nat) (view : View) : Finset String :=
  ((view.connection.sent.drop received).filterMap fun sent => requestOf sent.2).foldl Request.apply
    opened

/-- An open connection tracks all operations that stay open, and there are never more than it may
have. -/
structure Tracks (limits : SubscriptionConfig) (opened : Finset String) (received : Nat)
    (view : View) : Prop where
  taken : received ≤ view.connection.sent.length
  tracked : view.phase ≠ .closed → view.connection.alive = true →
    upcomingOf opened received view ⊆ view.state.operations
  limited : (upcomingOf opened received view).card ≤ limits.maxOperationsPerConnection

variable {limits : SubscriptionConfig}

section Tracks

variable {gateway : SubscriptionGateway} {regular : Prop} {opened more : Finset String}
  {received : Nat} {view after : View}

/-- Messages that were added are the last ones to arrive. -/
theorem upcomingOf_append (opened : Finset String) {added : List (Nat × Message)}
    (taken : received ≤ view.connection.sent.length)
    (sent : after.connection.sent = view.connection.sent ++ added) :
    upcomingOf opened received after =
      (added.filterMap fun sent => requestOf sent.2).foldl Request.apply
        (upcomingOf opened received view) := by
  unfold upcomingOf
  rw [sent, List.drop_append_of_le_length taken, List.filterMap_append, List.foldl_append]

theorem upcomingOf_send (opened : Finset String) {sink : Nat} {message : Message} {request : Request}
    (taken : received ≤ view.connection.sent.length)
    (sent : after.connection.sent = view.connection.sent ++ [(sink, message)])
    (asks : requestOf message = some request) :
    upcomingOf opened received after = request.apply (upcomingOf opened received view) := by
  rw [upcomingOf_append opened taken sent]
  simp only [List.filterMap_cons, asks, List.filterMap_nil, List.foldl_cons, List.foldl_nil]

theorem removeOperation_sent (view : View) (id : String) :
    (view.removeOperation id).connection.sent = view.connection.sent := by
  rw [View.removeOperation_eq]
  rfl

/-- A step that asks for nothing and forgets no operation. -/
theorem Tracks.quiet (tracks : Tracks limits opened received view) {added : List (Nat × Message)}
    (sent : after.connection.sent = view.connection.sent ++ added)
    (silent : ∀ entry ∈ added, requestOf entry.2 = none)
    (known : after.phase ≠ .closed → after.connection.alive = true →
      view.phase ≠ .closed ∧ view.connection.alive = true ∧
        view.state.operations ⊆ after.state.operations) :
    Tracks limits opened received after := by
  have none : (added.filterMap fun sent => requestOf sent.2) = [] :=
    List.filterMap_eq_nil_iff.mpr silent
  have same := upcomingOf_append opened tracks.taken sent
  rw [none, List.foldl_nil] at same
  refine ⟨?_, fun open_ alive => ?_, same ▸ tracks.limited⟩
  · rw [sent, List.length_append]
    exact tracks.taken.trans (Nat.le_add_right _ _)
  · obtain ⟨open', alive', sub⟩ := known open_ alive
    exact same ▸ (tracks.tracked open' alive').trans sub

theorem internalCloses_silent (farewell : View.Farewell) (sink : Option Nat) :
    ∀ entry ∈ View.internalCloses farewell sink, requestOf entry.2 = none := by
  intro entry mem
  obtain ⟨own, _, mem⟩ := List.mem_flatMap.mp mem
  obtain ⟨reason, _, rfl⟩ := List.mem_map.mp mem
  rfl

/-- The end of a connection asks for nothing more. -/
theorem part_sent (view : View) (farewell : View.Farewell) :
    ∃ added, (view.part farewell).connection.sent = view.connection.sent ++ added ∧
      ∀ entry ∈ added, requestOf entry.2 = none := by
  by_cases closed : view.phase = .closed
  · rw [View.part_of_closed closed]
    exact ⟨[], (List.append_nil _).symm, fun _ => nofun⟩
  · rw [View.part_of_open closed]
    exact ⟨_, rfl, internalCloses_silent _ _⟩

theorem Tracks.move (tracks : Tracks gateway.config opened received view)
    (move : Move gateway regular view after) : Tracks gateway.config opened received after := by
  have nothing {kept : View} (sent : kept.connection.sent = view.connection.sent)
      (known : kept.phase ≠ .closed → kept.connection.alive = true →
        view.phase ≠ .closed ∧ view.connection.alive = true ∧
          view.state.operations ⊆ kept.state.operations) :
      Tracks gateway.config opened received kept :=
    tracks.quiet (sent.trans (List.append_nil _).symm) (fun _ => nofun) known
  cases move with
  | tasks | publish | connect | announce =>
    exact nothing rfl fun open_ alive => ⟨open_, alive, Finset.Subset.refl _⟩
  | send sink message silent =>
    refine tracks.quiet rfl (fun entry mem => ?_) fun open_ alive =>
      ⟨open_, alive, Finset.Subset.refl _⟩
    rw [List.mem_singleton.mp mem]
    exact silent
  | authenticate token waits =>
    exact nothing rfl fun _ alive => ⟨by rw [waits]; nofun, alive, Finset.Subset.refl _⟩
  | acknowledge connecting =>
    exact nothing rfl fun _ alive => ⟨by rw [connecting]; nofun, alive, Finset.Subset.refl _⟩
  | subscribe id sink message ready alive unused room asks =>
    have sent : ((view.addOperation id).send sink message).connection.sent =
        view.connection.sent ++ [(sink, message)] := rfl
    have same := upcomingOf_send opened tracks.taken sent asks
    have sub := tracks.tracked (by rw [ready]; nofun) alive
    refine ⟨?_, fun _ _ => ?_, ?_⟩
    · exact tracks.taken.trans (List.length_append ▸ Nat.le_add_right _ _)
    · rw [same]
      exact Finset.insert_subset_insert id sub
    · rw [same]
      have few := Finset.card_le_card sub
      have more : (Request.apply (upcomingOf opened received view) (.subscribe id)).card ≤ _ :=
        Finset.card_insert_le id _
      omega
  | complete id sink message ready asks =>
    have sent : ((view.removeOperation id).send sink message).connection.sent =
        view.connection.sent ++ [(sink, message)] :=
      congrArg (· ++ [(sink, message)]) (removeOperation_sent view id)
    have same := upcomingOf_send opened tracks.taken sent asks
    refine ⟨?_, fun open_ alive => ?_, ?_⟩
    · rw [sent]
      exact tracks.taken.trans (List.length_append ▸ Nat.le_add_right _ _)
    · rw [same]
      rw [View.removeOperation_eq] at alive ⊢
      exact Finset.erase_subset_erase id (tracks.tracked (by rw [ready]; nofun) alive)
    · rw [same]
      exact (Finset.card_erase_le).trans tracks.limited
  | part farewell =>
    obtain ⟨added, sent, silent⟩ := part_sent view farewell
    exact tracks.quiet sent silent fun open_ => absurd (part_closed view farewell) open_
  | abort id farewell =>
    obtain ⟨added, sent, silent⟩ := part_sent (view.removeOperation id) farewell
    rw [removeOperation_sent] at sent
    exact tracks.quiet sent silent fun open_ => absurd (part_closed _ farewell) open_
  | drop =>
    rw [View.drop_eq]
    exact nothing rfl fun _ => nofun

theorem Tracks.moves (tracks : Tracks gateway.config opened received view)
    (moves : Moves gateway regular view after) : Tracks gateway.config opened received after := by
  induction moves with
  | refl => exact tracks
  | tail _ move ih => exact ih.move move

end Tracks

/-! ### Steps of a connection and its endpoint -/

namespace Link

abbrev Tracked (limits : SubscriptionConfig) (link : Link) : Prop :=
  Tracks limits link.opened link.received link.view

section Steps

variable {gateway : SubscriptionGateway} {link next : Link}

theorem start_tracked (limits : SubscriptionConfig) (activeConnections activeOperations : Counter) :
    (start activeConnections activeOperations).Tracked limits where
  taken := Nat.zero_le _
  tracked _ _ := Finset.Subset.refl _
  limited := Nat.zero_le _

/-- Fewer open operations are still tracked. -/
theorem Tracked.fewer {opened more : Finset String} {received : Nat} {view : View}
    (tracks : Tracks limits more received view) (sub : opened ⊆ more) :
    Tracks limits opened received view where
  taken := tracks.taken
  tracked open_ alive := (foldl_apply_mono sub).trans (tracks.tracked open_ alive)
  limited := (Finset.card_le_card (foldl_apply_mono sub)).trans tracks.limited

/-- A message that is taken changes what is open as it was going to. -/
theorem Tracked.take (tracks : link.Tracked limits) {entry : Nat × Message}
    (found : link.view.connection.sent[link.received]? = some entry) {opened : Finset String}
    (sub : opened ⊆ (requestOf entry.2).elim link.opened (Request.apply link.opened)) :
    Tracks limits opened (link.received + 1) link.view := by
  obtain ⟨below, same⟩ := List.getElem?_eq_some_iff.mp found
  have split : upcomingOf link.opened link.received link.view =
      upcomingOf ((requestOf entry.2).elim link.opened (Request.apply link.opened))
        (link.received + 1) link.view := by
    unfold upcomingOf
    rw [List.drop_eq_getElem_cons below, same, List.filterMap_cons]
    cases requestOf entry.2 <;> rfl
  refine Tracked.fewer ⟨below, fun open_ alive => ?_, ?_⟩ sub
  · rw [← split]
    exact tracks.tracked open_ alive
  · rw [← split]
    exact tracks.limited

theorem Tracked.serve (tracks : link.Tracked limits) (served : link.serve = some next) :
    next.Tracked limits := by
  unfold Link.serve at served
  obtain ⟨⟨sink, message⟩, found, served⟩ := Option.bind_eq_some_iff.mp served
  simp only at served
  split at served
  next none =>
    obtain rfl := Option.some.inj served
    exact tracks.take found (by rw [none]; exact Finset.Subset.refl _)
  next id asks =>
    split at served
    · obtain rfl := Option.some.inj served
      exact tracks.take found (Finset.empty_subset _)
    · obtain rfl := Option.some.inj served
      exact tracks.take found (by rw [asks]; exact Finset.Subset.refl _)
  next request _ asks =>
    obtain rfl := Option.some.inj served
    exact tracks.take found (by rw [asks]; exact Finset.Subset.refl _)

/-- An ending of an id that is not in use again is no loss. -/
theorem Tracked.removeOperation {opened : Finset String} {received : Nat} {view : View}
    (tracks : Tracks limits opened received view) {id : String}
    (unused : id ∉ upcomingOf opened received view) :
    Tracks limits opened received (view.removeOperation id) := by
  have same : upcomingOf opened received (view.removeOperation id) =
      upcomingOf opened received view := by
    unfold upcomingOf
    rw [removeOperation_sent]
  refine ⟨?_, fun open_ alive => ?_, same ▸ tracks.limited⟩
  · rw [removeOperation_sent]
    exact tracks.taken
  · rw [same]
    rw [removeOperation_phase] at open_
    rw [View.removeOperation_eq] at alive ⊢
    intro other mem
    refine Finset.mem_erase.mpr ⟨?_, tracks.tracked open_ alive mem⟩
    rintro rfl
    exact unused mem

theorem Tracked.step (tracks : link.Tracked gateway.config) {action : LinkAction}
    (uncrossed : link.Uncrossed action) (stepped : link.step gateway action = some next) :
    next.Tracked gateway.config := by
  unfold Link.step at stepped
  cases action with
  | gateway action =>
    simp only at stepped
    split at stepped
    · cases stepped
    next free =>
      obtain ⟨view, acted, rfl⟩ := Option.map_eq_some_iff.mp stepped
      rcases act_moves acted with moves | ⟨sink, frame, id, rfl, _, _⟩
      · exact tracks.moves moves
      · exact absurd rfl free
  | deliver sink =>
    simp only at stepped
    split at stepped
    · cases stepped
    next frame rest inbound =>
      obtain ⟨view, acted, rfl⟩ := Option.map_eq_some_iff.mp stepped
      rcases act_moves acted with moves | ⟨_, _, id, same, ends, moves⟩
      · exact tracks.moves moves
      · obtain ⟨rfl, sameFrame⟩ := Action.receive.inj same
        obtain rfl := Option.some.inj sameFrame
        -- The ending meets an id that nothing uses any more.
        have unused := uncrossed id (by rw [inbound]; exact ends)
        have taken : Move gateway (link.view.connection.Regular (.receive sink (some frame))) link.view
            (link.view.take (.receiving sink)) := move_take _ _
        exact (Tracked.removeOperation (tracks.move taken) unused).moves moves
  | serve =>
    simp only at stepped
    split at stepped
    · exact tracks.serve stepped
    · cases stepped
  | finish id frame =>
    simp only at stepped
    split at stepped
    · obtain rfl := Option.some.inj stepped
      exact Tracked.fewer tracks (Finset.erase_subset _ _)
    · cases stepped
  | emit frame =>
    simp only at stepped
    split at stepped
    · obtain rfl := Option.some.inj stepped
      exact Tracked.fewer tracks (Finset.Subset.refl _)
    · cases stepped
  | hangUp reason =>
    simp only at stepped
    split at stepped
    · obtain rfl := Option.some.inj stepped
      exact Tracked.fewer tracks (Finset.empty_subset _)
    · cases stepped

theorem Tracked.run (tracks : link.Tracked gateway.config) {actions : List LinkAction}
    (uncrossed : UncrossedRun gateway actions link) (ran : link.run gateway actions = some next) :
    next.Tracked gateway.config := by
  induction actions generalizing link with
  | nil =>
    obtain rfl := Option.some.inj ran
    exact tracks
  | cons action rest ih =>
    obtain ⟨between, stepped, ran⟩ := Option.bind_eq_some_iff.mp ran
    exact ih (tracks.step uncrossed.1 stepped) (uncrossed.2 between stepped) ran

theorem staying_subset (link : Link) : link.staying ⊆ link.upcoming := by
  intro id mem
  obtain ⟨opened, kept⟩ := Finset.mem_filter.mp mem
  exact mem_foldl_apply opened kept

end Steps

end Link

/-- In every run without a crossed ending, the gateway knows all operations that stay open on a
connection while this is open itself, and there are never more than its limit. -/
theorem staying_operations {gateway : SubscriptionGateway}
    {activeConnections activeOperations : Counter} {actions : List LinkAction} {link : Link}
    (uncrossed : Link.UncrossedRun gateway actions (Link.start activeConnections activeOperations))
    (ran : (Link.start activeConnections activeOperations).run gateway actions = some link) :
    (link.Open → link.staying ⊆ link.view.state.operations) ∧
      link.staying.card ≤ gateway.config.maxOperationsPerConnection := by
  have tracks := (Link.start_tracked gateway.config activeConnections activeOperations).run
    uncrossed ran
  have sub := link.staying_subset
  exact ⟨fun ⟨open_, alive⟩ => sub.trans (tracks.tracked open_ alive),
    (Finset.card_le_card sub).trans tracks.limited⟩

def subscribed : List LinkAction :=
  [.gateway (.frame (clockAt 5) initFrame), .gateway (.resume (.connecting "token") true), .serve,
    .gateway (.resume (.greeting 0) true), .emit (textFrame "connection_ack" []), .deliver 0,
    .gateway (.resume (.publishing 0) true),
    .gateway (.frame (clockAt 5) (idFrame "subscribe" "a")), .serve]

/-- The endpoint ends the operation, and after the gateway took the ending the client uses its id
again. -/
def resubscribed : List LinkAction :=
  subscribed ++ [.finish "a" (idFrame "complete" "a"), .deliver 0,
    .gateway (.resume (.publishing 0) true),
    .gateway (.frame (clockAt 5) (idFrame "subscribe" "a")), .serve]

theorem staying_operations_resubscribed :
    ∃ link, (Link.start ⟨1, false⟩ ⟨0, false⟩).run smallGateway resubscribed = some link ∧
      link.staying = {"a"} ∧ {"a"} ⊆ link.view.state.operations ∧ link.staying.card ≤ 1 := by
  have ran : (((Link.start ⟨1, false⟩ ⟨0, false⟩).run smallGateway resubscribed).map fun link =>
      (decide link.Open, link.staying)) = some (true, {"a"}) := by
    decide
  obtain ⟨link, ran, same⟩ := Option.map_eq_some_iff.mp ran
  obtain ⟨open_, stays⟩ := Prod.mk.inj same
  obtain ⟨known, few⟩ := staying_operations (by decide) ran
  exact ⟨link, ran, stays, stays ▸ known (of_decide_eq_true open_), few⟩

/-- The endpoint ends the operation while the client completes it and uses its id again, and then a
second operation is let through. -/
def crossedEnding : List LinkAction :=
  subscribed ++ [.finish "a" (idFrame "complete" "a"),
    .gateway (.frame (clockAt 5) (idFrame "complete" "a")),
    .gateway (.frame (clockAt 5) (idFrame "subscribe" "a")), .deliver 0, .serve, .serve,
    .gateway (.frame (clockAt 5) (idFrame "subscribe" "b")), .serve]

/-- The endpoint sends a frame for which the gateway closes the connection. -/
def closedByFrame : List LinkAction := subscribed ++ [.emit .binary, .deliver 0]

/-- With a limit of one operation, two stay open, of which the gateway knows one; and a closed
connection knows none. -/
theorem staying_operations_forgotten :
    (((Link.start ⟨1, false⟩ ⟨0, false⟩).run smallGateway crossedEnding).map fun link =>
      (link.view.phase, link.staying, link.view.state.operations)) =
      some (.ready, {"a", "b"}, {"b"}) ∧
    (((Link.start ⟨1, false⟩ ⟨0, false⟩).run smallGateway closedByFrame).map fun link =>
      (link.view.phase, link.staying, link.view.state.operations)) =
      some (.closed, {"a"}, ∅) := by
  constructor
  · decide
  · decide

end GraphqlOrm.Router
