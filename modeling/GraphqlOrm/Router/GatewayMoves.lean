import GraphqlOrm.Router.Gateway
import GraphqlOrm.Router.Projection
import Mathlib.Logic.Relation

/-!
# Moves of a connection

Whatever a task does between two waits is a sequence of a few moves. The invariants are proved for
each of these once.
-/
namespace GraphqlOrm.Router

/-! ### What the internal side reads -/

/-- What a message asks of the internal side. -/
inductive Request where
  | subscribe (id : String)
  | complete (id : String)
deriving DecidableEq

def requestOf : Message → Option Request
  | .text (.json message) =>
    match memberText "type" message, memberText "id" message with
    | some kind, some id =>
      if kind = "subscribe" then some (.subscribe id)
      else if kind = "complete" then some (.complete id)
      else none
    | _, _ => none
  | .text .invalid | .text .plain | .pong _ | .close _ => none

def endingOf : Frame → Option String
  | .text _ (.json message) =>
    match memberText "type" message with
    | some kind => if kind = "error" ∨ kind = "complete" then memberText "id" message else none
    | none => none
  | _ => none

/-! ### Members of messages -/

theorem get_eq (message : JsonValue) (name : String) :
    message.get name = (asObject message).bind fun map => map.get? name := by
  cases message with
  | object members =>
    show members.reverse.lookup name = (members.foldl _ OrderedMap.empty).get? name
    rw [OrderedMap.get?_foldl_value]
    induction members.reverse with
    | nil => rfl
    | cons mem rest ih =>
      obtain ⟨own, value⟩ := mem
      by_cases same : name = own
      · subst same
        simp
      · rw [List.find?_cons_of_neg (by simpa using Ne.symm same), ← ih]
        have differs : (name == own) = false := beq_eq_false_iff_ne.mpr same
        rw [List.lookup_cons, differs]
  | null | bool value | number value | text value | array elements => rfl

theorem memberText_withExtension {members payload extensions : OrderedMap String JsonValue}
    {kept : Option (List (String × JsonValue))} {name : String} (other : name ≠ "payload") :
    memberText name (withExtension members payload extensions kept) =
      (members.get? name).bind Json.Value.asStr := by
  unfold memberText withExtension
  rw [get_eq, asObject_ofObject, Option.bind_some, OrderedMap.get?_insert, if_neg other]

/-- Only the payload of a message is changed. -/
theorem memberText_inject (message : JsonValue) (internalMaxBytes : Nat) {name : String}
    (other : name ≠ "payload") :
    memberText name (injectOperationVariables message internalMaxBytes) =
      memberText name message := by
  unfold injectOperationVariables
  cases read : asObject message with
  | none => rfl
  | some members =>
    cases inner : objectMember "payload" members with
    | none => simp only [inner]
    | some payload =>
      cases open_ : asObject ((payload.get? "extensions").getD (.object [])) with
      | none => simp only [inner, open_]
      | some extensions =>
        simp only [inner, open_]
        generalize (takeFitting 0 _).reverse = left
        have same : memberText name message = (members.get? name).bind Json.Value.asStr := by
          unfold memberText
          rw [get_eq, read, Option.bind_some]
        rw [same]
        induction left with
        | nil =>
          unfold truncate
          split <;> exact memberText_withExtension other
        | cons last earlier ih =>
          unfold truncate
          split
          · exact ih
          · exact memberText_withExtension other

/-! ### Tasks and messages -/

def Waiting.isConnecting : Waiting → Bool
  | .connecting _ => true
  | _ => false

def Waiting.isParting : Waiting → Bool
  | .parting _ => true
  | _ => false

def Message.isClose : Message → Bool
  | .close _ => true
  | _ => false

/-! ### Regular steps -/

/-- The handshake with the internal side is complete. -/
def Action.connects : Action → Bool
  | .resume (.connecting _) true => true
  | _ => false

/-- The internal side ends the connection: its frames end or are no text that can be forwarded, or a
ping of it cannot be answered. -/
def Action.severs : Action → Bool
  | .receive _ none | .receive _ (some .binary) | .receive _ (some .continuation)
  | .receive _ (some (.close _)) | .receive _ (some (.text _ .invalid)) => true
  | .resume (.answering _) succeeded => !succeeded
  | _ => false

/-- No handshake completes on a closed connection, and the internal side does not end an open one. -/
structure Connection.Regular (connection : Connection) (action : Action) : Prop where
  timely : connection.state.phase = .closed → action.connects = false
  attended : connection.state.phase ≠ .closed → action.severs = false

/-! ### Moves -/

/-- No task is added that may store a sink or close the connection. -/
structure Fewer (before after : List Waiting) : Prop where
  connecting : after.countP Waiting.isConnecting ≤ before.countP Waiting.isConnecting
  parting : after.countP Waiting.isParting ≤ before.countP Waiting.isParting

/-- A move of a step, which is regular or not. -/
inductive Move (gateway : SubscriptionGateway) (regular : Prop) : View → View → Prop where
  | tasks (view : View) (waiting : List Waiting) (initTimeout : Bool) (expiries : Nat)
      (fewer : Fewer view.connection.waiting waiting) :
      Move gateway regular view { view with connection := { view.connection with
        waiting := waiting, initTimeout := initTimeout, expiries := expiries } }
  | publish (view : View) (message : Message) (open_ : message.isClose = false) :
      Move gateway regular view (view.publish message)
  | send (view : View) (sink : Nat) (message : Message) (asks : requestOf message = none) :
      Move gateway regular view (view.send sink message)
  | authenticate (view : View) (token : String) (waits : view.phase = .waitingForInit) :
      Move gateway regular view (view.beginConnecting token)
  | acknowledge (view : View) (connecting : view.phase = .connecting) :
      Move gateway regular view (view.withState { view.state with phase := .ready })
  | connect (view : View) (token : String) (waits : .connecting token ∈ view.connection.waiting)
      (timely : regular → view.phase ≠ .closed) : Move gateway regular view (view.connected token)
  | subscribe (view : View) (id : String) (sink : Nat) (message : Message)
      (ready : view.phase = .ready) (alive : view.connection.alive = true)
      (unused : id ∉ view.state.operations)
      (room : view.state.operations.card < gateway.config.maxOperationsPerConnection)
      (asks : requestOf message = some (.subscribe id)) :
      Move gateway regular view ((view.addOperation id).send sink message)
  | complete (view : View) (id : String) (sink : Nat) (message : Message)
      (ready : view.phase = .ready) (asks : requestOf message = some (.complete id)) :
      Move gateway regular view ((view.removeOperation id).send sink message)
  | part (view : View) (farewell : View.Farewell)
      (told : regular → view.phase ≠ .closed → farewell.internalClose.isSome = true) :
      Move gateway regular view (view.part farewell)
  | abort (view : View) (id : String) (farewell : View.Farewell)
      (told : farewell.internalClose.isSome = true) :
      Move gateway regular view ((view.removeOperation id).part farewell)
  | announce (view : View) (reason : Option CloseReason)
      (waits : .parting reason ∈ view.connection.waiting) :
      Move gateway regular view ((view.take (.parting reason)).publish (.close reason))
  | drop (view : View) : Move gateway regular view view.drop

abbrev Moves (gateway : SubscriptionGateway) (regular : Prop) : View → View → Prop :=
  Relation.ReflTransGen (Move gateway regular)

/-! ### Tasks as moves -/

section Tasks

variable {gateway : SubscriptionGateway} {regular : Prop}

theorem fewer_erase (waiting : List Waiting) (task : Waiting) :
    Fewer waiting (waiting.erase task) where
  connecting := (List.erase_sublist).countP_le
  parting := (List.erase_sublist).countP_le

theorem move_take (task : Waiting) (view : View) : Move gateway regular view (view.take task) :=
  .tasks view _ _ _ (fewer_erase _ task)

theorem move_suspend {task : Waiting} (connecting : task.isConnecting = false)
    (parting : task.isParting = false) (view : View) : Move gateway regular view (view.suspend task) :=
  .tasks view _ _ _ ⟨by simp [connecting], by simp [parting]⟩

variable {view : View}

theorem Moves.take {before : View} (moves : Moves gateway regular before view) (task : Waiting) :
    Moves gateway regular before (view.take task) :=
  moves.tail (move_take task view)

theorem Moves.part {before : View} (moves : Moves gateway regular before view)
    (farewell : View.Farewell) (told : farewell.internalClose.isSome = true) :
    Moves gateway regular before (view.part farewell) :=
  moves.tail (.part view farewell fun _ _ => told)

theorem removeOperation_addOperation {id : String} (unused : id ∉ view.state.operations) :
    (view.addOperation id).removeOperation id = view := by
  unfold View.removeOperation View.addOperation View.removeOperations View.withState
  obtain ⟨connections, ⟨value, underflowed⟩, connection⟩ := view
  simp only [Finset.mem_insert, true_or, if_true, ne_eq, one_ne_zero, not_false_eq_true,
    Finset.erase_insert unused, Counter.fetchAdd, Counter.fetchSub]
  congr
  simp

theorem initializeConnection_moves (provider : AuthenticationProvider) (message : JsonValue)
    (view : View) : Moves gateway regular view (view.initializeConnection provider message) := by
  unfold View.initializeConnection
  split
  · exact Moves.part .refl _ rfl
  next waits =>
    split
    · exact Moves.part .refl _ rfl
    next token _ => exact .single (.authenticate view token (not_not.mp waits))

variable {message : JsonValue}

theorem requestOf_json {kind id : String} (type : memberText "type" message = some kind)
    (own : memberText "id" message = some id) :
    requestOf (.text (.json message)) =
      if kind = "subscribe" then some (.subscribe id)
      else if kind = "complete" then some (.complete id)
      else none := by
  simp only [requestOf, type, own]

theorem forwardSubscribe_moves (kind : memberText "type" message = some "subscribe")
    (alive : view.connection.alive = true) :
    Moves gateway regular view (view.forwardSubscribe gateway message) := by
  unfold View.forwardSubscribe
  split
  · exact Moves.part .refl _ rfl
  next ready =>
    split
    · exact Moves.part .refl _ rfl
    next id found =>
      split
      · exact Moves.part .refl _ rfl
      split
      · exact Moves.part .refl _ rfl
      next unused =>
        split
        · exact .single (.publish view _ rfl)
        next room =>
          simp only
          split
          next sink stored =>
            have asks : requestOf (.text (.json (injectOperationVariables message
                gateway.config.maxClientMessageBytes))) = some (.subscribe id) := by
              rw [requestOf_json ((memberText_inject _ _ (by decide)).trans kind)
                ((memberText_inject _ _ (by decide)).trans found), if_pos rfl]
            refine Relation.ReflTransGen.tail (.single ?_) (move_suspend rfl rfl _)
            exact .subscribe view id sink _ (not_not.mp ready) alive unused (not_le.mp room) asks
          · rw [removeOperation_addOperation unused]
            exact Moves.part .refl _ rfl

theorem forwardComplete_moves (kind : memberText "type" message = some "complete") (view : View) :
    Moves gateway regular view (view.forwardComplete message) := by
  unfold View.forwardComplete
  split
  · exact Moves.part .refl _ rfl
  next ready =>
    split
    · exact Moves.part .refl _ rfl
    next id found =>
      simp only
      split
      next sink stored =>
        have asks : requestOf (.text (.json message)) = some (.complete id) := by
          rw [requestOf_json kind found, if_neg (by decide), if_pos rfl]
        refine Relation.ReflTransGen.tail (.single ?_) (move_suspend rfl rfl _)
        exact .complete view id sink _ (not_not.mp ready) asks
      · exact .single (.abort view id _ rfl)

theorem handleText_moves (provider : AuthenticationProvider) (message : JsonValue)
    (alive : view.connection.alive = true) :
    Moves gateway regular view (view.handleText gateway provider message) := by
  unfold View.handleText
  split
  · exact Moves.part .refl _ rfl
  next kind found =>
    split
    · exact initializeConnection_moves provider message view
    split
    · exact .single (.publish view _ rfl)
    split
    · exact .refl
    split
    next same => exact forwardSubscribe_moves (same ▸ found) alive
    split
    next same => exact forwardComplete_moves (same ▸ found) view
    · exact Moves.part .refl _ rfl

theorem handleFrame_moves (provider : AuthenticationProvider) (frame : Frame)
    (alive : view.connection.alive = true) :
    Moves gateway regular view (view.handleFrame gateway provider frame) := by
  cases frame with
  | text length content =>
    unfold View.handleFrame
    simp only
    split
    · exact Moves.part .refl _ rfl
    · cases content with
      | invalid => exact Moves.part .refl _ rfl
      | plain => exact Moves.part .refl _ rfl
      | json message => exact handleText_moves provider message alive
  | ping payload => exact .single (.publish view _ rfl)
  | pong => exact .refl
  | close reason | binary | continuation => exact Moves.part .refl _ rfl

/-- The end of a connection that the internal side may not end while it is open. -/
theorem endForwarding_moves (ending : View.ForwardEnd) (done : regular → view.phase = .closed) :
    Moves gateway regular view (view.endForwarding ending) := by
  cases ending <;> exact .single (.part view _ fun holds open_ => absurd (done holds) open_)

/-- A frame of the internal side that ends an operation removes it, and does nothing else to them. -/
theorem observeServerMessage_moves (length : Nat) (content : Content) (view : View) :
    Moves gateway regular view (view.observeServerMessage content) ∨
      ∃ id, endingOf (.text length content) = some id ∧
        view.observeServerMessage content = view.removeOperation id := by
  cases content with
  | invalid | plain => exact .inl .refl
  | json message =>
    unfold View.observeServerMessage endingOf
    simp only
    cases memberText "type" message with
    | none => exact .inl .refl
    | some kind =>
      simp only
      split
      next acknowledged =>
        left
        split
        next connecting => exact .single (.acknowledge view connecting)
        · exact .refl
      split
      · cases memberText "id" message with
        | none => exact .inl .refl
        | some id => exact .inr ⟨id, rfl, rfl⟩
      · exact .inl .refl

theorem forwardInternalMessage_moves (sink : Nat) (frame : Option Frame) (view : View)
    (attended : regular → view.phase ≠ .closed → (Action.receive sink frame).severs = false) :
    Moves gateway regular view (view.forwardInternalMessage sink frame) ∨
      ∃ id, frame.bind endingOf = some id ∧
        Moves gateway regular (view.removeOperation id) (view.forwardInternalMessage sink frame) := by
  -- A frame that ends the connection meets a closed one, if the step is regular.
  have failed (severs : (Action.receive sink frame).severs = true) (ending : View.ForwardEnd) :
      Moves gateway regular view (view.endForwarding ending) := by
    refine endForwarding_moves ending fun holds => by_contra fun open_ => ?_
    cases severs.symm.trans (attended holds open_)
  cases frame with
  | none => exact .inl (failed rfl .internalFailure)
  | some frame =>
    cases frame with
    | text length content =>
      have published (before : View) (content : Content) : Moves gateway regular before
          ((before.publish (.text content)).suspend (.publishing sink)) :=
        .tail (.single (.publish _ _ rfl)) (move_suspend rfl rfl _)
      rcases observeServerMessage_moves length content view with
        moves | ⟨id, ends, same⟩
      · refine .inl ?_
        cases content with
        | invalid => exact failed rfl .internalFailure
        | plain => exact moves.trans (published _ _)
        | json message => exact moves.trans (published _ _)
      · refine .inr ⟨id, ends, ?_⟩
        cases content with
        | invalid => cases ends
        | plain => cases ends
        | json message =>
          -- What the message leaves is what ending the operation leaves.
          rw [← same]
          exact published _ _
    | ping payload =>
      exact .inl (.tail (.single (.send _ _ _ rfl)) (move_suspend rfl rfl _))
    | pong => exact .inl (.single (move_suspend rfl rfl _))
    | close reason => exact .inl (failed rfl (.internalClose reason))
    | binary | continuation => exact .inl (failed rfl .internalFailure)

theorem requestOf_initMessage (gateway : SubscriptionGateway) (token : String) :
    requestOf (View.initMessage gateway token) = none := by
  rfl

theorem resume_moves {task : Waiting} (waits : task ∈ view.connection.waiting) {succeeded : Bool}
    (holds : regular → view.connection.Regular (.resume task succeeded)) :
    Moves gateway regular view (view.resume gateway succeeded task) := by
  have taken : Moves gateway regular view (view.take task) := Moves.take .refl task
  cases task with
  | connecting token =>
    cases succeeded with
    | true =>
      have timely : regular → view.phase ≠ .closed := fun given closed => by
        cases (holds given).timely closed
      refine .tail (.tail (.single (.connect view token waits timely)) ?_) (move_suspend rfl rfl _)
      exact .send _ _ _ (requestOf_initMessage gateway token)
    | false => exact taken.part _ rfl
  | greeting sink | publishing sink =>
    cases succeeded with
    | true => exact taken.tail (move_suspend rfl rfl _)
    | false => exact taken.part _ rfl
  | receiving sink => cases succeeded <;> exact .refl
  | answering sink =>
    cases succeeded with
    | true => exact taken.tail (move_suspend rfl rfl _)
    | false =>
      refine taken.trans (endForwarding_moves .internalFailure fun given => by_contra fun open_ => ?_)
      cases (holds given).attended open_
  | subscribing id =>
    cases succeeded with
    | true => exact taken
    | false => exact taken.tail (.abort _ id _ rfl)
  | completing =>
    cases succeeded with
    | true => exact taken
    | false => exact taken.part _ rfl
  | parting reason => cases succeeded <;> exact .single (.announce view reason waits)

/-- What happens next to a connection is a sequence of moves, except that a frame may also end an
operation. -/
theorem act_moves {action : Action} {after : View} (acted : view.act gateway action = some after) :
    Moves gateway (view.connection.Regular action) view after ∨
      ∃ sink frame id, action = .receive sink (some frame) ∧ endingOf frame = some id ∧
        Moves gateway (view.connection.Regular action)
          ((view.take (.receiving sink)).removeOperation id) after := by
  unfold View.act at acted
  split at acted
  next alive =>
    cases action with
    | frame provider frame =>
      obtain rfl := Option.some.inj acted
      exact .inl (handleFrame_moves provider frame alive)
    | receive sink frame =>
      simp only at acted
      split at acted
      · obtain rfl := Option.some.inj acted
        -- Taking the frame changes neither the phase nor what a regular step is.
        have attended (holds : view.connection.Regular (.receive sink frame)) :=
          holds.attended
        rcases forwardInternalMessage_moves sink frame (view.take (.receiving sink)) attended with
          moves | ⟨id, ends, moves⟩
        · exact .inl (.head (move_take _ view) moves)
        · obtain ⟨received, rfl, ends⟩ := Option.bind_eq_some_iff.mp ends
          exact .inr ⟨sink, received, id, rfl, ends, moves⟩
      · cases acted
    | resume task succeeded =>
      simp only at acted
      split at acted
      next waits =>
        obtain rfl := Option.some.inj acted
        exact .inl (resume_moves waits id)
      · cases acted
    | cancel task =>
      simp only at acted
      split at acted
      · obtain rfl := Option.some.inj acted
        exact .inl (.single (move_take task view))
      · cases acted
    | initTimeout =>
      simp only at acted
      split at acted
      · obtain rfl := Option.some.inj acted
        have timed : Moves gateway (view.connection.Regular .initTimeout) view _ :=
          .single (.tasks view view.connection.waiting false view.connection.expiries ⟨le_rfl, le_rfl⟩)
        left
        unfold View.initTimedOut
        split
        · exact timed
        · exact timed.part _ rfl
      · cases acted
    | expire =>
      simp only at acted
      split at acted
      · obtain rfl := Option.some.inj acted
        have elapsed : Moves gateway (view.connection.Regular .expire) view _ :=
          .single (.tasks view view.connection.waiting view.connection.initTimeout
            (view.connection.expiries - 1) ⟨le_rfl, le_rfl⟩)
        exact .inl (elapsed.part _ rfl)
      · cases acted
    | shutdown =>
      obtain rfl := Option.some.inj acted
      exact .inl (Moves.part .refl _ rfl)
    | drop =>
      simp only at acted
      split at acted
      · obtain rfl := Option.some.inj acted
        exact .inl (.single (.drop view))
      · cases acted
  · cases acted

end Tasks

end GraphqlOrm.Router
