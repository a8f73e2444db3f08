import GraphqlOrm.Router.OperationVariables
import Mathlib.Data.Finset.Card

/-!
# The subscription gateway

Every public connection has an internal one behind it. The tasks of a connection share its state and
suspend where they wait for a send, a handshake or the next frame, so that any of them may go on
while others wait. What a task does between two waits is one function on the state.
-/
namespace GraphqlOrm.Router

/-! ### Messages -/

structure CloseReason where
  code : Nat
  description : Option String
deriving DecidableEq

/-- The bytes of a text: not UTF-8, no JSON, or the value that they are parsed to. -/
inductive Content where
  | invalid
  | plain
  | json (value : JsonValue)

inductive Message where
  | text (content : Content)
  | pong (payload : List UInt8)
  | close (reason : Option CloseReason)

inductive Frame where
  | text (length : Nat) (content : Content)
  | binary
  | continuation
  | ping (payload : List UInt8)
  | pong
  | close (reason : Option CloseReason)

def closeReason (code : Nat) (description : String) : CloseReason := ⟨code, some description⟩

def closeMessage (code : Nat) (description : String) : Message :=
  .close (some (closeReason code description))

/-- `message.get(name).and_then(Value::as_str)` -/
def memberText (name : String) (message : JsonValue) : Option String :=
  (message.get name).bind Json.Value.asStr

def operationLimitError (id : String) : Message :=
  .text <| .json <| .object [("id", .text id),
    ("payload", .array [.object
      [("extensions", .object [("code", .text "SUBSCRIPTION_LIMIT_EXCEEDED")]),
        ("message", .text "WebSocket operation limit exceeded")]]),
    ("type", .text "error")]

/-! ### Counters -/

/-- An atomic counter, with whether a subtraction ever went below zero. -/
structure Counter where
  value : Nat
  underflowed : Bool

def Counter.fetchAdd (counter : Counter) (count : Nat) : Counter :=
  { counter with value := counter.value + count }

def Counter.fetchSub (counter : Counter) (count : Nat) : Counter :=
  ⟨counter.value - count, counter.underflowed || decide (counter.value < count)⟩

structure SubscriptionConfig where
  maxConnections : Nat
  maxOperationsPerConnection : Nat
  maxClientMessageBytes : Nat

/-- What stays the same over the life of the gateway. -/
structure SubscriptionGateway where
  config : SubscriptionConfig
  secret : String

/-! ### Connections -/

inductive ConnectionPhase where
  | waitingForInit | connecting | ready | closed
deriving DecidableEq

structure ConnectionState where
  phase : ConnectionPhase
  internalSink : Option Nat
  operations : Finset String
  permit : Bool

structure ConnectionTermination where
  first : Bool
  internalSink : Option Nat

/-- A task of a connection that waits, with what it goes on with. -/
inductive Waiting where
  /-- `connect_internal` before the handshake is complete -/
  | connecting (token : String)
  /-- `connect_internal` while its first message is sent -/
  | greeting (sink : Nat)
  /-- `forward_internal_messages` before the next frame, and while it sends one on or answers it -/
  | receiving (sink : Nat)
  | publishing (sink : Nat)
  | answering (sink : Nat)
  | subscribing (id : String)
  | completing
  /-- the public close that follows an internal one -/
  | parting (reason : Option CloseReason)
deriving DecidableEq

/-- A connection with its tasks, the messages that it sent, and the phases in which sinks were
stored. It is severed when the internal side was the one to end it. -/
structure Connection where
  state : ConnectionState
  waiting : List Waiting
  initTimeout : Bool
  expiries : Nat
  published : List Message
  sent : List (Nat × Message)
  stored : List (Nat × ConnectionPhase)
  severed : Bool
  alive : Bool

/-- What the tasks of a connection can change: it and the counters of the gateway. -/
structure View where
  activeConnections : Counter
  activeOperations : Counter
  connection : Connection

namespace View

abbrev state (view : View) : ConnectionState := view.connection.state

abbrev phase (view : View) : ConnectionPhase := view.connection.state.phase

def withState (view : View) (state : ConnectionState) : View :=
  { view with connection := { view.connection with state := state } }

def publish (message : Message) (view : View) : View :=
  { view with connection :=
    { view.connection with published := view.connection.published ++ [message] } }

def send (sink : Nat) (message : Message) (view : View) : View :=
  { view with connection :=
    { view.connection with sent := view.connection.sent ++ [(sink, message)] } }

def suspend (task : Waiting) (view : View) : View :=
  { view with connection := { view.connection with waiting := task :: view.connection.waiting } }

def take (task : Waiting) (view : View) : View :=
  { view with connection := { view.connection with waiting := view.connection.waiting.erase task } }

def addOperation (id : String) (view : View) : View :=
  { view.withState { view.state with operations := insert id view.state.operations } with
    activeOperations := view.activeOperations.fetchAdd 1 }

def removeOperations (count : Nat) (view : View) : View :=
  if count ≠ 0 then { view with activeOperations := view.activeOperations.fetchSub count } else view

def removeOperation (id : String) (view : View) : View :=
  if id ∈ view.state.operations then
    (view.withState { view.state with operations := view.state.operations.erase id }).removeOperations
      1
  else view

def dropPermit (view : View) : View :=
  if view.state.permit then
    { view.withState { view.state with permit := false } with
      activeConnections := view.activeConnections.fetchSub 1 }
  else view

def terminate (view : View) : View × ConnectionTermination :=
  if view.phase = .closed then (view, ⟨false, none⟩)
  else
    let closed := (view.removeOperations view.state.operations.card).dropPermit
    (closed.withState ⟨.closed, none, ∅, false⟩, ⟨true, view.state.internalSink⟩)

/-! ### Ends of a connection -/

/-- What follows a termination: the close of the internal sink and the public one, which may have to
wait for the former. Without a close of the internal sink it was the internal side that ended. -/
structure Farewell where
  internalClose : Option (Option CloseReason)
  publicClose : Option (Option CloseReason)
  waits : Bool

def sendClose (sink : Option Nat) (reason : Option (Option CloseReason)) (view : View) : View :=
  match sink, reason with
  | some sink, some reason => view.send sink (.close reason)
  | _, _ => view

def publishClose (waits : Bool) (reason : Option (Option CloseReason)) (view : View) : View :=
  match reason with
  | none => view
  | some reason => if waits then view.suspend (.parting reason) else view.publish (.close reason)

/-- Every end of a connection: only the first termination closes anything. -/
def part (farewell : Farewell) (view : View) : View :=
  let (view, termination) := view.terminate
  if termination.first then
    let view := view.sendClose termination.internalSink farewell.internalClose
    let view := view.publishClose (farewell.waits && termination.internalSink.isSome)
      farewell.publicClose
    { view with connection := { view.connection with severed := farewell.internalClose.isNone } }
  else view

def clientDisconnected : Option CloseReason := some (closeReason 1000 "Client disconnected")

def terminateAndCloseInternal : View → View := part ⟨some clientDisconnected, none, false⟩

def terminateWithPublicClose (reason : CloseReason) : View → View :=
  part ⟨some clientDisconnected, some (some reason), false⟩

def transportUnavailable : CloseReason := closeReason 1011 "Subscription transport unavailable"

def receiveClose (reason : Option CloseReason) : View → View :=
  part ⟨some reason, some reason, true⟩

def initTimedOut (view : View) : View :=
  if view.phase ≠ .waitingForInit then view
  else view.part ⟨some (some (closeReason 1000 "Connection initialization timed out")),
    some (some (closeReason 4408 "Connection initialisation timeout")), true⟩

def expire : View → View :=
  part ⟨some (some (closeReason 1000 "Credential expired")),
    some (some (closeReason 4401 "Bearer credential expired")), true⟩

def shutdown : View → View := part ⟨some clientDisconnected, none, false⟩

/-- Why messages of the internal side are no longer forwarded. -/
inductive ForwardEnd where
  | internalFailure
  | externalFailure
  | internalClose (reason : Option CloseReason)

def endForwarding : ForwardEnd → View → View
  | .internalClose reason => part ⟨none, some reason, false⟩
  | .internalFailure => part ⟨none, some (some transportUnavailable), false⟩
  | .externalFailure => part ⟨some clientDisconnected, none, false⟩

def drop (view : View) : View :=
  let view := (view.removeOperations view.state.operations.card).dropPermit
  let view := view.withState { view.state with operations := ∅ }
  { view with connection := { view.connection with alive := false } }

/-! ### Initialisation -/

end View

def connectionInitAuthorization (message : JsonValue) : Option String := do
  let payload ← (message.get "payload").bind asObject
  let headers := (objectMember "headers" payload).getD payload
  match (headers.entries.filter fun entry => Text.eqIgnoreCase entry.1 "authorization").map
      fun entry => entry.2.asStr with
  | [some value] => some value
  | _ => none

def strictBearerToken (authorization : String) : Option String :=
  match authorization.toList.splitOn ' ' with
  | [scheme, token] =>
    if Text.eqIgnoreCase (String.ofList scheme) "bearer" ∧ token ≠ [] ∧
        token.any Text.isAsciiWhitespace = false then
      some (String.ofList token)
    else none
  | _ => none

/-- What the provider answers at the time. -/
structure AuthenticationProvider where
  authenticateBearer : String → Option AuthenticatedPrincipal
  currentTime : Option Nat

/-- The token of a valid credential, or the reason for which the connection is closed. -/
def bearerCredential (provider : AuthenticationProvider) (message : JsonValue) :
    Except CloseReason String :=
  let invalid := closeReason 4401 "Invalid bearer credential"
  match (connectionInitAuthorization message).bind strictBearerToken with
  | none => .error invalid
  | some token =>
    match provider.authenticateBearer token with
    | none => .error invalid
    | some principal =>
      match principal.expiresAt with
      | none => .error (closeReason 4401 "Bearer credential has no usable expiry")
      | some expiresAt =>
        match provider.currentTime with
        | none => .error (closeReason 1011 "Authentication service unavailable")
        | some now =>
          if expiresAt ≤ now then .error (closeReason 4401 "Bearer credential expired")
          else .ok token

namespace View

/-- The expiry is watched from now on, and the internal side is connected to. -/
def beginConnecting (token : String) (view : View) : View :=
  let view := view.withState { view.state with phase := .connecting }
  { view with connection := { view.connection with
    expiries := view.connection.expiries + 1, waiting := .connecting token :: view.connection.waiting } }

def initializeConnection (provider : AuthenticationProvider) (message : JsonValue) (view : View) :
    View :=
  if view.phase ≠ .waitingForInit then
    view.terminateWithPublicClose (closeReason 4429 "Too many initialisation requests")
  else
    match bearerCredential provider message with
    | .error reason => view.terminateWithPublicClose reason
    | .ok token => view.beginConnecting token

def initMessage (gateway : SubscriptionGateway) (token : String) : Message :=
  .text <| .json <| .object [("payload", .object [("authorization", .text ("Bearer " ++ token)),
    ("x-graphql-orm-router-internal", .text gateway.secret)]), ("type", .text "connection_init")]

/-- The handshake is complete. The sink is stored whatever has become of the connection. -/
def connected (token : String) (view : View) : View :=
  let sink := view.connection.stored.length
  let view := view.take (.connecting token)
  { view with connection := { view.connection with
    state := { view.state with internalSink := some sink }
    stored := view.connection.stored ++ [(sink, view.phase)] } }

/-! ### Operations -/

def forwardSubscribe (gateway : SubscriptionGateway) (message : JsonValue) (view : View) : View :=
  if view.phase ≠ .ready then
    view.terminateWithPublicClose (closeReason 4401 "Connection is not acknowledged")
  else
    match memberText "id" message with
    | none => view.terminateWithPublicClose (closeReason 4400 "Subscription ID is required")
    | some id =>
      if id = "" then
        view.terminateWithPublicClose (closeReason 4400 "Subscription ID is required")
      else if id ∈ view.state.operations then
        view.terminateWithPublicClose (closeReason 4409 "Subscriber already exists")
      else if view.state.operations.card ≥ gateway.config.maxOperationsPerConnection then
        view.publish (operationLimitError id)
      else
        let forwarded := injectOperationVariables message gateway.config.maxClientMessageBytes
        let view := view.addOperation id
        match view.state.internalSink with
        | some sink => (view.send sink (.text (.json forwarded))).suspend (.subscribing id)
        | none => (view.removeOperation id).terminateWithPublicClose transportUnavailable

def forwardComplete (message : JsonValue) (view : View) : View :=
  if view.phase ≠ .ready then
    view.terminateWithPublicClose (closeReason 4401 "Connection is not acknowledged")
  else
    match memberText "id" message with
    | none => view.terminateWithPublicClose (closeReason 4400 "Subscription ID is required")
    | some id =>
      let view := view.removeOperation id
      match view.state.internalSink with
      | some sink => (view.send sink (.text (.json message))).suspend .completing
      | none => view.terminateWithPublicClose transportUnavailable

/-! ### Frames of the client -/

def invalidMessage : CloseReason := closeReason 4400 "Invalid client message"

def handleText (gateway : SubscriptionGateway) (provider : AuthenticationProvider)
    (message : JsonValue) (view : View) : View :=
  match memberText "type" message with
  | none => view.terminateWithPublicClose invalidMessage
  | some kind =>
    if kind = "connection_init" then view.initializeConnection provider message
    else if kind = "ping" then view.publish (.text (.json (.object [("type", .text "pong")])))
    else if kind = "pong" then view
    else if kind = "subscribe" then view.forwardSubscribe gateway message
    else if kind = "complete" then view.forwardComplete message
    else view.terminateWithPublicClose invalidMessage

def handleFrame (gateway : SubscriptionGateway) (provider : AuthenticationProvider)
    (frame : Frame) (view : View) : View :=
  match frame with
  | .text length content =>
    if length > gateway.config.maxClientMessageBytes then
      view.terminateWithPublicClose (closeReason 4400 "Client message is too large")
    else
      match content with
      | .invalid | .plain => view.terminateWithPublicClose invalidMessage
      | .json message => view.handleText gateway provider message
  | .ping payload => view.publish (.pong payload)
  | .pong => view
  | .close reason => view.receiveClose reason
  | .binary | .continuation =>
    view.terminateWithPublicClose (closeReason 4400 "Text messages are required")

/-! ### Messages of the internal side -/

def observeServerMessage (content : Content) (view : View) : View :=
  match content with
  | .invalid | .plain => view
  | .json message =>
    match memberText "type" message with
    | none => view
    | some kind =>
      if kind = "connection_ack" then
        if view.phase = .connecting then view.withState { view.state with phase := .ready } else view
      else if kind = "error" ∨ kind = "complete" then
        match memberText "id" message with
        | none => view
        | some id => view.removeOperation id
      else view

/-- The next frame of the internal side, or none when there is no other. -/
def forwardInternalMessage (sink : Nat) (frame : Option Frame) (view : View) : View :=
  match frame with
  | none | some .binary | some .continuation => view.endForwarding .internalFailure
  | some (.text _ content) =>
    let view := view.observeServerMessage content
    match content with
    | .invalid => view.endForwarding .internalFailure
    | content => (view.publish (.text content)).suspend (.publishing sink)
  | some (.ping payload) => (view.send sink (.pong payload)).suspend (.answering sink)
  | some .pong => view.suspend (.receiving sink)
  | some (.close reason) => view.endForwarding (.internalClose reason)

/-! ### What follows a wait -/

/-- Goes on with a task whose wait is over, with whether it was for something that succeeded. -/
def resume (gateway : SubscriptionGateway) (succeeded : Bool) (task : Waiting) (view : View) : View :=
  match task, succeeded with
  | .connecting token, true =>
    let sink := view.connection.stored.length
    ((view.connected token).send sink (initMessage gateway token)).suspend (.greeting sink)
  | .greeting sink, true | .publishing sink, true | .answering sink, true =>
    (view.take task).suspend (.receiving sink)
  | .connecting _, false | .greeting _, false | .completing, false =>
    (view.take task).terminateWithPublicClose transportUnavailable
  | .subscribing id, false =>
    ((view.take task).removeOperation id).terminateWithPublicClose transportUnavailable
  | .publishing _, false => (view.take task).endForwarding .externalFailure
  | .answering _, false => (view.take task).endForwarding .internalFailure
  | .subscribing _, true | .completing, true => view.take task
  | .parting reason, _ => (view.take task).publish (.close reason)
  -- A frame comes with what was received.
  | .receiving _, _ => view

def createConnectionService (acceptedSubprotocol : Bool) (view : View) : View :=
  if acceptedSubprotocol then
    { view with connection := { view.connection with initTimeout := true } }
  else
    view.terminateAndCloseInternal.publish (closeMessage 4406 "Subprotocol not acceptable")

end View

/-! ### Steps -/

/-- What may happen next to a connection. -/
inductive Action where
  | frame (provider : AuthenticationProvider) (frame : Frame)
  | receive (sink : Nat) (frame : Option Frame)
  | resume (task : Waiting) (succeeded : Bool)
  | cancel (task : Waiting)
  | initTimeout
  | expire
  | shutdown
  | drop

def View.act (gateway : SubscriptionGateway) (action : Action) (view : View) : Option View :=
  if view.connection.alive then
    match action with
    | .frame provider frame => some (view.handleFrame gateway provider frame)
    | .receive sink frame =>
      if .receiving sink ∈ view.connection.waiting then
        some ((view.take (.receiving sink)).forwardInternalMessage sink frame)
      else none
    | .resume task succeeded =>
      if task ∈ view.connection.waiting then some (view.resume gateway succeeded task) else none
    | .cancel task => if task ∈ view.connection.waiting then some (view.take task) else none
    | .initTimeout =>
      if view.connection.initTimeout then
        some { view with connection := { view.connection with initTimeout := false } }.initTimedOut
      else none
    | .expire =>
      if 0 < view.connection.expiries then
        some { view with connection :=
          { view.connection with expiries := view.connection.expiries - 1 } }.expire
      else none
    | .shutdown => some view.shutdown
    | .drop => if view.connection.waiting = [] then some view.drop else none
  else none

/-- The gateway with its connections, and the permits of upgrades without a connection yet. -/
structure World where
  activeConnections : Counter
  activeOperations : Counter
  upgrades : Nat
  connections : List Connection

def World.start : World := ⟨⟨0, false⟩, ⟨0, false⟩, 0, []⟩

def tryReserveConnection (config : SubscriptionConfig) (activeConnections : Counter) :
    Option Counter :=
  if activeConnections.value ≥ config.maxConnections then none
  else some (activeConnections.fetchAdd 1)

def Connection.new : Connection where
  state := ⟨.waitingForInit, none, ∅, true⟩
  waiting := []
  initTimeout := false
  expiries := 0
  published := []
  sent := []
  stored := []
  severed := false
  alive := true

inductive GatewayAction where
  | reserve
  | abandon
  | create (acceptedSubprotocol : Bool)
  | act (index : Nat) (action : Action)

namespace World

def view (world : World) (connection : Connection) : View :=
  ⟨world.activeConnections, world.activeOperations, connection⟩

def step (gateway : SubscriptionGateway) (action : GatewayAction) (world : World) : Option World :=
  match action with
  | .reserve =>
    match tryReserveConnection gateway.config world.activeConnections with
    | none => some world
    | some reserved =>
      some { world with activeConnections := reserved, upgrades := world.upgrades + 1 }
  | .abandon =>
    if 0 < world.upgrades then
      some { world with
        activeConnections := world.activeConnections.fetchSub 1, upgrades := world.upgrades - 1 }
    else none
  | .create acceptedSubprotocol =>
    if 0 < world.upgrades then
      let created := (world.view .new).createConnectionService acceptedSubprotocol
      some ⟨created.activeConnections, created.activeOperations, world.upgrades - 1,
        world.connections ++ [created.connection]⟩
    else none
  | .act index action => do
    let connection ← world.connections[index]?
    let after ← (world.view connection).act gateway action
    some { world with
      activeConnections := after.activeConnections, activeOperations := after.activeOperations
      connections := world.connections.set index after.connection }

def run (gateway : SubscriptionGateway) (actions : List GatewayAction) (world : World) :
    Option World :=
  actions.foldlM (fun world action => world.step gateway action) world

end World

end GraphqlOrm.Router
