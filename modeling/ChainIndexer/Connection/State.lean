import ChainIndexer.Core.Machine
import ChainIndexer.Native.Errors

/-!
# The listeners of a producer on its client

`AbstractProducer` registers its listeners each time it connects and removes them when it
hears that the client has disconnected. A state holds the fields of the class, its listeners,
the activations suspended at an await and the events that were emitted. Each function below
runs the source up to its next await.
-/

namespace ChainIndexer.Connection

/-- The events of the class. -/
inductive Emission where
  /-- `producer.error`. -/
  | error (error : BaseError)
  /-- `producer.disconnected`. -/
  | disconnected
  deriving DecidableEq, Repr

/-- An activation of `start` or `_start`, suspended at `producerConnectPromise`. -/
structure Starter where
  /-- The call of `connect` whose promise it awaits; an unset promise resolves at once. -/
  connection : Option Nat
  /-- Whether `sendToInternalProducer` is its caller. -/
  sending : Bool
  deriving DecidableEq, Repr

/-- A call of `disconnect` by `stop`. -/
structure Disconnection where
  /-- Whether the client has emitted its own disconnected event. -/
  announced : Bool
  /-- What the callback was given, once it has run. -/
  outcome : Option (Option LibrdKafkaError)
  deriving DecidableEq, Repr

/-- The producer object, its suspended activations and its events. -/
structure State where
  producerConnected : Bool := false
  producerConnecting : Bool := false
  /-- The calls of `connect`, with what the callback of each was given, once it has run. -/
  connections : List (Option (Option LibrdKafkaError)) := []
  producerConnectPromise : Option Nat := none
  starting : List Starter := []
  /-- Activations of `sendToInternalProducer` that serialise and produce. -/
  producing : Nat := 0
  disconnections : List Disconnection := []
  stopProducerPromise : Option Nat := none
  /-- The disconnections that the activations of `stop` await. -/
  stopping : List Nat := []
  /-- Listeners of the class for `event.error`. -/
  errorListeners : Nat := 0
  /-- Listeners of the class for `disconnected`. -/
  disconnectedListeners : Nat := 0
  emitted : List Emission := []
  deriving DecidableEq, Repr

/-- The object the constructor returns. -/
def State.init : State := {}

/-- The listeners registered for an event when it is emitted run one after the other, also
where one of them removes the others. -/
def runListeners (listener : State → State) : Nat → State → State
  | 0, s => s
  | count + 1, s => runListeners listener count (listener s)

/-- `onKafkaError`. -/
def onKafkaError (s : State) (error : BaseError) : State :=
  { s with emitted := s.emitted ++ [.error error], producerConnected := false }

/-- `onDisconnected`. -/
def onDisconnected (s : State) : State :=
  { s with
    producerConnected := false
    emitted := s.emitted ++ [.disconnected]
    errorListeners := 0
    disconnectedListeners := 0 }

/-- `connectToBroker` up to the callback of `connect`. -/
def connectToBroker (s : State) : State :=
  { s with
    errorListeners := s.errorListeners + 1
    disconnectedListeners := s.disconnectedListeners + 1
    producerConnecting := true
    connections := s.connections ++ [none] }

/-- The test of `start` and `_start`. -/
def needsConnection (s : State) : Bool := !s.producerConnecting && !s.producerConnected

/-- `start` and `_start`, which have the same body, up to their await. -/
def start (s : State) (sending : Bool) : State :=
  if needsConnection s then
    { connectToBroker s with
      producerConnectPromise := some s.connections.length
      starting := s.starting ++ [⟨some s.connections.length, sending⟩] }
  else { s with starting := s.starting ++ [⟨s.producerConnectPromise, sending⟩] }

/-- `sendToInternalProducer` up to its first await. -/
def sendToInternalProducer (s : State) : State :=
  if s.producerConnected then { s with producing := s.producing + 1 } else start s true

/-- The callback of `connect`. -/
def connectCallback (s : State) (c : Nat) (failure : Option LibrdKafkaError) : Option State :=
  match s.connections[c]? with
  | some none => some { s with
      producerConnecting := false
      connections := s.connections.set c (some failure)
      producerConnected := s.producerConnected || failure.isNone }
  | _ => none

/-- How the promise has settled that an activation of `start` awaits. -/
def Starter.outcome (s : State) (starter : Starter) : Option (Option LibrdKafkaError) :=
  match starter.connection with
  | none => some none
  | some c => (s.connections[c]?).join

/-- The catch block of `sendToInternalProducer`. -/
def sendFailed (s : State) (error : Thrown) : State :=
  onKafkaError s (KafkaError.createUnknown error true)

/-- `start` or `_start` goes on, and with it the call of `sendToInternalProducer` it is for. -/
def connectAwaited (s : State) (i : Nat) : Option State :=
  match s.starting[i]? with
  | none => none
  | some starter =>
    let s := { s with starting := s.starting.eraseIdx i }
    match starter.outcome s with
    | none => none
    | some none =>
      some (if starter.sending then { s with producing := s.producing + 1 } else s)
    | some (some error) =>
      let s := { s with producerConnecting := false }
      some (if starter.sending then
        sendFailed s (.base (KafkaError.createUnknown (.librdkafka error) true)) else s)

/-- Serialising and `produce` settle. -/
def produced (s : State) (failure : Option Thrown) : Option State :=
  if s.producing = 0 then none
  else
    let s := { s with producing := s.producing - 1 }
    some (match failure with
      | none => s
      | some error => sendFailed s error)

/-- The client emits `event.error`. -/
def clientError (s : State) (error : LibrdKafkaError) : State :=
  runListeners (onKafkaError · (KafkaError.convertLibError error true)) s.errorListeners s

/-- The client emits `disconnected`. -/
def announce (s : State) : State := runListeners onDisconnected s.disconnectedListeners s

/-- The client is disconnected, by the broker or by a call of `disconnect` whose callback has
not run. -/
def disconnected (s : State) : Option Nat → Option State
  | none => some (announce s)
  | some d =>
    match s.disconnections[d]? with
    | some ⟨false, none⟩ =>
      some (announce { s with disconnections := s.disconnections.set d ⟨true, none⟩ })
    | _ => none

/-- `stop` up to its await. -/
def stop (s : State) : State :=
  match s.stopProducerPromise with
  | some d => { s with stopping := s.stopping ++ [d] }
  | none => { s with
      disconnections := s.disconnections ++ [⟨false, none⟩]
      stopProducerPromise := some s.disconnections.length
      stopping := s.stopping ++ [s.disconnections.length] }

/-- The callback of `disconnect`. -/
def disconnectCallback (s : State) (d : Nat) (failure : Option LibrdKafkaError) : Option State :=
  match s.disconnections[d]? with
  | some ⟨announced, none⟩ =>
    some { s with disconnections := s.disconnections.set d ⟨announced, some failure⟩ }
  | _ => none

/-- `stop` goes on. -/
def disconnectAwaited (s : State) (i : Nat) : Option State :=
  match s.stopping[i]? with
  | none => none
  | some d =>
    match (s.disconnections[d]?).bind (·.outcome) with
    | none => none
    | some failure =>
      let s := { s with stopping := s.stopping.eraseIdx i }
      some { (match failure with
        | none => onDisconnected s
        | some _ => s) with stopProducerPromise := none }

/-- What may happen next. A suspended activation and a call of the client are named by their
places in their lists. -/
inductive Event where
  | start
  | sendToInternalProducer
  | connectCallback (c : Nat) (failure : Option LibrdKafkaError)
  | connectAwaited (i : Nat)
  | produced (failure : Option Thrown)
  | clientError (error : LibrdKafkaError)
  | disconnected (d : Option Nat)
  | stop
  | disconnectCallback (d : Nat) (failure : Option LibrdKafkaError)
  | disconnectAwaited (i : Nat)
  deriving DecidableEq, Repr

/-- One event, run up to the next await. -/
def step (s : State) : Event → Option State
  | .start => some (start s false)
  | .sendToInternalProducer => some (sendToInternalProducer s)
  | .connectCallback c failure => connectCallback s c failure
  | .connectAwaited i => connectAwaited s i
  | .produced failure => produced s failure
  | .clientError error => some (clientError s error)
  | .disconnected d => disconnected s d
  | .stop => some (stop s)
  | .disconnectCallback d failure => disconnectCallback s d failure
  | .disconnectAwaited i => disconnectAwaited s i

/-- The producer's machine. -/
def machine : Machine State Event where
  step := step

end ChainIndexer.Connection
