import ChainIndexer.Core.Machine
import ChainIndexer.Native.Errors
import ChainIndexer.Producer.Pipeline

/-!
# Starting, stopping and restarting the block producer

The activations of `start`, `stop` and `produceBlock` are suspended at one await
each. A restart is a promise that runs `stop` and then `start`; every error that
asks for a restart meanwhile awaits the same promise. What happens to the blocks is
not repeated here: only the awaits that delay `stop` are kept.
-/

namespace ChainIndexer.Lifecycle

/-- What awaits a call of `start` or `stop`. -/
inductive Caller where
  | client
  /-- The closed callback of the observer, which calls `stop`. -/
  | closed
  /-- The promise of `restartBlockProducer`. -/
  | restart
  deriving DecidableEq, Repr

/-- What an activation of `start` awaits. -/
inductive Starting where
  /-- `database.connect()`. -/
  | database
  /-- `super.start()`: the promise of this call of `connectToBroker`. -/
  | broker (connection : Nat)
  /-- `getStartBlock()`; the delivered listener is registered. -/
  | startBlock
  /-- `blockSubscription.subscribe(..)`. -/
  | subscription
  deriving DecidableEq, Repr

/-- An activation of `start`. -/
structure Start where
  caller : Caller
  awaits : Starting
  deriving DecidableEq, Repr

/-- What an activation of `stop` awaits. -/
inductive Stopping where
  /-- `blockSubscription.unsubscribe()`. -/
  | subscription
  /-- `Promise.all(producingBlockPromises)`. -/
  | blocks (ids : List Nat)
  /-- `queueProcessingPromise`, the promise of this call of `processQueue`. -/
  | insertion (count : Nat)
  /-- `super.stop()`: the promise of this call of `disconnect`. -/
  | broker (disconnection : Nat)
  deriving DecidableEq, Repr

/-- An activation of `stop`. -/
structure Stop where
  caller : Caller
  awaits : Stopping
  deriving DecidableEq, Repr

/-- An activation of `produceBlock`. -/
structure Sending where
  id : Nat
  /-- The call of `connectToBroker` it awaits; otherwise the block is serialised and sent. -/
  connection : Option Nat
  deriving DecidableEq, Repr

/-- `restartPromise` and the errors for which an activation of `onError` awaits it. -/
structure Restart where
  waiters : List BaseError
  /-- How the promise has settled; nothing that awaits it has resumed. -/
  result : Option (Except Thrown Unit)

/-- What the client, the subscription and the broker see of the producer. -/
inductive Entry where
  /-- The client calls `start`. -/
  | started
  /-- A `stop` of the client has resolved. -/
  | stopped
  /-- The Kafka client is told to connect. -/
  | connect
  /-- `blockSubscription.subscribe` is called. -/
  | subscribe (caller : Caller)
  /-- An error is handed to `onError`. -/
  | reported (error : BaseError)
  /-- A restart begins. -/
  | began
  /-- `restartPromise` is cleared. -/
  | ended
  /-- The event `blockProducer.fatalError`. -/
  | fatalError (error : BaseError)
  deriving DecidableEq, Repr

/-- The producer between two awaits. -/
structure State where
  forceStop : Bool := false
  restart : Option Restart := none
  starts : List Start := []
  stops : List Stop := []
  sending : List Sending := []
  /-- How many blocks have been handed to `produceBlock`. -/
  blocks : Nat := 0
  /-- Registered listeners of the delivered event. -/
  listeners : Nat := 0
  /-- How many calls of `processQueue` have begun and ended; one runs at a time. -/
  insertions : Nat := 0
  inserted : Nat := 0
  producerConnected : Bool := false
  producerConnecting : Bool := false
  /-- The promises of `connectToBroker`, in order, as they have settled. -/
  connections : List (Option (Except LibrdKafkaError Unit)) := []
  /-- Whether the error and disconnect listeners of `connectToBroker` are registered. -/
  attached : Bool := false
  /-- The promises of `disconnect`, in order, as they have settled. -/
  disconnections : List (Option (Except LibrdKafkaError Unit)) := []
  stopProducerPromise : Option Nat := none
  /-- Whether an observer has been handed to the subscription. -/
  observed : Bool := false
  history : List Entry := []

/-- A new producer. -/
def State.init : State := {}

/-- Add to the history. -/
def record (s : State) (entry : Entry) : State := { s with history := s.history ++ [entry] }

/-- `connectToBroker`, up to its callback. -/
def connectToBroker (s : State) : State :=
  { record s .connect with
    producerConnecting := true
    attached := true
    connections := s.connections ++ [none] }

/-- `start` and `_start` of the Kafka producer, up to the await of a connection. -/
def startBroker (s : State) : Nat × State :=
  if !s.producerConnecting && !s.producerConnected then
    (s.connections.length, connectToBroker s)
  else (s.connections.length - 1, s)

/-- `onDisconnected`. -/
def onDisconnected (s : State) : State :=
  { s with producerConnected := false, attached := false }

/-- `start` up to its first await. -/
def start (s : State) (caller : Caller) : State :=
  let s := if caller = .client then record s .started else s
  { s with forceStop := false, starts := s.starts ++ [⟨caller, .database⟩] }

/-- `stop` up to its first await. -/
def stop (s : State) (caller : Caller) : State :=
  { s with stops := s.stops ++ [⟨caller, .subscription⟩] }

/-- `restartBlockProducer` up to its await: join the restart in progress, or begin one. -/
def restartBlockProducer (s : State) (error : BaseError) : State :=
  match s.restart with
  | some restart => { s with
      restart := some { restart with waiters := restart.waiters ++ [error] } }
  | none => stop { record s .began with restart := some ⟨[error], none⟩ } .restart

/-- `onError` up to its await. -/
def onError (s : State) (error : BaseError) : State :=
  let s := record s (.reported error)
  match Producer.onError error with
  | .ignored => s
  | .restarted => restartBlockProducer s error
  | .stopped => restartBlockProducer { s with forceStop := true } error

/-- `resolve` or `reject` of `restartPromise`. -/
def settle (s : State) (result : Except Thrown Unit) : State :=
  { s with restart := s.restart.map fun restart => { restart with result := some result } }

/-- The activation of `start` at place `i` returns or throws. -/
def startEnds (s : State) (i : Nat) (caller : Caller) (result : Except Thrown Unit) : State :=
  let s := { s with starts := s.starts.eraseIdx i }
  match caller with
  | .restart => settle s result
  | .client | .closed => s

/-- The activation of `stop` at place `i` returns or throws. -/
def stopEnds (s : State) (i : Nat) (caller : Caller) (result : Except Thrown Unit) : State :=
  let s := { s with stops := s.stops.eraseIdx i }
  match caller, result with
  | .client, .ok () => record s .stopped
  | .restart, .ok () => if s.forceStop then settle s (.ok ()) else start s .restart
  | .restart, .error error => settle s (.error error)
  | .client, .error _ | .closed, _ => s

/-- What is emitted once `restartPromise` has settled: by `restartBlockProducer` for each error
that awaited a rejected promise, and by `onError` for each of the stopping errors. -/
def announcements (result : Except Thrown Unit) (error : BaseError) : List Entry :=
  (match result with
    | .ok () => []
    | .error thrown => [.fatalError (BlockProducerError.createUnknown thrown)]) ++
  (if Producer.onError error = .stopped then [.fatalError error] else [])

/-- All that await `restartPromise` resume. -/
def resume (s : State) (restart : Restart) (result : Except Thrown Unit) : State :=
  { s with
    restart := none
    history := s.history ++ .ended :: restart.waiters.flatMap (announcements result) }

end ChainIndexer.Lifecycle
