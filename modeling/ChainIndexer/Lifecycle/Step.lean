import ChainIndexer.Lifecycle.State

/-!
# The steps of starting and stopping

One event runs one activation up to its next await. Calls of the observer are
events at any time after the first `subscribe`, so the late callbacks of a closed
subscription are among the runs. The promises of the database, of the subscription
and of the Kafka client settle in any order and with any result.
-/

namespace ChainIndexer.Lifecycle

/-- Why `getStartBlock` throws. -/
inductive Failure where
  /-- The store cannot be read. -/
  | store (error : Thrown)
  /-- A block cannot be asked for; this error is handed to `onError` and thrown. -/
  | remote (error : BaseError)
  deriving DecidableEq, Repr

/-- What `getStartBlock` throws. -/
def Failure.thrown : Failure → Thrown
  | .store error => error
  | .remote error => .base error

/-- What may happen next. An activation is named by its place in its list. -/
inductive Event where
  /-- The client calls `start`. -/
  | start
  /-- The client calls `stop`. -/
  | stop
  | databaseConnected (i : Nat) (result : Except Thrown Unit)
  /-- The callback of this call of `connect`. -/
  | connectCallback (connection : Nat) (result : Except LibrdKafkaError Unit)
  | brokerStarted (i : Nat)
  | startBlockFound (i : Nat) (result : Except Failure Unit)
  | subscribed (i : Nat) (result : Except Thrown Unit)
  | unsubscribed (i : Nat) (result : Except Thrown Unit)
  | blocksProduced (i : Nat)
  | insertionAwaited (i : Nat)
  /-- The callback of this call of `disconnect`. -/
  | disconnectCallback (disconnection : Nat) (result : Except LibrdKafkaError Unit)
  | brokerStopped (i : Nat)
  /-- What awaits the settled `restartPromise` resumes. -/
  | resumed
  /-- The subscription calls `observer.next`. -/
  | next
  /-- The subscription calls `observer.error`. -/
  | error (error : BaseError)
  /-- The subscription calls `observer.closed`. -/
  | closed
  /-- The connection that an activation of `produceBlock` awaits has settled. -/
  | brokerAwaited (i : Nat)
  /-- A block is sent, or serialising or sending it fails. -/
  | sent (i : Nat) (failure : Option Thrown)
  /-- A delivery report with this partition. -/
  | delivered (partition : Int)
  /-- The running `processQueue` ends. -/
  | inserted
  /-- The error event of the Kafka client. -/
  | kafkaError
  /-- The disconnected event of the Kafka client. -/
  | disconnected
  deriving DecidableEq

/-- The database of an activation of `start` is connected. -/
def databaseConnected (s : State) (i : Nat) (result : Except Thrown Unit) : Option State :=
  match s.starts[i]? with
  | some ⟨caller, .database⟩ => some (match result with
    | .error error => startEnds s i caller (.error error)
    | .ok () =>
      let (connection, s) := startBroker s
      { s with starts := s.starts.set i ⟨caller, .broker connection⟩ })
  | _ => none

/-- The Kafka client of an activation of `start` is connected, or cannot be. -/
def brokerStarted (s : State) (i : Nat) : Option State :=
  match s.starts[i]? with
  | some ⟨caller, .broker connection⟩ =>
    match s.connections[connection]? with
    | some (some (.ok ())) => some { s with
        listeners := s.listeners + 1
        starts := s.starts.set i ⟨caller, .startBlock⟩ }
    | some (some (.error error)) => some (startEnds { s with producerConnecting := false } i caller
        (.error (.base (KafkaError.createUnknown (.librdkafka error) true))))
    | _ => none
  | _ => none

/-- `getStartBlock` of an activation of `start` has returned or thrown. -/
def startBlockFound (s : State) (i : Nat) (result : Except Failure Unit) : Option State :=
  match s.starts[i]? with
  | some ⟨caller, .startBlock⟩ => some (match result with
    | .ok () => { record s (.subscribe caller) with
        observed := true
        starts := s.starts.set i ⟨caller, .subscription⟩ }
    | .error (.store error) => startEnds s i caller (.error error)
    | .error (.remote error) => startEnds (onError s error) i caller (.error (.base error)))
  | _ => none

/-- `blockSubscription.subscribe` of an activation of `start` has returned or thrown. -/
def subscribed (s : State) (i : Nat) (result : Except Thrown Unit) : Option State :=
  match s.starts[i]? with
  | some ⟨caller, .subscription⟩ => some (startEnds s i caller result)
  | _ => none

/-- `super.stop()` up to its await: one call of `disconnect` serves all that ask meanwhile. -/
def stopBroker (s : State) (i : Nat) (caller : Caller) : State :=
  match s.stopProducerPromise with
  | some disconnection => { s with stops := s.stops.set i ⟨caller, .broker disconnection⟩ }
  | none => { s with
      stopProducerPromise := some s.disconnections.length
      disconnections := s.disconnections ++ [none]
      stops := s.stops.set i ⟨caller, .broker s.disconnections.length⟩ }

/-- `stop` once the blocks are produced: await the call of `processQueue` begun last, if any. -/
def awaitInsertion (s : State) (i : Nat) (caller : Caller) : State :=
  if 0 < s.insertions then { s with stops := s.stops.set i ⟨caller, .insertion s.insertions⟩ }
  else stopBroker s i caller

/-- The subscription of an activation of `stop` is closed, or cannot be. -/
def unsubscribed (s : State) (i : Nat) (result : Except Thrown Unit) : Option State :=
  match s.stops[i]? with
  | some ⟨caller, .subscription⟩ => some (match result with
    | .error error => stopEnds s i caller (.error error)
    | .ok () =>
      if s.sending.isEmpty then awaitInsertion s i caller
      else { s with stops := s.stops.set i ⟨caller, .blocks (s.sending.map Sending.id)⟩ })
  | _ => none

/-- The blocks that an activation of `stop` awaits are produced. -/
def blocksProduced (s : State) (i : Nat) : Option State :=
  match s.stops[i]? with
  | some ⟨caller, .blocks ids⟩ =>
    if ∀ block ∈ s.sending, block.id ∉ ids then some (awaitInsertion s i caller) else none
  | _ => none

/-- The call of `processQueue` that an activation of `stop` awaits has ended. -/
def insertionAwaited (s : State) (i : Nat) : Option State :=
  match s.stops[i]? with
  | some ⟨caller, .insertion count⟩ =>
    if count ≤ s.inserted then some (stopBroker s i caller) else none
  | _ => none

/-- The Kafka client of an activation of `stop` is disconnected, or cannot be. -/
def brokerStopped (s : State) (i : Nat) : Option State :=
  match s.stops[i]? with
  | some ⟨caller, .broker disconnection⟩ =>
    match s.disconnections[disconnection]? with
    | some (some (.ok ())) => some (stopEnds { onDisconnected s with
        stopProducerPromise := none, listeners := 0 } i caller (.ok ()))
    | some (some (.error error)) => some (stopEnds { s with stopProducerPromise := none } i caller
        (.error (.base (KafkaError.convertLibError error false))))
    | _ => none
  | _ => none

/-- `produceBlock` up to its first await: the Kafka client is started if it is not connected. -/
def produceBlock (s : State) : State :=
  let s := { s with blocks := s.blocks + 1 }
  if s.producerConnected then { s with sending := s.sending ++ [⟨s.blocks, none⟩] }
  else
    let (connection, s) := startBroker s
    { s with sending := s.sending ++ [⟨s.blocks, some connection⟩] }

/-- Sending a block has failed: `onKafkaError`, and then the catch block of `produceBlock`. -/
def sendingFailed (s : State) (i : Nat) (error : Thrown) : State :=
  onError { s with producerConnected := false, sending := s.sending.eraseIdx i }
    (KafkaError.createUnknown error true)

/-- The connection that an activation of `produceBlock` awaits has settled. -/
def brokerAwaited (s : State) (i : Nat) : Option State :=
  match s.sending[i]? with
  | some ⟨id, some connection⟩ =>
    match s.connections[connection]? with
    | some (some (.ok ())) => some { s with sending := s.sending.set i ⟨id, none⟩ }
    | some (some (.error error)) =>
      some (sendingFailed { s with producerConnecting := false } i (.librdkafka error))
    | _ => none
  | _ => none

/-- A block is sent, or serialising or sending it fails. -/
def sent (s : State) (i : Nat) (failure : Option Thrown) : Option State :=
  match s.sending[i]? with
  | some ⟨_, none⟩ => some (match failure with
    | none => { s with sending := s.sending.eraseIdx i }
    | some error => sendingFailed s i error)
  | _ => none

/-- The delivered listeners: each reports a missing partition; otherwise the first of them calls
`processQueue` unless it is running. -/
def delivered (s : State) (partition : Int) : State :=
  if partition = -1 then
    (List.replicate s.listeners BlockProducerError.topicDoesNotExist).foldl onError s
  else if 0 < s.listeners ∧ s.insertions = s.inserted then { s with insertions := s.insertions + 1 }
  else s

/-- One event, run up to the next await. -/
def step (s : State) : Event → Option State
  | .start => some (start s .client)
  | .stop => some (stop s .client)
  | .databaseConnected i result => databaseConnected s i result
  | .connectCallback connection result =>
    if s.connections[connection]? = some none then some { s with
      producerConnecting := false
      producerConnected := s.producerConnected || result.isOk
      connections := s.connections.set connection (some result) }
    else none
  | .brokerStarted i => brokerStarted s i
  | .startBlockFound i result => startBlockFound s i result
  | .subscribed i result => subscribed s i result
  | .unsubscribed i result => unsubscribed s i result
  | .blocksProduced i => blocksProduced s i
  | .insertionAwaited i => insertionAwaited s i
  | .disconnectCallback disconnection result =>
    if s.disconnections[disconnection]? = some none then some { s with
      disconnections := s.disconnections.set disconnection (some result) }
    else none
  | .brokerStopped i => brokerStopped s i
  | .resumed => match s.restart with
    | some ⟨waiters, some result⟩ => some (resume s ⟨waiters, some result⟩ result)
    | _ => none
  | .next => if s.observed then some (produceBlock s) else none
  | .error error => if s.observed then some (onError s error) else none
  | .closed => if s.observed then some (Lifecycle.stop s .closed) else none
  | .brokerAwaited i => brokerAwaited s i
  | .sent i failure => sent s i failure
  | .delivered partition => some (delivered s partition)
  | .inserted =>
    if s.inserted < s.insertions then some { s with inserted := s.inserted + 1 } else none
  | .kafkaError => if s.attached then some { s with producerConnected := false } else none
  | .disconnected => if s.attached then some (onDisconnected s) else none

/-- The machine of a producer that is started and stopped. -/
def machine : Machine State Event where
  step := step

end ChainIndexer.Lifecycle
