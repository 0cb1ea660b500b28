import ChainIndexer.Consumer.Step

/-!
# The synchronous data transformer

A `SynchronousConsumer` calls the transformer's `onData` for one message at a time; the
transformed block goes to an `AsynchronousProducer`, whose promise settles when the Kafka
client has taken the block. The delivery report comes later, through another event. Whether
the producer is connected only decides how long a call of `produceEvent` takes, so the
environment decides how each call ends.
-/

namespace ChainIndexer.Transformer

open Consumer (Position)

/-- The settings of the consumer and the flag of the transformer. -/
structure Config where
  maxBufferLength : Nat
  maxRetries : Nat
  startOffset : String → Nat
  restart : Bool

/-- The configuration of the `SynchronousConsumer`. -/
def Config.consumer (cfg : Config) : Consumer.Config where
  mode := .synchronous
  maxBufferLength := cfg.maxBufferLength
  maxRetries := cfg.maxRetries
  startOffset := cfg.startOffset

/-- What `transform` returns. -/
structure TransformedBlock (δ : Type) where
  blockNumber : Nat
  data : List δ
  deriving DecidableEq, Repr

/-- A block taken by the Kafka client, with the input it was made from. -/
structure Sent (δ : Type) where
  input : Position
  key : String
  block : TransformedBlock δ
  deriving DecidableEq, Repr

/-- A delivery reported with an error, and how many errors had been surfaced by then. -/
structure Failure where
  input : Position
  surfaced : Nat
  deriving DecidableEq, Repr

/-- What an activation of `start` or of the closed callback awaits. -/
inductive Phase where
  | stoppingProducer
  | startingProducer
  | startingConsumer
  deriving DecidableEq, Repr

/-- An activation of `start`; the closed callback announces what its own call rejects with. -/
structure Starting where
  closed : Bool
  phase : Phase
  deriving DecidableEq, Repr

/-- The transformer between two awaits. -/
structure State (β γ δ : Type) where
  consumer : Consumer.State β γ := .init
  starting : List Starting := []
  /-- The block that the running call of `onData` is producing; before that it transforms. -/
  producing : Option (TransformedBlock δ) := none
  /-- Whether `produceEvent` has registered the listener of the delivery report. -/
  reporting : Bool := false
  /-- Blocks whose delivery has not been reported. -/
  sent : List (Sent δ) := []
  /-- Inputs of the blocks emitted as delivered. -/
  delivered : List Position := []
  /-- Deliveries reported with an error. -/
  failures : List Failure := []
  /-- The `producer.error` events. -/
  producerErrors : List BaseError := []
  /-- The `dataTransformer.fatalError` events. -/
  fatalErrors : List BaseError := []

variable {β γ δ : Type}

def State.init : State β γ δ := {}

/-- The errors surfaced by the producer, the transformer and the consumer's error callback. -/
def surfaced (s : State β γ δ) : Nat :=
  s.producerErrors.length + s.fatalErrors.length + s.consumer.errors.length

/-- `onKafkaError` of the producer. -/
def onKafkaError (s : State β γ δ) (error : BaseError) : State β γ δ :=
  { s with producerErrors := s.producerErrors ++ [error] }

/-- `emit("dataTransformer.fatalError", error)`. -/
def fatalError (s : State β γ δ) (error : BaseError) : State β γ δ :=
  { s with fatalErrors := s.fatalErrors ++ [error] }

/-- The error with which a transformer that is not to be restarted stops. -/
def transformerStopped : BaseError :=
  .create "Transformer stopped" Codes.unknownConsumerErr true
    (some "Transformer stopped due to a fatal error.") "local"

/-- The closed callback up to its first await. -/
def closed (cfg : Config) (s : State β γ δ) : State β γ δ :=
  if cfg.restart then { s with starting := s.starting ++ [⟨true, .stoppingProducer⟩] }
  else fatalError s transformerStopped

/-- The consumer has moved on, and may have called the closed callback. -/
def consumed (cfg : Config) (s : State β γ δ) (consumer : Consumer.State β γ) : State β γ δ :=
  if s.consumer.closed < consumer.closed then closed cfg { s with consumer := consumer }
  else { s with consumer := consumer }

/-- An await of `start` or of the closed callback settles. -/
def proceeded (s : State β γ δ) (i : Nat) (failure : Option Thrown) : Option (State β γ δ) :=
  match s.starting[i]? with
  | none => none
  | some activation =>
    some (match failure, activation.phase with
      | some error, _ =>
        let s := { s with starting := s.starting.eraseIdx i }
        if activation.closed then fatalError s (KafkaError.createUnknown error false) else s
      | none, .stoppingProducer =>
        { s with starting := s.starting.set i ⟨activation.closed, .startingProducer⟩ }
      | none, .startingProducer => { s with
          starting := s.starting.set i ⟨activation.closed, .startingConsumer⟩
          consumer := Consumer.start s.consumer }
      | none, .startingConsumer => { s with starting := s.starting.eraseIdx i })

/-- The running call of `onData` settles, and `processQueue` goes on. -/
def settled (cfg : Config) (s : State β γ δ) (failure : Option Thrown)
    (commits : List (Option Thrown)) (flow : Option Thrown) : Option (State β γ δ) :=
  (Consumer.settled cfg.consumer s.consumer failure commits flow).map
    (consumed cfg { s with producing := none })

/-- `onData` after `transform` has settled: a block with data is passed to `produceEvent`. -/
def transformed (cfg : Config) (s : State β γ δ) (result : Except Thrown (TransformedBlock δ))
    (commits : List (Option Thrown)) (flow : Option Thrown) : Option (State β γ δ) :=
  match s.producing, result with
  | some _, _ => none
  | none, .error error => settled cfg s (some error) commits flow
  | none, .ok block =>
    if 0 < block.data.length then
      if s.consumer.processing.isSome then
        some { s with producing := some block, reporting := true }
      else none
    else settled cfg s none commits flow

/-- `onData` after `produceEvent` has settled. A failure is emitted and thrown by the producer. -/
def produced (cfg : Config) (s : State β γ δ) (failure : Option Thrown)
    (commits : List (Option Thrown)) (flow : Option Thrown) : Option (State β γ δ) :=
  match s.producing, s.consumer.processing with
  | some block, some a =>
    match failure with
    | some error =>
      settled cfg (onKafkaError s (KafkaError.createUnknown error true))
        (some (.base (KafkaError.createUnknown error true))) commits flow
    | none =>
      settled cfg { s with
        sent := s.sent ++ [⟨a.element.position, toString block.blockNumber, block⟩] }
        none commits flow
  | _, _ => none

/-- `onDeliveryReport`: whatever comes with a report is emitted as delivered, and the error is
not looked at. -/
def onDeliveryReport (s : State β γ δ) (input : Position) (report : Bool) : State β γ δ :=
  if report then { s with delivered := s.delivered ++ [input] } else s

/-- The failures after a report. -/
def reported (s : State β γ δ) (input : Position) : Option LibrdKafkaError → List Failure
  | none => s.failures
  | some _ => s.failures ++ [⟨input, surfaced s⟩]

/-- The Kafka client reports on one of the blocks it has taken. -/
def deliveryReport (s : State β γ δ) (i : Nat) (error : Option LibrdKafkaError) (report : Bool) :
    Option (State β γ δ) :=
  match s.sent[i]? with
  | none => none
  | some message =>
    let s := { s with
      sent := s.sent.eraseIdx i
      failures := reported s message.input error }
    some (if s.reporting then onDeliveryReport s message.input report else s)

/-- What may happen next. -/
inductive Event (β γ δ : Type) where
  /-- The client calls `start`. -/
  | start
  /-- An await of `start` or of the closed callback settles. -/
  | proceeded (i : Nat) (failure : Option Thrown)
  /-- An event of the consumer other than a start or the end of a call of `onData`. -/
  | consumer (e : Consumer.Event β γ)
  /-- `transform` settles; what `commitMessage` and `pause` or `resume` throw is used where
  `processQueue` goes on. -/
  | transformed (result : Except Thrown (TransformedBlock δ)) (commits : List (Option Thrown))
    (flow : Option Thrown)
  /-- `produceEvent` settles. -/
  | produced (failure : Option Thrown) (commits : List (Option Thrown)) (flow : Option Thrown)
  | deliveryReport (i : Nat) (error : Option LibrdKafkaError) (report : Bool)
  /-- The error event of the producer's client. -/
  | producerError (error : LibrdKafkaError)

/-- The transformer calls `start` of the consumer and ends the calls of `onData`. -/
def external : Consumer.Event β γ → Bool
  | .start | .settled .. => false
  | .connected _ | .data _ | .seeked .. | .deserialized .. | .retried .. | .clientError _
  | .disconnected | .stop | .disconnectCallback => true

/-- One event, run up to the next await. -/
def step (cfg : Config) (s : State β γ δ) : Event β γ δ → Option (State β γ δ)
  | .start => some { s with starting := s.starting ++ [⟨false, .startingProducer⟩] }
  | .proceeded i failure => proceeded s i failure
  | .consumer e =>
    if external e then (Consumer.step cfg.consumer s.consumer e).map (consumed cfg s) else none
  | .transformed result commits flow => transformed cfg s result commits flow
  | .produced failure commits flow => produced cfg s failure commits flow
  | .deliveryReport i error report => deliveryReport s i error report
  | .producerError error => some (onKafkaError s (KafkaError.convertLibError error true))

/-- The transformer's machine. -/
def machine (cfg : Config) : Machine (State β γ δ) (Event β γ δ) where
  step := step cfg

end ChainIndexer.Transformer
