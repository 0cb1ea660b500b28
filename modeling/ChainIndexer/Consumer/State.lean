import ChainIndexer.Core.Machine
import ChainIndexer.Native.Errors

/-!
# The consumer between two awaits

A state holds the fields of `AbstractConsumer`, the activations of its
asynchronous methods that are suspended at an await, and a record of what the
observer and the client have been told. Each function below runs the source up
to its next await. `processQueue` returns at once while `queueIsProcessing` is
set, so one slot holds its activation.
-/

namespace ChainIndexer.Consumer

/-- The coordinates of a Kafka message. -/
structure Position where
  topic : String
  partition : Nat
  offset : Nat
  deriving DecidableEq, Repr

/-- Offsets are only comparable within one partition of one topic. -/
def Position.SamePartition (a b : Position) : Prop :=
  a.topic = b.topic ∧ a.partition = b.partition

instance (a b : Position) : Decidable (a.SamePartition b) :=
  inferInstanceAs (Decidable (_ ∧ _))

/-- A message with its raw or its decoded value; a tombstone has none. -/
structure Message (β : Type) where
  position : Position
  value : Option β
  deriving DecidableEq, Repr

/-- The subclass that implements `enqueue`. -/
inductive Mode where
  | synchronous
  | asynchronous
  deriving DecidableEq, Repr

/-- The settings the constructor keeps for itself. -/
structure Config where
  mode : Mode
  maxBufferLength : Nat
  maxRetries : Nat
  /-- `startOffsets[topic] || 0`. -/
  startOffset : String → Nat

/-- The constructor's defaults: a buffer length of zero counts as absent, zero retries do not. -/
def Config.create (mode : Mode) (maxBufferLength maxRetries : Option Nat)
    (startOffsets : List (String × Nat)) : Config where
  mode := mode
  maxBufferLength := match maxBufferLength with
    | none | some 0 => 100
    | some length => length
  maxRetries := maxRetries.getD 10
  startOffset topic := (startOffsets.lookup topic).getD 0

/-- An element of the internal queue; the asynchronous consumer adds the number of its promise. -/
structure QueueObject (γ : Type) where
  message : Message γ
  promise : Option Nat
  deriving DecidableEq, Repr

/-- The coordinates of the queued message. -/
abbrev QueueObject.position {γ : Type} (element : QueueObject γ) : Position :=
  element.message.position

/-- How a promise of `retryPromise` stands. -/
inductive Settlement where
  | pending
  | fulfilled
  | rejected (error : BaseError)
  deriving DecidableEq, Repr

/-- One call of `retryPromise`, with the failures of `observer.next` counted so far. -/
structure RetryPromise (γ : Type) where
  message : Message γ
  errorCount : Nat
  settlement : Settlement
  deriving DecidableEq, Repr

/-- An activation of `processQueue`, suspended at the element it read with `front`. -/
structure Activation (γ : Type) where
  element : QueueObject γ
  errorCount : Nat
  deriving DecidableEq, Repr

/-- The consumer object, its suspended activations and what the outside has seen. -/
structure State (β γ : Type) where
  consumerPaused : Bool := false
  consumerConnected : Bool := false
  consumerConnecting : Bool := false
  /-- Whether metadata of the broker is stored. -/
  brokerMetadata : Bool := false
  queueIsProcessing : Bool := false
  seekCalled : Bool := false
  /-- Whether an observer has been set. -/
  observer : Bool := false
  /-- Whether the error, data and disconnect listeners of `start` are registered. -/
  listening : Bool := false
  queue : List (QueueObject γ) := []
  /-- The messages of the activations of `onData` suspended at `seek`. -/
  seeking : List (Message β) := []
  /-- The messages of the activations of `onData` suspended at `deserialize`, in order of
  arrival. -/
  arriving : List (Message β) := []
  processing : Option (Activation γ) := none
  promises : List (RetryPromise γ) := []
  /-- Calls of `disconnect` whose callback has not run. -/
  disconnects : Nat := 0
  /-- Partitions paused on the present connection: told to pause and not to resume. -/
  paused : List (String × Nat) := []
  /-- Messages handed to `onData`, those below the start offset left out. -/
  delivered : List Position := []
  /-- Messages in the order they entered the queue. -/
  entered : List Position := []
  /-- Elements awaited by `processQueue`, one entry for each await. -/
  awaited : List Position := []
  /-- Calls of `observer.next`. -/
  nextCalls : List Position := []
  /-- Messages for which `observer.next` has resolved. -/
  resolved : List Position := []
  /-- Messages for which `commitMessage` has been called. -/
  handled : List Position := []
  /-- Calls of `commitMessage` that returned. -/
  committed : List Position := []
  /-- Messages that failed to deserialise or were cleared from the queue. -/
  dropped : List Position := []
  /-- Calls of `observer.error`. -/
  errors : List BaseError := []
  /-- Calls of `observer.closed`. -/
  closed : Nat := 0

variable {β γ : Type}

/-- The object the constructor returns. -/
def State.init : State β γ := {}

/-- `queue.clear()`. -/
def clear (s : State β γ) : State β γ :=
  { s with queue := [], dropped := s.dropped ++ s.queue.map (·.position) }

/-- `stop`: the client disconnects later and then runs the callback. -/
def stop (s : State β γ) : State β γ := { s with disconnects := s.disconnects + 1 }

/-- `onError`: a fatal error clears the queue and stops the consumer; an observer is told. -/
def onError (s : State β γ) (error : BaseError) : State β γ :=
  let s := if error.isFatal then stop (clear s) else s
  { s with errors := if s.observer then s.errors ++ [error] else s.errors }

/-- `onDisconnect`, called by the disconnect callback and by the disconnected event. -/
def onDisconnect (s : State β γ) : State β γ :=
  if s.consumerConnected || s.brokerMetadata || !s.queue.isEmpty then
    { clear s with
      brokerMetadata := false
      consumerConnected := false
      closed := if s.observer then s.closed + 1 else s.closed
      listening := false }
  else s

/-- The length of the buffer asks for the consumer to be paused. -/
def asksPause (cfg : Config) (s : State β γ) : Bool :=
  !s.consumerPaused && decide (cfg.maxBufferLength ≤ s.queue.length)

/-- The length of the buffer asks for the consumer to be resumed. -/
def asksResume (cfg : Config) (s : State β γ) : Bool :=
  s.consumerPaused && decide (s.queue.length < cfg.maxBufferLength)

/-- `handleBackpressure`, with what `pause` or `resume` throws. It is refused where a
throw is given and neither is called. -/
def handleBackpressure (cfg : Config) (s : State β γ) (p : Position) (flow : Option Thrown) :
    Option (State β γ × Option Thrown) :=
  if asksPause cfg s then
    match flow with
    | some error => some (s, some error)
    | none => some ({ s with
        consumerPaused := true, paused := s.paused ++ [(p.topic, p.partition)] }, none)
  else if asksResume cfg s then
    match flow with
    | some error => some (s, some error)
    | none => some ({ s with
        consumerPaused := false, paused := s.paused.filter (· ≠ (p.topic, p.partition)) }, none)
  else if flow.isNone then some (s, none) else none

/-- Only the pause has moved. -/
def Throttled (s t : State β γ) : Prop :=
  ∃ consumerPaused paused, t = { s with consumerPaused := consumerPaused, paused := paused }

/-- Back-pressure only moves the pause, and reports the given throw. -/
theorem handleBackpressure_eq {cfg : Config} {s t : State β γ} {p : Position}
    {flow failure : Option Thrown} (h : handleBackpressure cfg s p flow = some (t, failure)) :
    failure = flow ∧ Throttled s t := by
  unfold handleBackpressure at h
  split at h
  · cases flow <;> cases h <;> exact ⟨rfl, _, _, rfl⟩
  · split at h
    · cases flow <;> cases h <;> exact ⟨rfl, _, _, rfl⟩
    · cases flow <;> cases h
      exact ⟨rfl, _, _, rfl⟩

/-- Where nothing throws, back-pressure is never refused. -/
theorem handleBackpressure_none (cfg : Config) (s : State β γ) (p : Position) :
    ∃ t, handleBackpressure cfg s p none = some (t, none) := by
  unfold handleBackpressure
  split
  · exact ⟨_, rfl⟩
  · split
    · exact ⟨_, rfl⟩
    · exact ⟨_, rfl⟩

/-- `safeCommitMessage`, with what each call of `commitMessage` throws. -/
def safeCommitMessage (cfg : Config) (s : State β γ) (p : Position) :
    List (Option Thrown) → Nat → State β γ
  | [], _ | none :: _, _ => { s with committed := s.committed ++ [p] }
  | some error :: attempts, errorCount =>
    if cfg.maxRetries ≤ errorCount then onError s (KafkaError.createUnknown error false)
    else safeCommitMessage cfg s p attempts (errorCount + 1)

/-- Committing succeeds in the end or hands an error to `onError`. -/
theorem safeCommitMessage_eq (cfg : Config) (s : State β γ) (p : Position)
    (attempts : List (Option Thrown)) (errorCount : Nat) :
    safeCommitMessage cfg s p attempts errorCount = { s with committed := s.committed ++ [p] } ∨
      ∃ error, safeCommitMessage cfg s p attempts errorCount = onError s error := by
  induction attempts generalizing errorCount with
  | nil => exact Or.inl rfl
  | cons attempt attempts ih =>
    cases attempt with
    | none => exact Or.inl rfl
    | some error =>
      rw [safeCommitMessage]
      split
      · exact Or.inr ⟨_, rfl⟩
      · exact ih (errorCount + 1)

/-- The head of the loop of `processQueue`: read the front element and await it, or end. -/
def runQueue (s : State β γ) (errorCount : Nat) : State β γ :=
  match s.queue with
  | [] => { s with queueIsProcessing := false, processing := none }
  | element :: _ =>
    { s with
      processing := some ⟨element, errorCount⟩
      awaited := s.awaited ++ [element.position]
      nextCalls := match element.promise with
        | none => s.nextCalls ++ [element.position]
        | some _ => s.nextCalls }

/-- With nothing queued, the loop ends. -/
theorem runQueue_nil {s : State β γ} (h : s.queue = []) (errorCount : Nat) :
    runQueue s errorCount = { s with queueIsProcessing := false, processing := none } := by
  rw [runQueue, h]

/-- Otherwise it reads the front of the queue. -/
theorem runQueue_cons {s : State β γ} {element : QueueObject γ} {rest : List (QueueObject γ)}
    (h : s.queue = element :: rest) (errorCount : Nat) :
    runQueue s errorCount = { s with
      processing := some ⟨element, errorCount⟩
      awaited := s.awaited ++ [element.position]
      nextCalls := match element.promise with
        | none => s.nextCalls ++ [element.position]
        | some _ => s.nextCalls } := by
  rw [runQueue, h]

/-- `processQueue` up to its first await. Without an observer it throws, which nobody awaits. -/
def processQueue (s : State β γ) : State β γ :=
  if s.observer && !s.queueIsProcessing then runQueue { s with queueIsProcessing := true } 0
  else s

/-- The abstract `enqueue`: the asynchronous consumer calls `observer.next` right away. -/
def enqueue (cfg : Config) (s : State β γ) (m : Message γ) : QueueObject γ × State β γ :=
  match cfg.mode with
  | .synchronous => (⟨m, none⟩, s)
  | .asynchronous =>
    (⟨m, some s.promises.length⟩,
      if s.observer then { s with
        nextCalls := s.nextCalls ++ [m.position]
        promises := s.promises ++ [⟨m, 0, .pending⟩] }
      else { s with promises := s.promises ++ [⟨m, 0, .fulfilled⟩] })

/-- Enqueueing touches nothing but the calls and promises of `retryPromise`. -/
theorem enqueue_eq (cfg : Config) (s : State β γ) (m : Message γ) :
    (enqueue cfg s m).1.message = m ∧ ∃ nextCalls promises,
      (enqueue cfg s m).2 = { s with nextCalls := nextCalls, promises := promises } := by
  unfold enqueue
  cases cfg.mode with
  | synchronous => exact ⟨rfl, _, _, rfl⟩
  | asynchronous =>
    refine ⟨rfl, ?_⟩
    dsimp only
    split
    · exact ⟨_, _, rfl⟩
    · exact ⟨_, _, rfl⟩

end ChainIndexer.Consumer
