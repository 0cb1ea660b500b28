import ChainIndexer.Consumer.State

/-!
# The consumer as a machine

An event is a call by the client of the library, a callback of the Kafka client
or the settling of a promise at which an activation is suspended. The event
carries every outcome the environment decides, so the runs of the machine are
all interleavings of the source's asynchronous methods.
-/

namespace ChainIndexer.Consumer

variable {β γ : Type}

/-- What may happen next. A suspended activation is named by its place in its list. -/
inductive Event (β γ : Type) where
  /-- The client calls `start` with an observer. -/
  | start
  /-- The callback of `connect`. -/
  | connected (ok : Bool)
  /-- The data event of the Kafka client. -/
  | data (m : Message β)
  /-- The callback of `seek`. -/
  | seeked (i : Nat) (failure : Option Thrown)
  /-- The decoding settles; `flow` is what `pause` or `resume` throws. -/
  | deserialized (i : Nat) (result : Except Thrown (Option γ)) (flow : Option Thrown)
  /-- A call of `observer.next` made by `retryPromise` settles. -/
  | retried (i : Nat) (failure : Option Thrown)
  /-- The await of `processQueue` settles; `commits` is what each `commitMessage` throws. -/
  | settled (failure : Option Thrown) (commits : List (Option Thrown)) (flow : Option Thrown)
  /-- The error event of the Kafka client. -/
  | clientError (error : LibrdKafkaError)
  /-- The disconnected event of the Kafka client. -/
  | disconnected
  /-- The client calls `stop`. -/
  | stop
  /-- The callback of `disconnect`. -/
  | disconnectCallback

/-- `start` up to its await: a fresh observer and one set of listeners. -/
def start (s : State β γ) : State β γ :=
  { s with
    listening := true
    observer := true
    consumerConnecting := s.consumerConnecting || !s.consumerConnected }

/-- The callback of `connect`. A new connection of the client has nothing paused. -/
def connected (s : State β γ) (ok : Bool) : Option (State β γ) :=
  if s.consumerConnecting then
    some (if ok then { s with
        consumerConnecting := false
        consumerConnected := true
        brokerMetadata := true
        paused := [] }
      else { s with consumerConnecting := false })
  else none

/-- `onData` up to its first await: a message below the start offset is only sought past. -/
def onData (cfg : Config) (s : State β γ) (m : Message β) : Option (State β γ) :=
  if s.listening then
    if m.position.offset < cfg.startOffset m.position.topic then
      some (if s.seekCalled then s else { s with seeking := s.seeking ++ [m] })
    else some { s with
      arriving := s.arriving ++ [m]
      delivered := s.delivered ++ [m.position] }
  else none

/-- The end of an `onData` that called `seek`. -/
def seeked (s : State β γ) (i : Nat) (failure : Option Thrown) : Option (State β γ) :=
  match s.seeking[i]? with
  | none => none
  | some _ =>
    let s := { s with seeking := s.seeking.eraseIdx i }
    some (match failure with
      | none => { s with seekCalled := true }
      | some error => onError s (KafkaError.createUnknown error false))

/-- A tombstone is never decoded, a value decodes to a value or fails. -/
def admits (m : Message β) : Except Thrown (Option γ) → Bool
  | .ok none => m.value.isNone
  | .ok (some _) => m.value.isSome
  | .error _ => m.value.isSome

/-- Queue a decoded message: `this.queue.enqueue(this.enqueue(message))`. -/
def push (cfg : Config) (s : State β γ) (m : Message γ) : State β γ :=
  { (enqueue cfg s m).2 with
    queue := s.queue ++ [(enqueue cfg s m).1]
    entered := s.entered ++ [m.position] }

/-- Pushing appends an element with the message, and may call `observer.next`. -/
theorem push_eq (cfg : Config) (s : State β γ) (m : Message γ) :
    ∃ element nextCalls promises, element.message = m ∧
      push cfg s m = { s with
        queue := s.queue ++ [element]
        entered := s.entered ++ [m.position]
        nextCalls := nextCalls
        promises := promises } := by
  obtain ⟨hm, nextCalls, promises, h⟩ := enqueue_eq cfg s m
  refine ⟨(enqueue cfg s m).1, nextCalls, promises, hm, ?_⟩
  unfold push
  rw [h]

/-- The activation of `onData` at place `i` of the list has left its await. -/
def decoded (s : State β γ) (i : Nat) : State β γ :=
  { s with arriving := s.arriving.eraseIdx i }

/-- The rest of `onData` after its message is decoded. -/
def deserialized (cfg : Config) (s : State β γ) (i : Nat)
    (result : Except Thrown (Option γ)) (flow : Option Thrown) : Option (State β γ) :=
  match s.arriving[i]? with
  | none => none
  | some m =>
    if admits m result then
      match result with
      | .error error => some (onError { decoded s i with dropped := s.dropped ++ [m.position] }
          (KafkaError.createUnknown error false))
      | .ok value =>
        match handleBackpressure cfg (push cfg (decoded s i) ⟨m.position, value⟩) m.position
            flow with
        | none => none
        | some (s, none) => some (processQueue s)
        | some (s, some error) => some (onError s (KafkaError.createUnknown error false))
    else none

/-- The promise of a call of `retryPromise` moves on. -/
def setPromise (s : State β γ) (i : Nat) (m : Message γ) (errorCount : Nat)
    (settlement : Settlement) : State β γ :=
  { s with promises := s.promises.set i ⟨m, errorCount, settlement⟩ }

/-- A call of `observer.next` made by `retryPromise` settles: retry, or settle the promise. -/
def retried (cfg : Config) (s : State β γ) (i : Nat) (failure : Option Thrown) :
    Option (State β γ) :=
  match s.promises[i]? with
  | some ⟨m, errorCount, .pending⟩ =>
    some (match failure with
      | none => { setPromise s i m errorCount .fulfilled with
          resolved := s.resolved ++ [m.position] }
      | some error =>
        if cfg.maxRetries ≤ errorCount ∨ error.isFatalBase = true then
          setPromise s i m errorCount (.rejected (KafkaError.createUnknown error false))
        else { setPromise s i m (errorCount + 1) .pending with
          nextCalls := s.nextCalls ++ [m.position] })
  | _ => none

/-- The outcome fits the promise at which the activation is suspended. -/
def outcomeOf (s : State β γ) (element : QueueObject γ) (failure : Option Thrown) : Bool :=
  match element.promise with
  | none => true
  | some i =>
    match s.promises[i]? with
    | some ⟨_, _, .fulfilled⟩ => failure.isNone
    | some ⟨_, _, .rejected error⟩ => decide (failure = some (.base error))
    | _ => false

/-- The iteration gives up: retries are exhausted or the error is a fatal base error. -/
def givesUp (cfg : Config) (a : Activation γ) (error : Thrown) : Bool :=
  decide (cfg.maxRetries < a.errorCount + 1) || error.isFatalBase

/-- The catch block of `processQueue`: it returns, the flag still set, or goes round again. -/
def caught (cfg : Config) (s : State β γ) (a : Activation γ) (error : Thrown) : State β γ :=
  if givesUp cfg a error then
    { onError s (KafkaError.createUnknown error false) with processing := none }
  else runQueue s (a.errorCount + 1)

/-- The await resolved, and `commitMessage` is about to be called. -/
def resolve (s : State β γ) (a : Activation γ) : State β γ :=
  { s with
    resolved := match a.element.promise with
      | none => s.resolved ++ [a.element.position]
      | some _ => s.resolved
    handled := s.handled ++ [a.element.position] }

/-- Commit the message read with `front` and shift the queue. -/
def succeed (cfg : Config) (s : State β γ) (a : Activation γ) (commits : List (Option Thrown)) :
    State β γ :=
  let s := safeCommitMessage cfg (resolve s a) a.element.position commits 0
  { s with queue := s.queue.tail }

/-- The rest of an iteration of `processQueue`, up to the next await. -/
def settled (cfg : Config) (s : State β γ) (failure : Option Thrown)
    (commits : List (Option Thrown)) (flow : Option Thrown) : Option (State β γ) :=
  match s.processing with
  | none => none
  | some a =>
    if outcomeOf s a.element failure then
      match failure with
      | some error => some (caught cfg s a error)
      | none =>
        match handleBackpressure cfg (succeed cfg s a commits) a.element.position flow with
        | none => none
        | some (s, none) => some (runQueue s 0)
        | some (s, some error) => some (caught cfg s a error)
    else none

/-- The callback of `disconnect`; an error is only logged. -/
def disconnectCallback (s : State β γ) : Option (State β γ) :=
  if s.disconnects = 0 then none
  else some (onDisconnect { s with disconnects := s.disconnects - 1 })

/-- One event, run up to the next await. -/
def step (cfg : Config) (s : State β γ) : Event β γ → Option (State β γ)
  | .start => some (start s)
  | .connected ok => connected s ok
  | .data m => onData cfg s m
  | .seeked i failure => seeked s i failure
  | .deserialized i result flow => deserialized cfg s i result flow
  | .retried i failure => retried cfg s i failure
  | .settled failure commits flow => settled cfg s failure commits flow
  | .clientError error =>
    if s.listening then some (onError s (KafkaError.convertLibError error false)) else none
  | .disconnected => if s.listening then some (onDisconnect s) else none
  | .stop => some (Consumer.stop s)
  | .disconnectCallback => disconnectCallback s

/-- The consumer's machine. -/
def machine (cfg : Config) : Machine (State β γ) (Event β γ) where
  step := step cfg

end ChainIndexer.Consumer
