import ChainIndexer.Subscription.BackFill

/-!
# Requests and answers of the workers

A worker is a thread that gets messages with a block number and posts one message back for each.
`getBlockFromWorker` registers a listener for every request it posts, and every message of the
worker reaches all of them. What becomes of the promises is the business of the subscription,
which is the machine underneath.
-/

namespace ChainIndexer.Workers

open Subscription (Job)

/-- A thread: its place among the workers, and whether it replaces one that has exited. -/
structure Worker where
  id : Nat
  replaces : Bool
  deriving DecidableEq, Repr

/-- How the promise of a request is settled. -/
inductive Settlement where
  /-- By the message that a worker has posted for this request. -/
  | message (request : Nat) (result : Except Thrown Block)
  /-- By an error event of the worker. -/
  | failed (raised : Thrown)
  deriving DecidableEq

/-- What the await of the promise gives: a block, or the error in its place. -/
def Settlement.result : Settlement → Except Thrown Block
  | .message _ result => result
  | .failed raised => .error raised

/-- A call of `getBlockFromWorker`. -/
structure Request where
  blockNumber : Int
  workerId : Nat
  /-- The worker it was posted to, if there is one at that place. -/
  worker : Option Worker
  /-- What `Date.now()` read. -/
  time : Nat
  /-- Whether the worker has posted its message. -/
  answered : Bool := false
  /-- The promise; its listeners are registered until it is settled. -/
  settled : Option Settlement := none
  deriving DecidableEq

/-- `Date.now() + blockNumber`. -/
def Request.callBackId (request : Request) : Int := request.time + request.blockNumber

/-- A subscription with its workers. -/
structure State where
  subscription : Subscription.State := .init
  /-- The clock, in milliseconds. -/
  now : Nat := 0
  /-- The requests, by the number of their job. -/
  requests : List Request := []
  /-- The places whose first worker has exited. -/
  exited : List Nat := []

/-- A new subscription. -/
def State.init : State := {}

/-- The worker at a place. -/
def workerAt (cfg : Subscription.Config) (s : State) (workerId : Nat) : Option Worker :=
  if workerId < cfg.workers then some ⟨workerId, decide (workerId ∈ s.exited)⟩ else none

/-- The jobs that some activation awaits, and the queued ones. -/
def promised (s : Subscription.State) : List Job :=
  s.processing.toList ++ Subscription.held s

/-- The calls of `getBlockFromWorker` that one event makes. -/
def asked (s t : Subscription.State) : List Job :=
  (promised t).filter fun job => s.jobs ≤ job.id

/-- The worker that the call in this place of an event is made with: the next one for each job
that back filling starts with, the worker of the job before for the later ones, and otherwise the
first. -/
def workerIdFor (s : State) (place : Nat) : Subscription.Event → Nat
  | .latest .. => place
  | .assigned i =>
    (((s.subscription.assignments[i]?).bind fun assignment =>
      s.requests[assignment.job]?).map Request.workerId).getD 0
  | _ => 0

/-- The calls of `getBlockFromWorker` post their requests. -/
def posted (cfg : Subscription.Config) (s : State) (e : Subscription.Event)
    (t : Subscription.State) : List Request :=
  (asked s.subscription t).mapIdx fun place job =>
    let workerId := workerIdFor s place e
    { blockNumber := job.height
      workerId := workerId
      worker := workerAt cfg s workerId
      time := s.now }

/-- The await of a job ends as its promise is settled. -/
def Gives (s : State) (job : Option Job) (result : Except Thrown Block) : Prop :=
  ∀ awaited ∈ job, ((s.requests[awaited.id]?).bind Request.settled).map Settlement.result =
    some result

instance (s : State) (job : Option Job) (result : Except Thrown Block) :
    Decidable (Gives s job result) := inferInstanceAs (Decidable (∀ awaited ∈ job, _ = _))

/-- The event of the subscription agrees with the promises and with the clock. -/
def Agrees (s : State) : Subscription.Event → Prop
  | .answer _ => False
  | .latest _ now _ => now = s.now
  | .processed result => Gives s s.subscription.processing result
  | .backFilled i result =>
    Gives s ((s.subscription.tasks[i]?).bind Subscription.Task.job) result
  | _ => True

instance (s : State) : (e : Subscription.Event) → Decidable (Agrees s e)
  | .answer _ => .isFalse id
  | .latest _ now _ => inferInstanceAs (Decidable (now = s.now))
  | .processed result => inferInstanceAs (Decidable (Gives s s.subscription.processing result))
  | .backFilled i result => inferInstanceAs (Decidable
      (Gives s ((s.subscription.tasks[i]?).bind Subscription.Task.job) result))
  | .subscribe _ | .unsubscribe | .finalized .. | .woken _ | .unsubscribed .. | .timeout _
  | .data .. | .failed .. | .assigned _ => .isTrue trivial

/-- The listener `onMessage` of a request, for a message of this worker. -/
def onMessage (worker : Worker) (callBackId : Int) (message : Settlement) (request : Request) :
    Request :=
  if request.settled = none ∧ request.worker = some worker ∧ request.callBackId = callBackId then
    { request with settled := some message }
  else request

/-- The listener `onError` of a request, for an error event of this worker. -/
def onError (worker : Worker) (error : Thrown) (request : Request) : Request :=
  if request.settled = none ∧ request.worker = some worker then
    { request with settled := some (.failed error) }
  else request

/-- Whether a listener settles the request in this place. -/
def settles (s : State) (listener : Request → Request) (r : Nat) : Bool :=
  (s.requests[r]?).any fun request =>
    request.settled.isNone && (listener request).settled.isSome

/-- An event of a worker reaches the listener of every request. -/
def emit (s : State) (listener : Request → Request) : State :=
  { s with
    requests := s.requests.map listener
    subscription := { s.subscription with
      answered := s.subscription.answered ++
        (List.range s.requests.length).filter (settles s listener) } }

/-- What may happen next. A request is named by its job. -/
inductive Event where
  | subscription (e : Subscription.Event)
  | tick (now : Nat)
  /-- A worker posts its message for a request. -/
  | message (request : Nat) (result : Except Thrown Block)
  | error (worker : Worker) (error : Thrown)
  | exit (workerId : Nat)

/-- A worker that has not exited. -/
def Alive (s : State) (worker : Worker) : Prop := worker.replaces = true ∨ worker.id ∉ s.exited

instance (s : State) (worker : Worker) : Decidable (Alive s worker) :=
  inferInstanceAs (Decidable (_ ∨ _))

/-- A worker posts the message for a request that it has not answered. -/
def message (s : State) (r : Nat) (result : Except Thrown Block) : Option State :=
  match s.requests[r]? with
  | none => none
  | some request => match request.worker with
    | none => none
    | some worker =>
      if request.answered = false ∧ Alive s worker then
        some (emit { s with requests := s.requests.set r { request with answered := true } }
          (onMessage worker request.callBackId (.message r result)))
      else none

/-- One event, run up to the next await. -/
def step (cfg : Subscription.Config) (s : State) : Event → Option State
  | .subscription e =>
    if Agrees s e then (Subscription.step cfg s.subscription e).map fun t => { s with
      subscription := t
      requests := s.requests ++ posted cfg s e t }
    else none
  | .tick now => if s.now ≤ now then some { s with now := now } else none
  | .message r result => message s r result
  | .error worker error =>
    if Alive s worker then some (emit s (onError worker error)) else none
  | .exit workerId =>
    if workerId < cfg.workers ∧ workerId ∉ s.exited then
      some { s with exited := workerId :: s.exited }
    else none

/-- The machine of a subscription with its workers. -/
def machine (cfg : Subscription.Config) : Machine State Event where
  step := step cfg

end ChainIndexer.Workers
