import ChainIndexer.Core.Machine
import ChainIndexer.Native.Errors
import ChainIndexer.Native.Blocks

/-!
# The state of a block subscription between two awaits

The object is shared by every activation of its methods: the calls of `subscribe`,
the loop of `backFillBlocks`, the activations of `addWorkerJobToQueue`, the one of
`processQueue`, the timers of `checkIfLive` and the handlers of the log
subscriptions. Each of them is suspended at one await, and one queue of promised
blocks feeds both loops.
-/

namespace ChainIndexer.Subscription

/-- The settings of the subscription. -/
structure Config where
  /-- How many workers there are. -/
  workers : Nat
  blockDelay : Nat

/-- The fields of a log event that are read; a number that is not finite is absent. -/
structure Log where
  blockHash : Option String
  blockNumber : Option Int
  deriving DecidableEq, Repr

/-- The two loops that shift jobs from the queue and pass blocks on. -/
inductive Source where
  | processQueue
  | backFillBlocks
  deriving DecidableEq, Repr

/-- A promise of `getBlockFromWorker`. -/
structure Job where
  id : Nat
  height : Int
  /-- The loop it was queued for: a log event queues for `processQueue`. -/
  source : Source
  deriving DecidableEq, Repr

/-- What awaits a call of `subscribe`. -/
inductive Caller where
  | client
  | backFillBlocks
  | checkIfLive
  deriving DecidableEq, Repr

/-- A suspended activation, at the await where it is. -/
inductive Task where
  /-- `subscribe`, which asks for the last finalized block. -/
  | finalized (caller : Caller) (startBlock : Nat)
  /-- `subscribe`, which asks for the latest block. -/
  | latest (caller : Caller) (startBlock : Nat)
  /-- `subscribe`, which sleeps because the start block is not produced yet. -/
  | asleep (caller : Caller) (startBlock : Nat)
  /-- The loop of `backFillBlocks`, which awaits a job shifted from the queue. -/
  | backFill (backFillingId : Nat) (job : Job)
  /-- `unsubscribe` for the client, while the log subscription is being closed. -/
  | unsubscribing (subscription : Option Nat)
  /-- The callback of `checkIfLive`, while the log subscription is being closed. -/
  | restarting (subscription : Option Nat)
  deriving DecidableEq, Repr

/-- A suspended activation of `addWorkerJobToQueue`. -/
structure Assignment where
  backFillingId : Nat
  /-- The job it has queued. -/
  job : Nat
  /-- Whether it sleeps because the queue is full; otherwise it awaits the job. -/
  asleep : Bool
  deriving DecidableEq, Repr

/-- A timer of `checkIfLive`. -/
structure Timer where
  id : Nat
  lastBlockHash : String
  deriving DecidableEq, Repr

/-- `lastEmittedBlock`. -/
structure EmittedBlock where
  number : Nat
  hash : String
  deriving DecidableEq, Repr

/-- A call of the observer. -/
inductive Call where
  | next (source : Source) (block : Block)
  /-- The re-org that `processQueue` reports instead of this block. -/
  | reorg (block : Block)
  | error (error : BaseError)
  deriving DecidableEq, Repr

/-- The error object of a reported re-org. -/
def reorgEncountered : BaseError :=
  .create "Chain reorg encountered" Codes.reorgEncountered true (some "Chain re org not handled")
    "block_subscription"

/-- The error passed to the observer by a call, if it passes one. -/
def Call.toError : Call → Option BaseError
  | .next _ _ => none
  | .reorg _ => some reorgEncountered
  | .error raised => some raised

/-- The object and its suspended activations. -/
structure State where
  /-- The log subscription that `unsubscribe` closes. -/
  subscription : Option Nat := none
  /-- Whether an observer has been set. -/
  observer : Bool := false
  lastBlockHash : String := ""
  processingQueue : Bool := false
  fatalError : Bool := false
  lastFinalizedBlock : Int := 0
  nextBlock : Nat := 0
  activeBackFillingId : Option Nat := none
  checkIfLiveTimeout : Option Nat := none
  lastReceivedBlockNumber : Int := 0
  lastEmittedBlock : Option EmittedBlock := none
  queue : List Job := []
  /-- How many jobs, log subscriptions and timers have been created. -/
  jobs : Nat := 0
  subscriptions : Nat := 0
  timersSet : Nat := 0
  /-- The jobs the workers have answered. -/
  answered : List Nat := []
  /-- The log subscriptions whose handlers are attached. -/
  listening : List Nat := []
  timers : List Timer := []
  tasks : List Task := []
  assignments : List Assignment := []
  /-- The job that `processQueue` awaits. -/
  processing : Option Job := none
  /-- Whether `unsubscribe` has dropped jobs since `subscribe` last reset the object. -/
  dropped : Bool := false
  /-- The blocks `processQueue` has got from the workers. -/
  seen : List Block := []
  /-- The calls of the observer. -/
  calls : List Call := []

/-- A new object. -/
def State.init : State := {}

/-- `enqueue(getBlockFromWorker(height))`. -/
def request (s : State) (height : Int) (source : Source) : State :=
  { s with jobs := s.jobs + 1, queue := s.queue ++ [⟨s.jobs, height, source⟩] }

/-- The head of the loop of `processQueue`: shift a job and await it, or end. -/
def runQueue (s : State) : State :=
  match s.queue with
  | job :: rest =>
    if !s.fatalError && s.observer then { s with queue := rest, processing := some job }
    else { s with processing := none, processingQueue := false }
  | [] => { s with processing := none, processingQueue := false }

/-- `processQueue` up to its first await. -/
def processQueue (s : State) : State := runQueue { s with processingQueue := true }

/-- The heights between the last received block, which is never below -1, and this one. -/
def missedBlocks (s : State) (blockNumber : Int) : List Int :=
  (List.range' (s.lastReceivedBlockNumber + 1).toNat
    (blockNumber - s.lastReceivedBlockNumber - 1).toNat).map Nat.cast

/-- `enqueueMissedBlocks`; where `hasMissedBlocks` does not hold there is none. -/
def enqueueMissedBlocks (s : State) (blockNumber : Int) : State :=
  (missedBlocks s blockNumber).foldl (fun s height => request s height .processQueue) s

/-- `isReOrgedMissed`. -/
def isReOrgedMissed (s : State) (block : Block) : Bool :=
  match s.lastEmittedBlock with
  | some last => decide (last.number < block.number) && decide (last.hash ≠ block.parentHash)
  | none => false

/-- `addWorkerJobToQueue` up to its first await. -/
def addWorkerJobToQueue (s : State) (blockNumber backFillingId : Nat) : State :=
  let job := s.jobs
  let s := request s blockNumber .backFillBlocks
  { s with assignments := s.assignments ++
      [⟨backFillingId, job, decide (2500 ≤ s.queue.length)⟩] }

/-- A call of `subscribe` up to its first await. -/
def subscribe (s : State) (caller : Caller) (startBlock : Nat) : State :=
  { s with tasks := s.tasks ++ [.finalized caller startBlock] }

/-- The head of the loop of `backFillBlocks`: shift a job and await it, or subscribe again. -/
def runBackFill (s : State) (backFillingId : Nat) : State :=
  match s.queue with
  | job :: rest =>
    if s.nextBlock ≤ s.lastFinalizedBlock then
      { s with queue := rest, tasks := s.tasks ++ [.backFill backFillingId job] }
    else subscribe { s with activeBackFillingId := none } .backFillBlocks s.nextBlock
  | [] => subscribe { s with activeBackFillingId := none } .backFillBlocks s.nextBlock

/-- `backFillBlocks` up to its first await; the id is what `Date.now()` reads. -/
def backFillBlocks (cfg : Config) (s : State) (backFillingId : Nat) : State :=
  let s := { s with activeBackFillingId := some backFillingId }
  let s := (List.range cfg.workers).foldl
    (fun s i => addWorkerJobToQueue s (s.nextBlock + i) backFillingId) s
  runBackFill s backFillingId

/-- `checkIfLive`: set a timer that remembers the last block hash. -/
def checkIfLive (s : State) : State :=
  { s with
    timersSet := s.timersSet + 1
    checkIfLiveTimeout := some s.timersSet
    timers := s.timers ++ [⟨s.timersSet, s.lastBlockHash⟩] }

/-- The rest of `subscribe` in live mode. -/
def subscribeLogs (s : State) : State :=
  { checkIfLive s with
    subscriptions := s.subscriptions + 1
    subscription := some s.subscriptions
    listening := s.listening ++ [s.subscriptions] }

/-- `unsubscribe` up to its await: the handlers of the log subscription are removed. -/
def unsubscribe (s : State) : State :=
  { s with
    activeBackFillingId := none
    queue := []
    dropped := s.dropped || !s.queue.isEmpty
    timers := s.timers.filter fun timer => s.checkIfLiveTimeout ≠ some timer.id
    listening := s.listening.filter fun id => s.subscription ≠ some id }

end ChainIndexer.Subscription
