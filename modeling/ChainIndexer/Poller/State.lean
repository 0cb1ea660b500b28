import ChainIndexer.Core.Machine
import ChainIndexer.Native.Errors
import ChainIndexer.Native.Blocks

/-!
# The Erigon poller between two awaits

Each call of `subscribe` starts an activation of `startBlockPolling`, which runs
for as long as the object carries its polling id and queues one job for each new
height. One activation of `processQueue` awaits the jobs in turn. Both outlive
the session that started them. The workers may answer in any order: an answer is
seen when the await of its job settles.
-/

namespace ChainIndexer.Poller

/-- The settings the poller reads. -/
structure Config where
  /-- How many workers there are. -/
  workers : Nat

/-- The await at which an activation of `startBlockPolling` is suspended. -/
inductive Point where
  /-- The call of `getLatestBlockNumber`. -/
  | latest
  /-- The sleep after an answer that brought nothing new. -/
  | asleep
  /-- The sleep while the queue is full, inside the loop up to this latest block. -/
  | full (latestBlockNumber : Nat)
  deriving DecidableEq, Repr

/-- An activation of `startBlockPolling`. -/
structure Loop where
  pollingId : Nat
  /-- `lastBlockNumber + 1`. -/
  next : Nat
  point : Point
  deriving DecidableEq, Repr

/-- The await at which the activation of `processQueue` is suspended. -/
inductive Activation where
  /-- The job for this height, already shifted from the queue. -/
  | job (height : Nat)
  /-- The `unsubscribe` it calls when it has found a re-org. -/
  | unsubscribing
  deriving DecidableEq, Repr

/-- An error the observer is told of. -/
inductive Raised where
  /-- A re-org found by `processQueue`. -/
  | reorg
  | other (error : BaseError)
  deriving DecidableEq, Repr

/-- The object passed to `observer.error`. -/
def Raised.error : Raised → BaseError
  | .reorg => .create "Reorg Encountered" Codes.reorgEncountered true (some "reorg encountered")
      "local"
  | .other error => error

/-- A block with the height it is the answer for. -/
structure Answer where
  height : Nat
  block : Block
  deriving DecidableEq, Repr

/-- The poller, its suspended activations and what the current session has seen. -/
structure State where
  pollingId : Option Nat := none
  processingQueue : Bool := false
  fatalError : Bool := false
  /-- Whether an observer has been set. -/
  observer : Bool := false
  lastSavedBlockHash : Option String := none
  /-- The heights of the queued jobs. -/
  queue : List Nat := []
  loops : List Loop := []
  processing : Option Activation := none
  /-- The start block of the session. -/
  start : Nat := 0
  /-- The blocks whose jobs settled without an error since the session began. -/
  answered : List Answer := []
  /-- The blocks passed to `observer.next` since the session began. -/
  emitted : List Answer := []
  /-- The errors passed to `observer.error` since the session began. -/
  errors : List Raised := []
  deriving DecidableEq, Repr

/-- A new poller. -/
def State.init : State := {}

/-- The head of the loop of `processQueue`: shift a job and await it, or end. -/
def runQueue (s : State) : State :=
  match s.queue with
  | height :: rest =>
    if !s.fatalError && s.observer then { s with queue := rest, processing := some (.job height) }
    else { s with processing := none, processingQueue := false }
  | [] => { s with processing := none, processingQueue := false }

/-- `processQueue` up to its first await. -/
def processQueue (s : State) : State := runQueue { s with processingQueue := true }

/-- Queue the job for a height, and process the queue unless that is being done. -/
def request (s : State) (height : Nat) : State :=
  let s := { s with queue := s.queue ++ [height] }
  if s.processingQueue then s else processQueue s

/-- The inner loop of `startBlockPolling` over that many heights: the state, the next height,
and whether the queue is full. -/
def fill (cfg : Config) : Nat → State → Nat → State × Nat × Bool
  | 0, s, next => (s, next, false)
  | heights + 1, s, next =>
    if cfg.workers * 100 ≤ s.queue.length then (s, next, true)
    else fill cfg heights (request s next) (next + 1)

/-- The activation at place `i` goes on. -/
def proceed (cfg : Config) (s : State) (i : Nat) (loop : Loop) (latestBlockNumber : Nat) :
    State :=
  let (s, next, full) := fill cfg (latestBlockNumber + 1 - loop.next) s loop.next
  let point := if full then .full latestBlockNumber else .latest
  { s with loops := s.loops.set i ⟨loop.pollingId, next, point⟩ }

/-- The activation at place `i` has ended. -/
def finish (s : State) (i : Nat) : State := { s with loops := s.loops.eraseIdx i }

/-- `subscribe`: the queue, the saved hash and the activations stay as they are. -/
def subscribe (s : State) (pollingId start : Nat) : State :=
  { s with
    pollingId := some pollingId
    observer := true
    fatalError := false
    loops := s.loops ++ [⟨pollingId, start, .latest⟩]
    start := start
    answered := []
    emitted := []
    errors := [] }

/-- `unsubscribe`. -/
def unsubscribe (s : State) : State := { s with pollingId := none }

/-- The answer of `getLatestBlockNumber`. -/
def latest (cfg : Config) (s : State) (i : Nat) (result : Except Thrown Nat) : Option State :=
  match s.loops[i]? with
  | some ⟨pollingId, next, .latest⟩ => some (match result with
    | .error error => { finish s i with
        errors := s.errors ++ [.other (BlockProducerError.createUnknown error)] }
    | .ok latestBlockNumber =>
      if latestBlockNumber < next then { s with loops := s.loops.set i ⟨pollingId, next, .asleep⟩ }
      else if s.pollingId = some pollingId then
        proceed cfg s i ⟨pollingId, next, .latest⟩ latestBlockNumber
      else finish s i)
  | _ => none

/-- The end of a sleep. -/
def woken (cfg : Config) (s : State) (i : Nat) : Option State :=
  match s.loops[i]? with
  | some ⟨pollingId, next, .asleep⟩ => some (
      if s.pollingId = some pollingId then
        { s with loops := s.loops.set i ⟨pollingId, next, .latest⟩ }
      else finish s i)
  | some ⟨pollingId, next, .full latestBlockNumber⟩ => some (
      if cfg.workers * 100 ≤ s.queue.length then s
      else if s.pollingId = some pollingId then
        proceed cfg s i ⟨pollingId, next, .full latestBlockNumber⟩ latestBlockNumber
      else finish s i)
  | _ => none

/-- `this.lastSavedBlockHash && this.lastSavedBlockHash !== parentHash.toLowerCase()`. -/
def isReOrged (s : State) (block : Block) : Bool :=
  match s.lastSavedBlockHash with
  | none | some "" => false
  | some hash => decide (hash ≠ toLowerCase block.parentHash)

/-- The catch block of `processQueue`. -/
def caught (s : State) (error : Raised) : State :=
  { s with
    fatalError := true
    errors := s.errors ++ [error]
    processing := none
    processingQueue := false }

/-- The awaited job settles. -/
def settled (s : State) (result : Except Thrown Block) : Option State :=
  match s.processing with
  | some (.job height) => some (match result with
    | .error error => caught s (.other (BlockProducerError.createUnknown error))
    | .ok block =>
      let s := { s with answered := s.answered ++ [⟨height, block⟩] }
      if isReOrged s block then
        { unsubscribe s with lastSavedBlockHash := none, processing := some .unsubscribing }
      else runQueue { s with
        lastSavedBlockHash := some (toLowerCase block.hash)
        emitted := s.emitted ++ [⟨height, block⟩] })
  | _ => none

/-- The `unsubscribe` awaited after a re-org was found resolves. -/
def unsubscribed (s : State) : Option State :=
  if s.processing = some .unsubscribing then some (caught { s with queue := [] } .reorg) else none

/-- What may happen next. An activation of `startBlockPolling` is named by its place. -/
inductive Event where
  /-- The client subscribes; the polling id is what `Date.now()` reads. -/
  | subscribe (pollingId start : Nat)
  | unsubscribe
  | latest (i : Nat) (result : Except Thrown Nat)
  | woken (i : Nat)
  | settled (result : Except Thrown Block)
  | unsubscribed

/-- One event, run up to the next await. -/
def step (cfg : Config) (s : State) : Event → Option State
  | .subscribe pollingId start => some (subscribe s pollingId start)
  | .unsubscribe => some (unsubscribe s)
  | .latest i result => latest cfg s i result
  | .woken i => woken cfg s i
  | .settled result => settled s result
  | .unsubscribed => unsubscribed s

/-- The machine of the poller. -/
def machine (cfg : Config) : Machine State Event where
  step := step cfg

end ChainIndexer.Poller
