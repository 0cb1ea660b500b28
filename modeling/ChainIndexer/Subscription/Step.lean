import ChainIndexer.Subscription.State

/-!
# The steps of a block subscription

One event runs one activation up to its next await. An activation is named by its
place. The workers answer a job at any time and in any order; the await of a job
settles at any time after that.
-/

namespace ChainIndexer.Subscription

/-- The activation at place `i` has ended. -/
def finish (s : State) (i : Nat) : State := { s with tasks := s.tasks.eraseIdx i }

/-- The error the observer gets when a restart fails; an error prints as its name and message. -/
def restartError (error : BaseError) : BaseError :=
  BlockProducerError.createUnknown
    (.unknown ("Error when restarting producer: " ++ error.name ++ ": " ++ error.message))

/-- A call of `subscribe` throws this error to what awaits it. -/
def thrown (s : State) (caller : Caller) (error : BaseError) : State :=
  match caller with
  | .client => s
  | .backFillBlocks => { s with
      activeBackFillingId := none
      fatalError := true
      calls := s.calls ++ [.error error] }
  | .checkIfLive => { s with calls := s.calls ++ [.error (restartError error)] }

/-- The first answer `subscribe` awaits: everything of an earlier session is reset. -/
def finalized (cfg : Config) (s : State) (i : Nat) (result : Except Thrown Nat) : Option State :=
  match s.tasks[i]? with
  | some (.finalized caller startBlock) => some (match result with
    | .error error => thrown (finish s i) caller (BlockProducerError.createUnknown error)
    | .ok number => { s with
        lastFinalizedBlock := if 0 < cfg.blockDelay then number - cfg.blockDelay else number
        queue := []
        observer := true
        fatalError := false
        nextBlock := startBlock
        lastBlockHash := ""
        lastReceivedBlockNumber := (startBlock : Int) - 1
        dropped := false
        tasks := s.tasks.set i (.latest caller startBlock) })
  | _ => none

/-- `this.lastFinalizedBlock - 20 > startBlock`. -/
def IsHistorical (s : State) (startBlock : Nat) : Prop := startBlock < s.lastFinalizedBlock - 20

instance (s : State) (startBlock : Nat) : Decidable (IsHistorical s startBlock) :=
  inferInstanceAs (Decidable (_ < _))

/-- The second answer `subscribe` awaits; `now` is what `Date.now()` would read. -/
def latest (cfg : Config) (s : State) (i now : Nat) (result : Except Thrown Nat) : Option State :=
  match s.tasks[i]? with
  | some (.latest caller startBlock) => some (match result with
    | .error error => thrown (finish s i) caller (BlockProducerError.createUnknown error)
    | .ok latestBlockNumber =>
      if latestBlockNumber < s.nextBlock then
        { s with tasks := s.tasks.set i (.asleep caller startBlock) }
      else if IsHistorical s startBlock then backFillBlocks cfg (finish s i) now
      else subscribeLogs (finish s i))
  | _ => none

/-- The sleep of `subscribe` ends. -/
def woken (s : State) (i : Nat) : Option State :=
  match s.tasks[i]? with
  | some (.asleep caller startBlock) =>
    some { s with tasks := s.tasks.set i (.latest caller startBlock) }
  | _ => none

/-- The log subscription of a suspended `unsubscribe` is closed, or cannot be. -/
def closed (s : State) (subscription : Option Nat) : State :=
  if subscription.isSome then { s with subscription := none } else s

/-- A suspended `unsubscribe` goes on. With no log subscription it cannot fail. -/
def unsubscribed (s : State) (i : Nat) (result : Except Thrown Unit) : Option State :=
  match s.tasks[i]?, result with
  | some (.unsubscribing subscription), .ok () => some (closed (finish s i) subscription)
  | some (.unsubscribing (some _)), .error _ => some (finish s i)
  | some (.restarting subscription), .ok () =>
    some (subscribe (closed (finish s i) subscription) .checkIfLive s.nextBlock)
  | some (.restarting (some _)), .error error =>
    some (thrown (finish s i) .checkIfLive (BlockProducerError.createUnknown error))
  | _, _ => none

/-- The timer at place `i` fires. -/
def timeout (s : State) (i : Nat) : Option State :=
  match s.timers[i]? with
  | some timer =>
    let s := { s with timers := s.timers.eraseIdx i }
    some (if s.lastBlockHash = timer.lastBlockHash then
      { unsubscribe s with tasks := s.tasks ++ [.restarting s.subscription] }
    else checkIfLive s)
  | none => none

/-- `ZERO_BLOCK_HASH`. -/
def zeroBlockHash : String := "0x0000000000000000000000000000000000000000000000000000000000000000"

/-- The hash and the number of a log event that is not discarded as malformed. -/
def wellFormed (s : State) (log : Log) : Option (String × Int) :=
  match log.blockHash, log.blockNumber with
  | some blockHash, some blockNumber =>
    if blockHash = "" ∨ blockHash = zeroBlockHash ∨
        blockNumber < s.lastReceivedBlockNumber then none
    else some (blockHash, blockNumber)
  | _, _ => none

/-- The data handler of a log subscription. -/
def data (s : State) (subscription : Nat) (log : Log) : Option State :=
  if subscription ∈ s.listening then some (match wellFormed s log with
    | some (blockHash, blockNumber) =>
      if s.lastBlockHash = blockHash then s
      else
        let s := enqueueMissedBlocks s blockNumber
        let s := request { s with
          lastBlockHash := blockHash
          lastReceivedBlockNumber := blockNumber } blockNumber .processQueue
        if s.processingQueue then s else processQueue s
    | none => s)
  else none

/-- The error handler of a log subscription. -/
def failed (s : State) (subscription : Nat) (error : Thrown) : Option State :=
  if subscription ∈ s.listening then
    some { s with calls := s.calls ++ [.error (BlockProducerError.createUnknown error)] }
  else none

/-- A worker answers a job. -/
def answer (s : State) (job : Nat) : Option State :=
  if job < s.jobs ∧ job ∉ s.answered then some { s with answered := s.answered ++ [job] }
  else none

/-- The catch block of `processQueue`. -/
def caught (s : State) (call : Call) : State :=
  { s with
    fatalError := true
    calls := s.calls ++ [call]
    processing := none
    processingQueue := false }

/-- The job `processQueue` awaits settles. -/
def processed (s : State) (result : Except Thrown Block) : Option State :=
  match s.processing with
  | some job =>
    if job.id ∈ s.answered then some (match result with
      | .error error => caught s (.error (BlockProducerError.createUnknown error))
      | .ok block =>
        let s := { s with nextBlock := block.number + 1, seen := s.seen ++ [block] }
        if isReOrgedMissed s block then caught s (.reorg block)
        else runQueue { s with
          calls := s.calls ++ [.next .processQueue block]
          lastEmittedBlock := some ⟨block.number, block.hash⟩ })
    else none
  | none => none

/-- The job the loop of `backFillBlocks` awaits settles. -/
def backFilled (s : State) (i : Nat) (result : Except Thrown Block) : Option State :=
  match s.tasks[i]? with
  | some (.backFill backFillingId job) =>
    if job.id ∈ s.answered then some (match result with
      | .error error =>
        thrown (finish s i) .backFillBlocks (BlockProducerError.createUnknown error)
      | .ok block =>
        if s.activeBackFillingId ≠ some backFillingId ∨ s.fatalError then finish s i
        else runBackFill { finish s i with
          calls := s.calls ++ [.next .backFillBlocks block]
          nextBlock := s.nextBlock + 1 } backFillingId)
    else none
  | _ => none

/-- An activation of `addWorkerJobToQueue` goes on after its sleep or its await. -/
def assigned (s : State) (i : Nat) : Option State :=
  match s.assignments[i]? with
  | some ⟨backFillingId, job, true⟩ =>
    some (if 2500 ≤ s.queue.length then s
      else { s with assignments := s.assignments.set i ⟨backFillingId, job, false⟩ })
  | some ⟨backFillingId, job, false⟩ =>
    if job ∈ s.answered then
      let s := { s with assignments := s.assignments.eraseIdx i }
      some (if s.activeBackFillingId = some backFillingId ∧
          (s.nextBlock + s.queue.length : Int) < s.lastFinalizedBlock then
        addWorkerJobToQueue s (s.nextBlock + s.queue.length + 1) backFillingId
      else s)
    else none
  | none => none

/-- What may happen next. -/
inductive Event where
  /-- The client subscribes. -/
  | subscribe (startBlock : Nat)
  /-- The client unsubscribes. -/
  | unsubscribe
  | finalized (i : Nat) (result : Except Thrown Nat)
  | latest (i now : Nat) (result : Except Thrown Nat)
  | woken (i : Nat)
  | unsubscribed (i : Nat) (result : Except Thrown Unit)
  | timeout (i : Nat)
  | data (subscription : Nat) (log : Log)
  | failed (subscription : Nat) (error : Thrown)
  | answer (job : Nat)
  | processed (result : Except Thrown Block)
  | backFilled (i : Nat) (result : Except Thrown Block)
  | assigned (i : Nat)

/-- One event, run up to the next await. -/
def step (cfg : Config) (s : State) : Event → Option State
  | .subscribe startBlock => some (subscribe s .client startBlock)
  | .unsubscribe => some { unsubscribe s with tasks := s.tasks ++ [.unsubscribing s.subscription] }
  | .finalized i result => finalized cfg s i result
  | .latest i now result => latest cfg s i now result
  | .woken i => woken s i
  | .unsubscribed i result => unsubscribed s i result
  | .timeout i => timeout s i
  | .data subscription log => data s subscription log
  | .failed subscription error => failed s subscription error
  | .answer job => answer s job
  | .processed result => processed s result
  | .backFilled i result => backFilled s i result
  | .assigned i => assigned s i

/-- The machine of a block subscription. -/
def machine (cfg : Config) : Machine State Event where
  step := step cfg

end ChainIndexer.Subscription
