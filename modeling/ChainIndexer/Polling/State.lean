import ChainIndexer.Core.Machine
import ChainIndexer.Native.Errors
import Mathlib.Data.List.Nodup
import Mathlib.Data.List.Range

/-!
# The polling loops between two awaits

Each call of `BlockPoller.subscribe` starts a loop that asks for the latest height and then for
one block after the other. A loop sees that it is out of date when the object carries another
polling id, and it looks only after an await. It may be called back by its observer: `next` can
subscribe and unsubscribe before it returns.
-/

namespace ChainIndexer.Polling

variable {β : Type}

/-- The await at which a loop is suspended. -/
inductive Point where
  /-- The call of `getLatestBlockNumber`. -/
  | latest
  /-- The sleep after an answer that brought nothing new. -/
  | asleep
  /-- The call of `getBlockWithTransactionReceipts`, inside the loop up to this latest block. -/
  | fetching (latestBlockNumber : Nat)
  deriving DecidableEq, Repr

/-- An activation of `startBlockPolling`. -/
structure Loop where
  pollingId : Nat
  /-- The call of `subscribe` that started it. -/
  session : Nat
  /-- `lastBlockNumber + 1`. -/
  next : Nat
  point : Point
  deriving DecidableEq, Repr

/-- A block passed to `observer.next`, with the height it was requested for. -/
structure Emission (β : Type) where
  /-- The session of the loop that passed it. -/
  session : Nat
  height : Nat
  block : β
  deriving DecidableEq, Repr

/-- What happens between a `subscribe` and the next `subscribe` or `unsubscribe`. -/
structure Session (β : Type) where
  number : Nat
  start : Nat
  /-- The latest heights its own loop has been told. -/
  latest : List Nat := []
  emitted : List (Emission β) := []
  deriving DecidableEq, Repr

/-- The poller, its suspended loops and what the observers have seen. -/
structure State (β : Type) where
  pollingId : Option Nat := none
  loops : List Loop := []
  /-- How often `subscribe` has been called. -/
  subscribed : Nat := 0
  session : Option (Session β) := none
  /-- The blocks passed to an observer outside every session. -/
  stray : List (Emission β) := []
  errors : List BaseError := []
  deriving DecidableEq, Repr

/-- A new poller. -/
def State.init : State β := {}

/-- A call from outside, or from inside `observer.next`. -/
inductive Call where
  /-- The client subscribes; the polling id is what `Date.now()` reads. -/
  | subscribe (pollingId start : Nat)
  | unsubscribe
  deriving DecidableEq, Repr

/-- `subscribe` and `unsubscribe`; the new loop asks for the latest block at once. -/
def call (s : State β) : Call → State β
  | .subscribe pollingId start => { s with
      pollingId := some pollingId
      loops := s.loops ++ [⟨pollingId, s.subscribed, start, .latest⟩]
      subscribed := s.subscribed + 1
      session := some { number := s.subscribed, start := start } }
  | .unsubscribe => { s with pollingId := none, session := none }

/-- The loop at place `i` runs: it is not suspended any more. -/
def resume (s : State β) (i : Nat) : State β := { s with loops := s.loops.eraseIdx i }

/-- A running loop suspends itself. -/
def suspend (s : State β) (loop : Loop) : State β := { s with loops := s.loops ++ [loop] }

/-- The head of the inner loop: fetch the next block, or else go round the outer loop. -/
def poll (s : State β) (loop : Loop) (latestBlockNumber : Nat) : State β :=
  if s.pollingId = some loop.pollingId then
    suspend s { loop with
      point := if loop.next ≤ latestBlockNumber then .fetching latestBlockNumber else .latest }
  else s

/-- The catch block of `startBlockPolling`, which ends the loop. -/
def caught (s : State β) (error : Thrown) : State β :=
  { s with errors := s.errors ++ [BlockProducerError.createUnknown error] }

/-- The session keeps the latest height that its loop is told. -/
def told (s : State β) (loop : Loop) (latestBlockNumber : Nat) : State β :=
  { s with session := s.session.map fun session =>
      if session.number = loop.session then
        { session with latest := session.latest ++ [latestBlockNumber] }
      else session }

/-- A block is passed to `observer.next`. -/
def emit (s : State β) (emission : Emission β) : State β :=
  match s.session with
  | some session => { s with
      session := some { session with emitted := session.emitted ++ [emission] } }
  | none => { s with stray := s.stray ++ [emission] }

/-- The answer of `getLatestBlockNumber`. -/
def latest (s : State β) (i : Nat) (result : Except Thrown Nat) : Option (State β) :=
  match s.loops[i]? with
  | some ⟨pollingId, session, next, .latest⟩ => some (match result with
    | .error error => caught (resume s i) error
    | .ok latestBlockNumber =>
      let s := told (resume s i) ⟨pollingId, session, next, .latest⟩ latestBlockNumber
      if latestBlockNumber < next then suspend s ⟨pollingId, session, next, .asleep⟩
      else poll s ⟨pollingId, session, next, .latest⟩ latestBlockNumber)
  | _ => none

/-- The end of a sleep: there is still nothing to fetch up to the height known before it. -/
def woken (s : State β) (i : Nat) : Option (State β) :=
  match s.loops[i]? with
  | some ⟨pollingId, session, next, .asleep⟩ =>
    some (if s.pollingId = some pollingId then
        suspend (resume s i) ⟨pollingId, session, next, .latest⟩
      else resume s i)
  | _ => none

/-- The answer of `getBlockWithTransactionReceipts`. If the loop is up to date, the observer
gets the block; it makes these calls, and may throw. -/
def fetched (s : State β) (i : Nat) (result : Except Thrown β) (calls : List Call)
    (thrown : Option Thrown) : Option (State β) :=
  match s.loops[i]? with
  | some ⟨pollingId, session, next, .fetching latestBlockNumber⟩ => some (match result with
    | .error error => caught (resume s i) error
    | .ok block =>
      if s.pollingId = some pollingId then
        let s := calls.foldl call (emit (resume s i) ⟨session, next, block⟩)
        match thrown with
        | some error => caught s error
        | none => poll s ⟨pollingId, session, next + 1, .latest⟩ latestBlockNumber
      else resume s i)
  | _ => none

/-- What may happen next. A loop is named by its place. -/
inductive Event (β : Type) where
  | call (call : Call)
  | latest (i : Nat) (result : Except Thrown Nat)
  | woken (i : Nat)
  | fetched (i : Nat) (result : Except Thrown β) (calls : List Call) (thrown : Option Thrown)

/-- One event, run up to the next await. -/
def step (s : State β) : Event β → Option (State β)
  | .call c => some (call s c)
  | .latest i result => latest s i result
  | .woken i => woken s i
  | .fetched i result calls thrown => fetched s i result calls thrown

/-- The machine of the polling loops. -/
def machine : Machine (State β) (Event β) where
  step := step

end ChainIndexer.Polling
