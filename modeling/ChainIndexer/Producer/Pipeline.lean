import ChainIndexer.Core.Machine
import ChainIndexer.Native.Errors
import ChainIndexer.Producer.Store

/-!
# From an emitted block to the store

A block handed to `observer.next` is serialised and sent in its own activation of
`produceBlock`. The Kafka client reports sent blocks in the order of production;
a report that reaches the delivered listener queues the block for the store, and
one activation of `processQueue` writes the queue to it. When `start` and `stop`
register and remove the listener, and what the subscription emits, is left to the
environment.
-/

namespace ChainIndexer.Producer

/-- What `onError` does about an error. -/
inductive Reaction where
  | ignored
  | restarted
  /-- Stopped for good and reported. -/
  | stopped
  deriving DecidableEq, Repr

/-- The three messages after which `onError` stops for good. -/
def stoppingMessages : List String :=
  ["Local: Erroneous state", "Erroneous state", "timeout while fetching block"]

/-- `onError`, up to the restart it awaits. -/
def onError (error : BaseError) : Reaction :=
  if error.message ∈ stoppingMessages then .stopped
  else if error.isFatal then .restarted
  else .ignored

/-- The call `addBlockToMongo` is awaiting. -/
inductive Phase where
  | create
  | deleteMany
  deriving DecidableEq, Repr

/-- An activation of `addBlockToMongo`. -/
structure Insertion where
  details : ProducedBlock
  retryCount : Nat
  phase : Phase
  deriving DecidableEq, Repr

/-- What happened to the blocks, by number. -/
inductive Entry where
  | failed (number : Nat)
  | produced (number : Nat)
  | recorded (number : Nat)
  deriving DecidableEq, Repr

/-- The producer between two awaits. -/
structure State where
  /-- Registered listeners of the delivered event. -/
  listeners : Nat := 0
  /-- Whether `produceEvent` has registered the listener of the delivery report. -/
  reporting : Bool := false
  /-- The blocks of the activations of `produceBlock`. -/
  producing : List ProducedBlock := []
  /-- The blocks the client has accepted and not reported, in order of production. -/
  sent : List ProducedBlock := []
  mongoInsertQueue : List ProducedBlock := []
  mongoInsertInProcess : Bool := false
  inserting : Option Insertion := none
  store : Store
  /-- The entries the last `shiftByN` dropped in front of the block being inserted. -/
  skipped : List ProducedBlock := []
  /-- Blocks whose report carried no error. -/
  acknowledged : List ProducedBlock
  /-- Blocks in the order they were put on the insert queue. -/
  delivered : List ProducedBlock := []
  history : List Entry := []
  reactions : List Reaction := []

/-- A new producer on a store whose blocks are in the topic. -/
def State.init (store : Store) : State where
  store := store
  acknowledged := store.blocks

/-- What may happen next. -/
inductive Event where
  /-- `start` registers the delivered listener. -/
  | listen
  /-- `stop` removes the delivered listeners. -/
  | unlisten
  /-- The client disconnects and forgets what it has not reported. -/
  | disconnect
  /-- The subscription calls `observer.next`. -/
  | emit (block : ProducedBlock)
  /-- The call of `produceEvent` in an activation of `produceBlock` settles. -/
  | produced (i : Nat) (failure : Option Thrown)
  /-- The client reports the oldest sent block; the report carries the partition. -/
  | deliveryReport (error : Option LibrdKafkaError) (report : Option Int)
  /-- The `create` of an insertion settles; `fails` is a failure other than a duplicate. -/
  | created (fails : Bool)
  /-- The `deleteMany` of an insertion settles. -/
  | deleted (fails : Bool)

/-- Take the next block to insert: all but the last `maxReOrgDepth + 1` entries are dropped. -/
def takeNext (maxReOrgDepth : Nat) (queue : List ProducedBlock) :
    Option (List ProducedBlock × ProducedBlock × List ProducedBlock) :=
  let position := if maxReOrgDepth < queue.length then queue.length - maxReOrgDepth else 1
  match queue.drop (position - 1) with
  | [] => none
  | details :: rest => some (queue.take (position - 1), details, rest)

/-- The head of the loop of `processQueue`. -/
def runQueue (cfg : Config) (s : State) : State :=
  match takeNext cfg.maxReOrgDepth s.mongoInsertQueue with
  | none => { s with mongoInsertInProcess := false, inserting := none, skipped := [] }
  | some (skipped, details, rest) =>
    { s with
      mongoInsertQueue := rest
      inserting := some ⟨details, 0, .create⟩
      skipped := skipped }

/-- `processQueue` up to its first await. -/
def processQueue (cfg : Config) (s : State) : State :=
  runQueue cfg { s with mongoInsertInProcess := true }

/-- The delivered listener. -/
def onDelivered (cfg : Config) (s : State) (block : ProducedBlock) (partition : Int) : State :=
  if partition = -1 then
    { s with reactions := s.reactions ++ [onError BlockProducerError.topicDoesNotExist] }
  else
    let s := { s with
      mongoInsertQueue := s.mongoInsertQueue ++ [block], delivered := s.delivered ++ [block] }
    if s.mongoInsertInProcess then s else processQueue cfg s

/-- `emit("delivered", report)`: every listener is called. -/
def emitDelivered (cfg : Config) (s : State) (block : ProducedBlock) (partition : Int) :
    Nat → State
  | 0 => s
  | listeners + 1 => onDelivered cfg (emitDelivered cfg s block partition listeners) block partition

/-- `onDeliveryReport`: whatever has a report is emitted as delivered. -/
def onDeliveryReport (cfg : Config) (s : State) (block : ProducedBlock) (report : Option Int) :
    State :=
  match report with
  | none => s
  | some partition => emitDelivered cfg s block partition s.listeners

/-- The client calls back for the oldest sent block. -/
def deliveryReport (cfg : Config) (s : State) (error : Option LibrdKafkaError)
    (report : Option Int) : Option State :=
  match s.sent with
  | [] => none
  | block :: sent =>
    let s := { s with
      sent := sent
      acknowledged := if error.isNone then s.acknowledged ++ [block] else s.acknowledged }
    some (if s.reporting then onDeliveryReport cfg s block report else s)

/-- `addBlockToMongo` after a failed attempt: up to five attempts, then `processQueue` ends. -/
def retry (s : State) (insertion : Insertion) : State :=
  if insertion.retryCount < 4 then
    { s with inserting := some ⟨insertion.details, insertion.retryCount + 1, .create⟩ }
  else { s with mongoInsertInProcess := false, inserting := none, skipped := [] }

/-- The `create` of `add` settles. -/
def created (s : State) (fails : Bool) : Option State :=
  match s.inserting with
  | some ⟨details, retryCount, .create⟩ =>
    some (match if fails then none else s.store.create details with
      | none => retry s ⟨details, retryCount, .create⟩
      | some store => { s with
          store := store
          inserting := some ⟨details, retryCount, .deleteMany⟩
          history := s.history ++ [.recorded details.number] })
  | _ => none

/-- The `deleteMany` of `add` settles. -/
def deleted (cfg : Config) (s : State) (fails : Bool) : Option State :=
  match s.inserting with
  | some ⟨details, retryCount, .deleteMany⟩ =>
    some (if fails then retry s ⟨details, retryCount, .deleteMany⟩
      else runQueue cfg { s with store := s.store.deleteMany cfg.maxReOrgDepth details })
  | _ => none

/-- `produceEvent` resolves once the client has accepted the block, or `onError` is called. -/
def produced (s : State) (i : Nat) (failure : Option Thrown) : Option State :=
  s.producing[i]?.map fun block => match failure with
    | none => { s with
        producing := s.producing.eraseIdx i
        sent := s.sent ++ [block]
        history := s.history ++ [.produced block.number] }
    | some error => { s with
        producing := s.producing.eraseIdx i
        reactions := s.reactions ++ [onError (KafkaError.createUnknown error true)]
        history := s.history ++ [.failed block.number] }

/-- One event, run up to the next await. -/
def step (cfg : Config) (s : State) : Event → Option State
  | .listen => some { s with listeners := s.listeners + 1 }
  | .unlisten => some { s with listeners := 0 }
  | .disconnect => some { s with sent := [] }
  | .emit block => some { s with producing := s.producing ++ [block], reporting := true }
  | .produced i failure => produced s i failure
  | .deliveryReport error report => deliveryReport cfg s error report
  | .created fails => created s fails
  | .deleted fails => deleted cfg s fails

/-- The machine of the producer. -/
def machine (cfg : Config) : Machine State Event where
  step := step cfg

variable {cfg : Config} {s t : State}

/-- What is taken, what is dropped in front of it and what stays are the queue. -/
theorem takeNext_eq {maxReOrgDepth : Nat} {queue skipped rest : List ProducedBlock}
    {details : ProducedBlock} (h : takeNext maxReOrgDepth queue = some (skipped, details, rest)) :
    queue = skipped ++ details :: rest := by
  unfold takeNext at h
  dsimp only at h
  split at h
  · cases h
  · rename_i hdrop
    cases h
    rw [← hdrop, List.take_append_drop]

/-- Only an empty queue has no next block. -/
theorem takeNext_eq_none {maxReOrgDepth : Nat} {queue : List ProducedBlock}
    (h : takeNext maxReOrgDepth queue = none) : queue = [] := by
  unfold takeNext at h
  dsimp only at h
  split at h
  · rename_i hdrop
    rw [List.drop_eq_nil_iff] at hdrop
    by_contra hne
    have hpos : 0 < queue.length := List.length_pos_iff.mpr hne
    split at hdrop <;> omega
  · cases h

/-- The loop ends on an empty queue or begins to insert one of its blocks. -/
theorem runQueue_cases (cfg : Config) (s : State) :
    s.mongoInsertQueue = [] ∧
      runQueue cfg s = { s with mongoInsertInProcess := false, inserting := none, skipped := [] } ∨
    ∃ skipped details rest, s.mongoInsertQueue = skipped ++ details :: rest ∧
      runQueue cfg s = { s with
        mongoInsertQueue := rest
        inserting := some ⟨details, 0, .create⟩
        skipped := skipped } := by
  unfold runQueue
  cases h : takeNext cfg.maxReOrgDepth s.mongoInsertQueue with
  | none => exact Or.inl ⟨takeNext_eq_none h, rfl⟩
  | some next => exact Or.inr ⟨next.1, next.2.1, next.2.2, takeNext_eq h, rfl⟩

end ChainIndexer.Producer
