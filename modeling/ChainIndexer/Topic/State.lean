import ChainIndexer.Producer.Checkpoint

/-!
# The topic that processes of the producer write

`start` asks `getStartBlock` for a number and subscribes from it, and the subscription passes on one
block after the other. A process may die at any time, and the next one starts on the store that it
leaves. What the client has accepted but not reported when it disconnects or dies with the process
may have reached the topic or not.
-/

namespace ChainIndexer.Topic

open Producer (ProducedBlock Store Config)

/-- The producer of the present process, with the topic and what the starts have found. -/
structure State where
  producer : Producer.State := .init .empty
  /-- The blocks in the topic. -/
  topic : List ProducedBlock := []
  /-- The number of the block that the subscription passes on next. -/
  next : Option Nat := none
  /-- Whether since the last start no block has failed and the client has not disconnected. -/
  flowing : Bool := false
  /-- The stored blocks that were not on the chain any more when a start looked at the store. -/
  replaced : List ProducedBlock := []

/-- The first process, before its first start. -/
def State.init : State := {}

/-- What may happen next. -/
inductive Event where
  /-- `start` asks for the start block, with the hashes that the chain has, and subscribes. -/
  | start (remote : Nat → Option String)
  /-- The subscription passes on the next block. -/
  | next (hash : String)
  /-- Something else happens in the producer. -/
  | producer (e : Producer.Event)
  /-- The client disconnects, and so many of the blocks without a report are in the topic. -/
  | disconnect (reached : Nat)
  /-- The process dies, and another one begins. -/
  | die (reached : Nat)

/-- The stored blocks that the chain does not have. -/
def replacedBlocks (store : Store) (remote : Nat → Option String) : List ProducedBlock :=
  store.blocks.filter fun block => remote block.number ≠ some block.hash

/-- `start`, from `getStartBlock` to `subscribe`. -/
def start (cfg : Config) (s : State) (remote : Nat → Option String) : Option State :=
  match cfg.getStartBlock s.producer.store remote with
  | some (.ofNat number) => some { s with
      next := some number
      flowing := true
      replaced := s.replaced ++ replacedBlocks s.producer.store remote }
  | some (.negSucc _) | none => none

/-- The subscription calls `observer.next`. -/
def next (cfg : Config) (s : State) (hash : String) : Option State :=
  s.next.bind fun number =>
    (Producer.step cfg s.producer (.emit ⟨number, hash⟩)).map fun producer =>
      { s with producer := producer, next := some (number + 1) }

/-- Whether a block could not be produced. -/
def fails : Producer.Event → Bool
  | .produced _ (some _) => true
  | _ => false

/-- What an event of the producer leaves: the topic gets what it acknowledges. -/
def after (s : State) (e : Producer.Event) (producer : Producer.State) : State := { s with
  producer := producer
  topic := s.topic ++ Producer.acknowledges s.producer e
  flowing := s.flowing && !fails e }

/-- An event of the producer that is no emission and no disconnection. -/
def inner (cfg : Config) (s : State) : Producer.Event → Option State
  | .emit _ | .disconnect => none
  | e => (Producer.step cfg s.producer e).map (after s e)

/-- One event. -/
def step (cfg : Config) (s : State) : Event → Option State
  | .start remote => start cfg s remote
  | .next hash => next cfg s hash
  | .producer e => inner cfg s e
  | .disconnect reached =>
    (Producer.step cfg s.producer .disconnect).map fun producer => { s with
      producer := producer
      topic := s.topic ++ s.producer.sent.take reached
      flowing := false }
  | .die reached => some { s with
      producer := .init s.producer.store
      topic := s.topic ++ s.producer.sent.take reached
      next := none
      flowing := false }

/-- The machine of all processes together. -/
def machine (cfg : Config) : Machine State Event where
  step := step cfg

/-- Nothing of an earlier start is left in the producer. -/
def Drained (s : Producer.State) : Prop :=
  s.producing = [] ∧ s.sent = [] ∧ s.mongoInsertQueue = [] ∧ s.inserting = none

/-- The chain has a block at each stored height. Unless nothing is stored, it still has one of the
stored blocks, and it has none that an earlier start has found replaced. -/
structure Settled (s : State) (remote : Nat → Option String) : Prop where
  known : ∀ block ∈ s.producer.store.blocks, (remote block.number).isSome
  anchored : s.producer.store.blocks = [] ∨
    ∃ block ∈ s.producer.store.blocks, 0 < block.number ∧ remote block.number = some block.hash
  gone : ∀ block ∈ s.replaced, remote block.number ≠ some block.hash

/-- Blocks are produced in turn, none after one has failed, and each report is one of a delivery to
the topic. A start finds the producer drained and the chain settled. -/
def Orderly (s : State) : Event → Prop
  | .producer (.produced i none) => i = 0 ∧ s.flowing = true
  | .producer (.deliveryReport error report) => error = none ∧ report ≠ some (-1)
  | .start remote => Drained s.producer ∧ Settled s remote
  | _ => True

instance (s : Producer.State) : Decidable (Drained s) :=
  decidable_of_iff (s.producing = [] ∧ s.sent = [] ∧ s.mongoInsertQueue = [] ∧
    s.inserting.isNone) (by rw [Drained, Option.isNone_iff_eq_none])

instance (s : State) (remote : Nat → Option String) : Decidable (Settled s remote) :=
  decidable_of_iff
    ((∀ block ∈ s.producer.store.blocks, (remote block.number).isSome) ∧
      (s.producer.store.blocks = [] ∨ ∃ block ∈ s.producer.store.blocks,
        0 < block.number ∧ remote block.number = some block.hash) ∧
      ∀ block ∈ s.replaced, remote block.number ≠ some block.hash)
    ⟨fun h => ⟨h.1, h.2.1, h.2.2⟩, fun h => ⟨h.known, h.anchored, h.gone⟩⟩

instance (s : State) (e : Event) : Decidable (Orderly s e) := by
  unfold Orderly
  split <;> infer_instance

end ChainIndexer.Topic
