import ChainIndexer.Core.Record
import ChainIndexer.Core.Transducer

/-!
# The queue

The entries are kept under consecutive numbers, from the one at the head up to the one before the
tail. Numbers are exact integers.
-/

namespace ChainIndexer

universe u

/-- The object behind all the buffers of the framework. -/
structure Queue (α : Type u) where
  items : Record α
  head : Int
  tail : Int

namespace Queue

variable {α : Type u}

/-- What a method returns that looks for an item: a key that is not set gives `undefined`. -/
inductive Fetched (α : Type u) where
  | null
  | undefined
  | item (a : α)
  deriving DecidableEq, Repr

/-- `this.items[key]`. -/
def fetch (q : Queue α) (key : Int) : Fetched α :=
  match q.items.get key with
  | none => .undefined
  | some a => .item a

/-- A new object. -/
def new : Queue α := ⟨.empty, 0, 0⟩

def enqueue (q : Queue α) (item : α) : Queue α :=
  { q with items := q.items.set q.tail item, tail := q.tail + 1 }

def getLength (q : Queue α) : Int := q.tail - q.head

def isEmpty (q : Queue α) : Bool := q.getLength = 0

def shift (q : Queue α) : Fetched α × Queue α :=
  if q.isEmpty then (.null, q)
  else (q.fetch q.head, { q with items := q.items.delete q.head, head := q.head + 1 })

def shiftByN (q : Queue α) (position : Int) : Fetched α × Queue α :=
  if q.getLength < position ∧ position ≠ 0 then (.null, q)
  else
    let head := q.head + position - 1
    -- the keys are listed before the first one is deleted
    let items := q.items.keys.foldl
      (fun items key => if decide (key ≤ head) then items.delete key else items) q.items
    (q.fetch head, { q with items := items, head := head + 1 })

def front (q : Queue α) : Fetched α := if q.isEmpty then .null else q.fetch q.head

/-- `clear`, which returns zero. -/
def clear (_ : Queue α) : Int × Queue α := (0, ⟨.empty, 0, 0⟩)

/-- A call of a public method. -/
inductive Operation (α : Type u) where
  | enqueue (item : α)
  | shift
  | shiftByN (position : Int)
  | front
  | isEmpty
  | getLength
  | clear
  deriving DecidableEq, Repr

/-- What a public method returns. -/
inductive Result (α : Type u) where
  | void
  | fetched (item : Fetched α)
  | boolean (value : Bool)
  | number (value : Int)
  deriving DecidableEq, Repr

/-- The queue with its public methods. -/
def call : Transducer (Queue α) (Operation α) (Result α)
  | q, .enqueue item => (.void, q.enqueue item)
  | q, .shift => q.shift.map .fetched id
  | q, .shiftByN position => (q.shiftByN position).map .fetched id
  | q, .front => (.fetched q.front, q)
  | q, .isEmpty => (.boolean q.isEmpty, q)
  | q, .getLength => (.number q.getLength, q)
  | q, .clear => q.clear.map .number id

end Queue

end ChainIndexer
