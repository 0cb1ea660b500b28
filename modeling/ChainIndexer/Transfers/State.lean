import ChainIndexer.Core.Redelivery
import ChainIndexer.Core.Service
import ChainIndexer.Native.Errors

/-!
# Saving the transfers of a block

The consumer of the transfer topic keeps one document for each transfer. `TransferService.save`
reads the latest document, deletes what a re-org has orphaned and inserts the transfers one by one,
without a transaction: any of its calls may fail, before or after it has written.
-/

namespace ChainIndexer.Transfers

open Consumption (Step Reaches)

/-- A transformed block of the topic. -/
structure TransformedBlock (δ : Type) where
  blockNumber : Nat
  timestamp : Nat
  data : List δ
  deriving DecidableEq, Repr

/-- A transfer event as the transformer produces it. -/
structure MaticTransferTx where
  transactionIndex : Nat
  transactionHash : String
  transactionInitiator : String
  tokenAddress : String
  senderAddress : String
  receiverAddress : String
  amount : String
  deriving DecidableEq, Repr

/-- A document of the transfer collection. -/
structure Transfer extends MaticTransferTx where
  timestamp : Nat
  blockNumber : Nat
  deriving DecidableEq, Repr

/-- `TransferMapper.map`. -/
def map (block : TransformedBlock MaticTransferTx) : List Transfer :=
  block.data.map fun transfer =>
    { toMaticTransferTx := transfer
      timestamp := block.timestamp
      blockNumber := block.blockNumber }

/-- A transfer has the height and the time of its block. -/
theorem mem_map {block : TransformedBlock MaticTransferTx} {transfer : Transfer}
    (h : transfer ∈ map block) :
    transfer.blockNumber = block.blockNumber ∧ transfer.timestamp = block.timestamp := by
  obtain ⟨_, _, rfl⟩ := List.mem_map.mp h
  exact ⟨rfl, rfl⟩

/-! ## The collection -/

/-- The calls of the model's statics. -/
inductive Call where
  /-- `findOne().sort({ timestamp: -1 })` -/
  | findOne
  /-- `deleteMany({ blockNumber: { $gte: blockNumber } })` -/
  | deleteMany (blockNumber : Nat)
  | create (transfer : Transfer)

/-- What a call resolves with or rejects with. -/
def Answer : Call → Type
  | .findOne => Except Thrown (Option Transfer)
  | .deleteMany _ => Except Thrown Nat
  | .create _ => Except Thrown Unit

/-- The documents, in the order they were inserted. -/
abbrev Collection := List Transfer

/-- The documents that `deleteMany` leaves. -/
def below (blockNumber : Nat) (documents : Collection) : Collection :=
  documents.filter (·.blockNumber < blockNumber)

/-- How the database answers. A call that fails may have written all, a part or nothing. -/
inductive Serves : Service Call Answer Collection
  | empty : Serves [] .findOne (.ok none) []
  | latest {documents : Collection} {transfer : Transfer} : transfer ∈ documents →
    (∀ other ∈ documents, other.timestamp ≤ transfer.timestamp) →
    Serves documents .findOne (.ok (some transfer)) documents
  | unread {documents error} : Serves documents .findOne (.error error) documents
  | deleted {documents : Collection} {blockNumber : Nat} :
    Serves documents (.deleteMany blockNumber)
      (.ok (documents.countP (blockNumber ≤ ·.blockNumber))) (below blockNumber documents)
  | undeleted {documents rest : Collection} {blockNumber : Nat} {error} :
    rest.Sublist documents → (below blockNumber documents).Sublist rest →
    Serves documents (.deleteMany blockNumber) (.error error) rest
  | created {documents transfer} :
    Serves documents (.create transfer) (.ok ()) (documents ++ [transfer])
  | uncreated {documents rest : Collection} {transfer error} :
    rest = documents ∨ rest = documents ++ [transfer] →
    Serves documents (.create transfer) (.error error) rest

/-! ## The consumer -/

/-- `getLastTransferBlock`. -/
def getLastTransferBlock : Program Call Answer (Except Thrown Nat) :=
  .call .findOne fun tx : Except Thrown (Option Transfer) =>
    .done (tx.map fun tx => (tx.map (·.blockNumber)).getD 0)

/-- `deleteTxsForReorg`. -/
def deleteTxsForReorg (blockNumber : Nat) : Program Call Answer (Except Thrown Nat) :=
  .call (.deleteMany blockNumber) .done

/-- `addAllTransfers`. -/
def addAllTransfers : List Transfer → Program Call Answer (Except Thrown Unit)
  | [] => .done (.ok ())
  | transfer :: data => .call (.create transfer) fun answer : Except Thrown Unit =>
    match answer with
    | .ok _ => addAllTransfers data
    | .error error => .throw error

/-- `TransferService.save`. -/
def save : List Transfer → Program Call Answer (Except Thrown Bool)
  | [] => .done (.ok true)
  | first :: rest =>
    getLastTransferBlock.andThen fun latestTransferBlockNumber =>
      Program.andThen
        (if first.blockNumber ≤ latestTransferBlockNumber then
          (deleteTxsForReorg first.blockNumber).andThen fun _ => .done (.ok ())
        else .done (.ok ()))
        fun _ => (addAllTransfers (first :: rest)).andThen fun _ => .done (.ok true)

/-- The `next` callback of the consumer. -/
def next (block : TransformedBlock MaticTransferTx) : Program Call Answer (Except Thrown Unit) :=
  if 0 < block.data.length then (save (map block)).andThen fun _ => .done (.ok ())
  else .done (.ok ())

/-- A call of `next` resolves or rejects, and leaves the collection like this. -/
def handle (block : TransformedBlock MaticTransferTx) (documents : Collection) (ok : Bool)
    (rest : Collection) : Prop :=
  ∃ result, Service.Executes Serves (next block) documents result rest ∧ ok = result.isOk

end ChainIndexer.Transfers
