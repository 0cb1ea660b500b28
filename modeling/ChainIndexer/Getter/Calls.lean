import ChainIndexer.Core.Program
import ChainIndexer.Native.Errors

/-!
# The calls of the block getters

A getter asks a node for the block and for the receipts of its transactions, in one call after the
other. Of a block, a transaction and a receipt only the hashes are kept; of the other fields,
whether formatting one of them throws.
-/

namespace ChainIndexer.Getter

/-- A receipt as a node answers it, raw or formatted by the client library. -/
structure Receipt where
  transactionHash : String
  blockHash : String
  /-- The error that formatting another field throws. -/
  fault : Option String := none
  deriving DecidableEq, Repr

structure Web3Transaction where
  hash : String
  fault : Option String := none
  deriving DecidableEq, Repr

/-- A block with its transactions, as the client library answers it. -/
structure Web3Block where
  hash : String
  transactions : List Web3Transaction
  fault : Option String := none
  deriving DecidableEq, Repr

/-- The formatted receipt. -/
structure TransactionReceipt where
  transactionHash : String
  blockHash : String
  deriving DecidableEq, Repr

/-- The formatted transaction with its receipt. -/
structure Transaction where
  hash : String
  receipt : TransactionReceipt
  deriving DecidableEq, Repr

/-- The formatted block. -/
structure Block where
  hash : String
  transactions : List Transaction
  deriving DecidableEq, Repr

/-- A request to the node. -/
inductive Rpc where
  | getBlock (blockNumber : Nat)
  | getBlockReceipts (blockNumber : Nat)
  | getTransactionReceipt (transactionHash : String)
  deriving DecidableEq, Repr

/-- What the node may know nothing about is absent. -/
def Rpc.Result : Rpc → Type
  | .getBlock _ => Option Web3Block
  | .getBlockReceipts _ => Option (List Receipt)
  | .getTransactionReceipt _ => Option Receipt

/-- A request that is awaited, alone or in a race with a timer. -/
inductive Call where
  | rpc (request : Rpc)
  | race (request : Rpc)
  deriving DecidableEq, Repr

/-- A request ends with an error message or with a result; in a race the timer may come first. -/
def Call.Answer : Call → Type
  | .rpc request => Except String request.Result
  | .race request => Option (Except String request.Result)

/-- What an async method of a getter does. -/
abbrev Promise (α : Type) := Program Call Call.Answer (Except Thrown α)

/-- Formatting keeps the hashes, unless it throws. -/
def formatted {α : Type} (fault : Option String) (value : α) : Except Thrown α :=
  match fault with
  | some message => .error (.unknown message)
  | none => .ok value

/-- `formatTransactionReceipt`, and `formatRawReceipt` of a receipt that was found. -/
def formatTransactionReceipt (receipt : Receipt) : Except Thrown TransactionReceipt :=
  formatted receipt.fault ⟨receipt.transactionHash, receipt.blockHash⟩

def formatTransactionObject (transactionObject : Web3Transaction) (receipt : TransactionReceipt) :
    Except Thrown Transaction :=
  formatted transactionObject.fault ⟨transactionObject.hash, receipt⟩

def formatBlockWithTransactions (block : Web3Block) (transactions : List Transaction) :
    Except Thrown Block :=
  formatted block.fault ⟨block.hash, transactions⟩

/-- An error that is no block producer error is thrown at once, wrapped in one; the others are
retried. -/
def wrapped (name context : String) : Thrown → Option Thrown
  | .base _ => none
  | .librdkafka error => some (.base (.create name Codes.rpcErr true
      (some (context ++ ": " ++ error.message)) "remote"))
  | .unknown cause => some (.base (.create name Codes.rpcErr true
      (some (context ++ ": " ++ cause)) "remote"))

/-- One attempt of `getTransactionReceipt`. -/
def receiptAttempt (transactionHash : String) : Promise TransactionReceipt :=
  .call (.race (.getTransactionReceipt transactionHash)) fun
    | none => .throw (.base (.create "Block producer error on getTransactionReceipt" Codes.rpcErr
        true (some "timeout while fetching transaction receipt") "local"))
    | some (.error cause) => .throw (.unknown cause)
    | some (.ok none) => .throw (.base (.create "Block producer error on transaction receipt"
        Codes.receiptNotFound true
        (some ("Transaction receipt not found for " ++ transactionHash ++ ".")) "remote"))
    | some (.ok (some receipt)) => .done (formatTransactionReceipt receipt)

/-- `getTransactionReceipt`: it gives up when the count of errors exceeds the limit. -/
def getTransactionReceipt (maxRetries : Nat) (transactionHash : String) :
    Promise TransactionReceipt :=
  (receiptAttempt transactionHash).retrying
    (wrapped "Block producer error on transaction receipt"
      ("Error fetching receipt for " ++ transactionHash)) (maxRetries + 1)

/-- The loop over the transactions of a block, which gets the receipts like this. -/
def withReceipts (receiptOf : String → Promise TransactionReceipt) :
    List Web3Transaction → Promise (List Transaction)
  | [] => .done (.ok [])
  | transactionObject :: rest =>
    (receiptOf transactionObject.hash).andThen fun receipt =>
      match formatTransactionObject transactionObject receipt with
      | .error error => .throw error
      | .ok transaction => (withReceipts receiptOf rest).andThen fun transactions =>
        .done (.ok (transaction :: transactions))

/-- The block with the receipts of its transactions. -/
def assemble (receiptOf : String → Promise TransactionReceipt) (block : Web3Block) :
    Promise Block :=
  (withReceipts receiptOf block.transactions).andThen fun transactions =>
    .done (formatBlockWithTransactions block transactions)

/-- One attempt of `BlockGetter.getBlockWithTransactionReceipts`. -/
def blockAttempt (maxRetries blockNumber : Nat) : Promise Block :=
  .call (.rpc (.getBlock blockNumber)) fun
    | .error cause => .throw (.unknown cause)
    | .ok none => .throw (.base (.create "Block producer error on getBlockWithTransactions"
        Codes.receiptNotFound true
        (some ("null receipt found for block " ++ toString blockNumber ++ ".")) "remote"))
    | .ok (some block) => assemble (getTransactionReceipt maxRetries) block

/-- `sendTransactionReceiptsCall`, with what it does without a result. The timer is that of the
caller, which is set to less than its own. -/
def sendTransactionReceiptsCall (blockNumber : Nat)
    (withoutResult : Promise (Option (List Receipt))) : Promise (Option (List Receipt)) :=
  .call (.race (.getBlockReceipts blockNumber)) fun
    | none => .throw (.unknown ("Timeout while fetching block receipts for " ++
        toString blockNumber ++ " in getBlockWithTransactionReceipts"))
    | some (.error cause) => .throw (.unknown cause)
    | some (.ok none) => withoutResult
    | some (.ok (some receipts)) => .done (.ok (some receipts))

/-- `getTransactionReceipts`: without a result it asks once more, and then does without. -/
def getTransactionReceipts (blockNumber : Nat) : Promise (Option (List Receipt)) :=
  sendTransactionReceiptsCall blockNumber
    (sendTransactionReceiptsCall blockNumber (.done (.ok none)))

/-- The receipt is looked up among those of the block, and else asked for. -/
def findReceipt (maxRetries : Nat) (receipts : Option (List Receipt)) (transactionHash : String) :
    Promise TransactionReceipt :=
  match receipts.bind fun found => found.find? (·.transactionHash = transactionHash) with
  | some receipt => .done (formatTransactionReceipt receipt)
  | none => getTransactionReceipt maxRetries transactionHash

/-- One attempt of `ErigonBlockGetter.getBlockWithTransactionReceipts`. -/
def erigonAttempt (maxRetries blockNumber : Nat) : Promise Block :=
  .call (.race (.getBlock blockNumber)) fun
    | none => .throw (.unknown ("Timeout while fetching block " ++ toString blockNumber ++
        " in getBlockWithTransactionReceipts"))
    | some (.error cause) => .throw (.unknown cause)
    | some (.ok block) => (getTransactionReceipts blockNumber).andThen fun receipts =>
      match block with
      | none => .throw (.unknown "Cannot read properties of null (reading 'transactions')")
      | some block => assemble (findReceipt maxRetries receipts) block

/-- The classes of block getters. -/
inductive Kind where
  | blockGetter
  | erigonBlockGetter
  deriving DecidableEq, Repr

/-- `getBlockWithTransactionReceipts`, with all its retries. -/
def getBlockWithTransactionReceipts (kind : Kind) (maxRetries blockNumber : Nat) : Promise Block :=
  match kind with
  | .blockGetter => (blockAttempt maxRetries blockNumber).retrying
      (wrapped "Block producer error on getBlockWithTransactions"
        ("Error fetching block " ++ toString blockNumber ++ " with receipts")) (maxRetries + 1)
  | .erigonBlockGetter => (erigonAttempt maxRetries blockNumber).retrying (fun _ => none) maxRetries

end ChainIndexer.Getter
