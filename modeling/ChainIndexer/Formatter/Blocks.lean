import ChainIndexer.Core.Traversal
import ChainIndexer.Formatter.Agreement
import ChainIndexer.Native.Blocks
import Mathlib.Algebra.Group.Nat.Defs

/-!
# Formatting blocks

A block comes raw from a call of its own kind, or formatted by the client library, and so do its
transactions. Either way they end up with long integers and hexadecimal texts. The numbers these
stand for are those of the raw block, whichever of the getters has formatted it.
-/

namespace ChainIndexer.Formatter

/-- A hexadecimal number of this many bits at most. -/
structure BigQuantity (bits : Nat) where
  text : String
  value : Nat
  reads : hexValue text = some value
  small : value < 2 ^ bits
  deriving Repr

/-- The text decides the rest. -/
theorem BigQuantity.text_eq_iff {bits : Nat} {a b : BigQuantity bits} :
    a.text = b.text ↔ a = b := by
  refine ⟨fun htext => ?_, congrArg BigQuantity.text⟩
  obtain ⟨text, value, reads, small⟩ := a
  obtain ⟨other, value', reads', small'⟩ := b
  obtain rfl : text = other := htext
  obtain rfl : value = value' := Option.some.inj (reads.symm.trans reads')
  rfl

instance {bits : Nat} : DecidableEq (BigQuantity bits) :=
  fun _ _ => decidable_of_iff _ BigQuantity.text_eq_iff

/-- The shortest text of a number. -/
def BigQuantity.ofNat {bits : Nat} (n : Nat) (h : n < 2 ^ bits) : BigQuantity bits where
  text := quantity n
  value := n
  reads := hexValue_quantity n
  small := h

/-- The value of a field that is there. -/
def Field.toOption {α : Type} : Field α → Option α
  | .value a => some a
  | .absent | .null => none

@[simp] theorem Field.toOption_absent {α : Type} : (Field.absent : Field α).toOption = none := rfl

@[simp] theorem Field.toOption_null {α : Type} : (Field.null : Field α).toOption = none := rfl

@[simp] theorem Field.toOption_value {α : Type} (a : α) : (Field.value a).toOption = some a := rfl

/-- An address as a node writes it, with forty lower-case digits. -/
structure Address where
  text : String
  digits : isHexOf 40 text = true
  lower : toLowerCase text = text
  deriving DecidableEq, Repr

/-! ## Transactions and blocks -/

/-- The properties of a transaction that are copied; `others` are those the interfaces do not
name. -/
structure TransactionProperties where
  hash : String
  blockHash : Field String
  input : String
  others : List (String × String)
  deriving DecidableEq, Repr

structure RawTransaction extends TransactionProperties where
  nonce : Quantity
  gas : Quantity
  blockNumber : Field Quantity
  transactionIndex : Field Quantity
  fromAddress : Address
  toAddress : Field Address
  value : BigQuantity 256
  gasPrice : BigQuantity 256
  maxFeePerGas : Field (BigQuantity 256)
  maxPriorityFeePerGas : Field (BigQuantity 256)
  type : Field Quantity
  deriving DecidableEq, Repr

/-- A transaction of the client library; its large numbers are decimal texts. -/
structure Web3Transaction extends TransactionProperties where
  nonce : Nat
  gas : Nat
  blockNumber : Field Nat
  transactionIndex : Field Nat
  fromAddress : String
  toAddress : Field String
  value : String
  gasPrice : String
  maxFeePerGas : Field Hexable
  maxPriorityFeePerGas : Field Hexable
  type : Field Nat
  deriving DecidableEq, Repr

/-- `ITransaction`: a formatted transaction with its receipt. -/
structure Transaction (Long : Type) extends TransactionProperties where
  nonce : Long
  gas : Long
  /-- `null` is absent. -/
  blockNumber : Option Long
  transactionIndex : Option Long
  fromAddress : String
  toAddress : Field String
  value : String
  gasPrice : String
  /-- `undefined` is absent. -/
  maxFeePerGas : Option String
  maxPriorityFeePerGas : Option String
  type : Field Nat
  receipt : TransactionReceipt Long
  deriving DecidableEq, Repr

/-- The properties of a block that are copied; `others` are those the interfaces do not name. -/
structure BlockProperties where
  hash : String
  parentHash : String
  logsBloom : String
  receiptsRoot : String
  sha3Uncles : String
  stateRoot : String
  transactionsRoot : String
  extraData : String
  others : List (String × String)
  deriving DecidableEq, Repr

structure RawBlock extends BlockProperties where
  number : Quantity
  gasLimit : Quantity
  gasUsed : Quantity
  size : Quantity
  timestamp : Quantity
  difficulty : BigQuantity 256
  totalDifficulty : BigQuantity 256
  nonce : BigQuantity 64
  baseFeePerGas : Field Quantity
  miner : Address
  transactions : List RawTransaction
  deriving DecidableEq, Repr

/-- A block of the client library with its transactions. -/
structure Web3Block extends BlockProperties where
  number : Nat
  gasLimit : Nat
  gasUsed : Nat
  size : Nat
  timestamp : Nat
  difficulty : String
  totalDifficulty : String
  nonce : String
  baseFeePerGas : Field Hexable
  miner : String
  transactions : List Web3Transaction
  deriving DecidableEq, Repr

/-- `IBlock`: a formatted block. -/
structure Block (Long : Type) extends BlockProperties where
  number : Long
  gasLimit : Long
  gasUsed : Long
  size : String
  timestamp : Long
  difficulty : String
  totalDifficulty : String
  nonce : Long
  baseFeePerGas : Option String
  miner : String
  transactions : List (Transaction Long)
  deriving DecidableEq, Repr

/-- What the libraries do with blocks. -/
structure BlockLibraries (Long : Type) extends Libraries Long where
  outputTransactionFormatter : RawTransaction → Web3Transaction
  outputBlockFormatter : RawBlock → Web3Block
  hexToNumberString : String → String
  /-- `Long.fromValue(value, true)` of a decimal text. -/
  fromText : String → Long
  /-- The number that a long integer stands for. -/
  toNumber : Long → Nat

/-- The decimal text of a number. -/
def decimal (n : Nat) : String := n.repr

/-- The number has forty decimal digits, as an address has hexadecimal ones. -/
def LooksLikeAddress (n : Nat) : Prop := (decimal n).length = 40

instance (n : Nat) : Decidable (LooksLikeAddress n) := inferInstanceAs (Decidable (_ = _))

/-- What the libraries document. -/
structure BlockLibraries.Documented {Long : Type} (w : BlockLibraries Long) : Prop
    extends w.toLibraries.Documented where
  toHex_decimal : ∀ n < 2 ^ 256, ¬ LooksLikeAddress n → w.toHex (.text (decimal n)) = quantity n
  /-- Forty digits are an address to `isAddress`, which needs no prefix. -/
  toHex_address : ∀ n, LooksLikeAddress n → w.toHex (.text (decimal n)) = "0x" ++ decimal n
  outputLogFormatter : ∀ log : RawEventLog,
    (w.outputLogFormatter log).logIndex = log.logIndex.value ∧
    (w.outputLogFormatter log).transactionIndex = log.transactionIndex.value ∧
    (w.outputLogFormatter log).blockNumber = log.blockNumber.value
  outputTransactionFormatter : ∀ transaction : RawTransaction,
    w.outputTransactionFormatter transaction = { transaction.toTransactionProperties with
      nonce := w.hexToNumber transaction.nonce.text
      gas := w.hexToNumber transaction.gas.text
      blockNumber := transaction.blockNumber.map fun q => w.hexToNumber q.text
      transactionIndex := transaction.transactionIndex.map fun q => w.hexToNumber q.text
      fromAddress := w.toChecksumAddress transaction.fromAddress.text
      toAddress := match transaction.toAddress with
        | .value address => .value (w.toChecksumAddress address.text)
        | .absent | .null => .null
      value := decimal transaction.value.value
      gasPrice := decimal transaction.gasPrice.value
      maxFeePerGas := transaction.maxFeePerGas.map fun q => .text (decimal q.value)
      maxPriorityFeePerGas := transaction.maxPriorityFeePerGas.map fun q =>
        .text (decimal q.value)
      type := transaction.type.map fun q => w.hexToNumber q.text }
  outputBlockFormatter : ∀ block : RawBlock,
    w.outputBlockFormatter block = { block.toBlockProperties with
      number := w.hexToNumber block.number.text
      gasLimit := w.hexToNumber block.gasLimit.text
      gasUsed := w.hexToNumber block.gasUsed.text
      size := w.hexToNumber block.size.text
      timestamp := w.hexToNumber block.timestamp.text
      difficulty := decimal block.difficulty.value
      totalDifficulty := decimal block.totalDifficulty.value
      nonce := block.nonce.text
      baseFeePerGas := block.baseFeePerGas.map fun q => .number (w.hexToNumber q.text)
      miner := w.toChecksumAddress block.miner.text
      transactions := block.transactions.map w.outputTransactionFormatter }
  hexToNumberString : ∀ q : BigQuantity 64, w.hexToNumberString q.text = decimal q.value
  toNumber_fromValue : ∀ n < safeBound, w.toNumber (w.fromValue n) = n
  toNumber_fromText : ∀ n < 2 ^ 64, w.toNumber (w.fromText (decimal n)) = n

variable {Long : Type}

/-! ## The formatter -/

/-- A number that is there becomes a long integer, zero as well. -/
def formatIndex (w : BlockLibraries Long) : Field Nat → Option Long
  | .value n => some (w.fromValue n)
  | .absent | .null => none

def formatTransactionObject (w : BlockLibraries Long) (transactionObject : Web3Transaction)
    (receipt : TransactionReceipt Long) : Transaction Long :=
  { transactionObject.toTransactionProperties with
    fromAddress := transactionObject.fromAddress
    toAddress := transactionObject.toAddress
    type := transactionObject.type
    receipt := receipt
    value := w.toHex (.text transactionObject.value)
    transactionIndex := formatIndex w transactionObject.transactionIndex
    gas := w.fromValue transactionObject.gas
    gasPrice := w.toHex (.text transactionObject.gasPrice)
    nonce := w.fromValue transactionObject.nonce
    maxFeePerGas := formatGasPrice w.toLibraries transactionObject.maxFeePerGas
    maxPriorityFeePerGas := formatGasPrice w.toLibraries transactionObject.maxPriorityFeePerGas
    blockNumber := formatIndex w transactionObject.blockNumber }

def formatRawTransactionObject (w : BlockLibraries Long) (transaction : RawTransaction)
    (receipt : TransactionReceipt Long) : Transaction Long :=
  formatTransactionObject w (w.outputTransactionFormatter transaction) receipt

def formatBlockWithTransactions (w : BlockLibraries Long) (block : Web3Block)
    (transactions : List (Transaction Long)) : Block Long :=
  { block.toBlockProperties with
    miner := block.miner
    nonce := w.fromText (w.hexToNumberString block.nonce)
    difficulty := w.toHex (.text block.difficulty)
    totalDifficulty := w.toHex (.text block.totalDifficulty)
    timestamp := w.fromValue (block.timestamp * 1000)
    number := w.fromValue block.number
    baseFeePerGas := formatGasPrice w.toLibraries block.baseFeePerGas
    size := w.toHex (.number block.size)
    transactions := transactions
    gasLimit := w.fromValue block.gasLimit
    gasUsed := w.fromValue block.gasUsed }

def formatRawBlock (w : BlockLibraries Long) (block : RawBlock)
    (transactions : List (Transaction Long)) : Block Long :=
  formatBlockWithTransactions w (w.outputBlockFormatter block) transactions

/-! ## The getters -/

/-- The classes of block getters. -/
inductive Kind where
  | blockGetter
  | erigonBlockGetter
  | quickNodeBlockGetter
  deriving DecidableEq, Repr

/-- The receipts that a getter has before it goes over the transactions. -/
def Kind.receipts (receipts : List RawReceipt) : Kind → Option (List RawReceipt)
  | .blockGetter => none
  | .erigonBlockGetter | .quickNodeBlockGetter => some receipts

/-- What a getter makes of a block, where the node answers with these receipts of the block and with
this receipt of each transaction. -/
def getBlock (w : BlockLibraries Long) (receipts : List RawReceipt) (answer : String → RawReceipt)
    (block : RawBlock) (kind : Kind) : Except String (Block Long) :=
  let receiptOf (hash : String) := receiptFor w.toLibraries (kind.receipts receipts) hash
    (answer hash)
  match kind with
  | .blockGetter | .erigonBlockGetter =>
    let found := w.outputBlockFormatter block
    (found.transactions.mapM fun transactionObject =>
      (receiptOf transactionObject.hash).map (formatTransactionObject w transactionObject)).map
        (formatBlockWithTransactions w found)
  | .quickNodeBlockGetter =>
    (block.transactions.mapM fun transaction =>
      (receiptOf transaction.hash).map (formatRawTransactionObject w transaction)).map
        (formatRawBlock w block)

end ChainIndexer.Formatter
