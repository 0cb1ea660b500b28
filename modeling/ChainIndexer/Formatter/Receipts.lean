import ChainIndexer.Core.Hex
import ChainIndexer.Getter.Calls

/-!
# Formatting receipts

A receipt comes raw from a call for a whole block, or formatted by the client library from a call
for one transaction. Either way it ends up with long integers. What the libraries do is a parameter;
an error is the message it is thrown with.
-/

namespace ChainIndexer.Formatter

/-- What an object has under a key. -/
inductive Field (α : Type) where
  | absent
  | null
  | value (a : α)
  deriving DecidableEq, Repr

/-- Convert the value that is there. -/
def Field.map {α β : Type} (f : α → β) : Field α → Field β
  | .absent => .absent
  | .null => .null
  | .value a => .value (f a)

@[simp] theorem Field.map_absent {α β : Type} (f : α → β) : Field.absent.map f = .absent := rfl

@[simp] theorem Field.map_null {α β : Type} (f : α → β) : Field.null.map f = .null := rfl

@[simp] theorem Field.map_value {α β : Type} (f : α → β) (a : α) :
    (Field.value a).map f = .value (f a) := rfl

/-- Two to the power of 53, below which numbers are exact. -/
def safeBound : Nat := 9007199254740992

/-- A hexadecimal number that is exact, of which fourteen digits are enough. -/
structure Quantity where
  text : String
  value : Nat
  reads : hexValue text = some value
  small : value < safeBound
  short : text.length ≤ 16
  deriving DecidableEq, Repr

private theorem length_quantity_le {n : Nat} (h : n < safeBound) : (quantity n).length ≤ 16 := by
  have hlength : (Nat.toDigits 16 n).length ≤ 14 := by
    rw [Nat.length_toDigits_le_iff (by decide) (by decide)]
    exact Nat.lt_trans h (by decide)
  rw [quantity, String.length_ofList, List.length_cons, List.length_cons]
  omega

/-- The shortest text of a number. -/
def Quantity.ofNat (n : Nat) (h : n < safeBound) : Quantity where
  text := quantity n
  value := n
  reads := hexValue_quantity n
  small := h
  short := length_quantity_le h

/-- The number is written as short as possible. -/
def Quantity.Compact (q : Quantity) : Prop := q.text = quantity q.value

instance (q : Quantity) : Decidable q.Compact := inferInstanceAs (Decidable (_ = _))

/-- A value that is a text or a number. -/
inductive Hexable where
  | text (s : String)
  | number (n : Nat)
  deriving DecidableEq, Repr

/-- Whether the value counts as true. -/
def Hexable.truthy : Hexable → Bool
  | .text s => s ≠ ""
  | .number n => n ≠ 0

/-! ## Built-in conversions -/

/-- The white space that `parseInt` skips. -/
def isStrWhiteSpace (c : Char) : Bool :=
  c.toNat ∈ [0x9, 0xa, 0xb, 0xc, 0xd, 0x20, 0xa0, 0x1680, 0x2028, 0x2029, 0x202f, 0x205f, 0x3000,
    0xfeff] || (0x2000 ≤ c.toNat && c.toNat ≤ 0x200a)

/-- The value of the longest run of digits in this base at the beginning, if there is any. -/
def leadingDigits (base : Nat) (text : List Char) : Option Nat :=
  match (text.map hexDigit).takeWhile fun digit => digit.any (· < base) with
  | [] => none
  | digits => some (digits.foldl (fun n digit => base * n + digit.getD 0) 0)

/-- `parseInt` without a base; `NaN` is absent. -/
def parseInt (text : String) : Option Int :=
  let trimmed := text.toList.dropWhile isStrWhiteSpace
  let (sign, unsigned) := match trimmed with
    | '-' :: rest => ((-1 : Int), rest)
    | '+' :: rest => (1, rest)
    | _ => (1, trimmed)
  let magnitude := match unsigned with
    | '0' :: 'x' :: rest | '0' :: 'X' :: rest => leadingDigits 16 rest
    | _ => leadingDigits 10 unsigned
  magnitude.map fun n => sign * n

/-- `Boolean` of a number. -/
def toBoolean : Option Int → Bool
  | none => false
  | some n => n ≠ 0

/-! ## Receipts -/

/-- The properties of a log that are copied. -/
structure LogProperties where
  address : String
  data : String
  topics : List String
  transactionHash : String
  blockHash : String
  removed : Field Bool
  deriving DecidableEq, Repr

structure RawEventLog extends LogProperties where
  logIndex : Quantity
  transactionIndex : Quantity
  blockNumber : Quantity
  deriving DecidableEq, Repr

/-- A log of the client library. -/
structure Web3Log extends LogProperties where
  id : Field String
  logIndex : Nat
  transactionIndex : Nat
  blockNumber : Nat
  deriving DecidableEq, Repr

/-- A formatted log. -/
structure EventLog (Long : Type) extends LogProperties where
  id : Field String
  logIndex : Long
  transactionIndex : Long
  blockNumber : Long
  deriving DecidableEq, Repr

/-- The properties of a receipt that are copied; `others` are those the interfaces do not name. -/
structure ReceiptProperties where
  transactionHash : String
  blockHash : String
  fromAddress : String
  toAddress : Field String
  logsBloom : String
  others : List (String × String)
  deriving DecidableEq, Repr

structure RawReceipt extends ReceiptProperties where
  transactionIndex : Quantity
  blockNumber : Quantity
  gasUsed : Quantity
  cumulativeGasUsed : Quantity
  contractAddress : Field String
  logs : Field (List RawEventLog)
  status : Field String
  effectiveGasPrice : Field Quantity
  deriving DecidableEq, Repr

/-- A receipt of the client library. -/
structure Web3TransactionReceipt extends ReceiptProperties where
  transactionIndex : Nat
  blockNumber : Nat
  gasUsed : Nat
  cumulativeGasUsed : Nat
  contractAddress : Field String
  logs : Field (List Web3Log)
  status : Field Bool
  effectiveGasPrice : Field Hexable
  deriving DecidableEq, Repr

/-- A formatted receipt. -/
structure TransactionReceipt (Long : Type) extends ReceiptProperties where
  transactionIndex : Long
  blockNumber : Long
  gasUsed : Long
  cumulativeGasUsed : Long
  contractAddress : Field String
  logs : List (EventLog Long)
  status : Field Bool
  /-- `undefined` is absent. -/
  effectiveGasPrice : Option String
  deriving DecidableEq, Repr

/-- What the libraries do. -/
structure Libraries (Long : Type) where
  hexToNumber : String → Nat
  toHex : Hexable → String
  toChecksumAddress : String → String
  outputLogFormatter : RawEventLog → Web3Log
  /-- The formatter that `eth.getTransactionReceipt` applies. -/
  outputTransactionReceiptFormatter : RawReceipt → Web3TransactionReceipt
  /-- `Long.fromValue(value, true)`. -/
  fromValue : Nat → Long

/-- What the libraries document. -/
structure Libraries.Documented {Long : Type} (w : Libraries Long) : Prop where
  hexToNumber : ∀ q : Quantity, w.hexToNumber q.text = q.value
  /-- A hexadecimal text is kept. -/
  toHex_text : ∀ q : Quantity, w.toHex (.text q.text) = q.text
  toHex_number : ∀ n < safeBound, w.toHex (.number n) = quantity n
  outputTransactionReceiptFormatter : ∀ receipt : RawReceipt,
    w.outputTransactionReceiptFormatter receipt = { receipt.toReceiptProperties with
      transactionIndex := w.hexToNumber receipt.transactionIndex.text
      blockNumber := w.hexToNumber receipt.blockNumber.text
      gasUsed := w.hexToNumber receipt.gasUsed.text
      cumulativeGasUsed := w.hexToNumber receipt.cumulativeGasUsed.text
      contractAddress := receipt.contractAddress.map w.toChecksumAddress
      logs := receipt.logs.map (List.map w.outputLogFormatter)
      status := receipt.status.map fun status => toBoolean (parseInt status)
      effectiveGasPrice := receipt.effectiveGasPrice.map fun price =>
        .number (w.hexToNumber price.text) }

variable {Long : Type}

/-- The function that `formatTransactionReceipt` maps over the logs. -/
def formatLog (w : Libraries Long) (log : Web3Log) : EventLog Long :=
  { log.toLogProperties with
    id := log.id
    transactionIndex := w.fromValue log.transactionIndex
    logIndex := w.fromValue log.logIndex
    blockNumber := w.fromValue log.blockNumber }

/-- The price is undefined unless it is a text or a number. -/
def formatGasPrice (w : Libraries Long) : Field Hexable → Option String
  | .value price => if price.truthy ∨ price = .number 0 then some (w.toHex price) else none
  | .absent | .null => none

def formatTransactionReceipt (w : Libraries Long) (transactionReceipt : Web3TransactionReceipt) :
    Except String (TransactionReceipt Long) :=
  match transactionReceipt.logs with
  | .absent => .error "Cannot read properties of undefined (reading 'map')"
  | .null => .error "Cannot read properties of null (reading 'map')"
  | .value logs => .ok { transactionReceipt.toReceiptProperties with
      contractAddress := transactionReceipt.contractAddress
      status := transactionReceipt.status
      effectiveGasPrice := formatGasPrice w transactionReceipt.effectiveGasPrice
      cumulativeGasUsed := w.fromValue transactionReceipt.cumulativeGasUsed
      transactionIndex := w.fromValue transactionReceipt.transactionIndex
      blockNumber := w.fromValue transactionReceipt.blockNumber
      gasUsed := w.fromValue transactionReceipt.gasUsed
      logs := logs.map (formatLog w) }

/-- The status of a raw receipt; where there is none the transaction counts as failed. -/
def formatRawStatus : Field String → Bool
  | .value status => toBoolean (parseInt status)
  | .absent | .null => false

/-- The logs of a raw receipt; where there are none the list is empty. -/
def formatRawLogs (w : Libraries Long) : Field (List RawEventLog) → List Web3Log
  | .value logs => logs.map w.outputLogFormatter
  | .absent | .null => []

/-- `formatRawReceipt`; a receipt that is not there is returned as it is. -/
def formatRawReceipt (w : Libraries Long) :
    Option RawReceipt → Except String (Option (TransactionReceipt Long))
  | none => .ok none
  | some receipt => (formatTransactionReceipt w { receipt.toReceiptProperties with
      contractAddress := receipt.contractAddress
      blockNumber := w.hexToNumber receipt.blockNumber.text
      cumulativeGasUsed := w.hexToNumber receipt.cumulativeGasUsed.text
      transactionIndex := w.hexToNumber receipt.transactionIndex.text
      gasUsed := w.hexToNumber receipt.gasUsed.text
      logs := .value (formatRawLogs w receipt.logs)
      effectiveGasPrice := receipt.effectiveGasPrice.map fun price => .text price.text
      status := .value (formatRawStatus receipt.status) }).map some

/-- The receipt of a transaction, found in the answer for the block or else asked for, where the
node answers with this one. -/
def receiptFor (w : Libraries Long) (receipts : Option (List RawReceipt)) (transactionHash : String)
    (answer : RawReceipt) : Except String (TransactionReceipt Long) :=
  (formatRawReceipt w (receipts.bind fun found =>
    found.find? (·.transactionHash = transactionHash))).bind fun formatted =>
      match formatted with
      | some receipt => .ok receipt
      | none => formatTransactionReceipt w (w.outputTransactionReceiptFormatter answer)

/-! ## What the getters keep -/

/-- The hashes of a receipt of the client library, and the error that formatting it throws. -/
def Web3TransactionReceipt.view (receipt : Web3TransactionReceipt) : Getter.Receipt where
  transactionHash := receipt.transactionHash
  blockHash := receipt.blockHash
  fault := match receipt.logs with
    | .absent => some "Cannot read properties of undefined (reading 'map')"
    | .null => some "Cannot read properties of null (reading 'map')"
    | .value _ => none

/-- The hashes of a formatted receipt. -/
def TransactionReceipt.view (receipt : TransactionReceipt Long) : Getter.TransactionReceipt where
  transactionHash := receipt.transactionHash
  blockHash := receipt.blockHash

/-- The getters keep of the formatting what they keep of the receipt. -/
theorem formatTransactionReceipt_view (w : Libraries Long) (receipt : Web3TransactionReceipt) :
    ((formatTransactionReceipt w receipt).map TransactionReceipt.view).mapError .unknown =
      Getter.formatTransactionReceipt receipt.view := by
  unfold formatTransactionReceipt Getter.formatTransactionReceipt Web3TransactionReceipt.view
  cases receipt.logs with
  | absent => rfl
  | null => rfl
  | value logs => rfl

end ChainIndexer.Formatter
