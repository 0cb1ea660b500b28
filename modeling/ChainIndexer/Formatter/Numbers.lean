import ChainIndexer.Formatter.Getters

/-!
# The numbers of a block

A formatted block writes its numbers in other ways than the raw one: as long integers, or as
hexadecimal texts that need not be the raw ones. Read back, they are the numbers of the raw block
and of the receipts, with the timestamp in milliseconds, whichever getter has formatted it, unless
a large number has forty decimal digits: then it is taken for an address.
-/

namespace ChainIndexer.Formatter

variable {Long : Type} {w : BlockLibraries Long}

structure LogNumbers where
  logIndex : Nat
  transactionIndex : Nat
  blockNumber : Nat
  deriving DecidableEq, Repr

structure ReceiptNumbers where
  transactionIndex : Nat
  blockNumber : Nat
  gasUsed : Nat
  cumulativeGasUsed : Nat
  effectiveGasPrice : Option Nat
  logs : List LogNumbers
  deriving DecidableEq, Repr

structure TransactionNumbers where
  nonce : Nat
  gas : Nat
  blockNumber : Option Nat
  transactionIndex : Option Nat
  value : Option Nat
  gasPrice : Option Nat
  maxFeePerGas : Option Nat
  maxPriorityFeePerGas : Option Nat
  type : Option Nat
  receipt : ReceiptNumbers
  deriving DecidableEq, Repr

structure BlockNumbers where
  number : Nat
  gasLimit : Nat
  gasUsed : Nat
  size : Option Nat
  timestamp : Nat
  difficulty : Option Nat
  totalDifficulty : Option Nat
  nonce : Nat
  baseFeePerGas : Option Nat
  transactions : List TransactionNumbers
  deriving DecidableEq, Repr

/-! ## Raw -/

def RawEventLog.numbers (log : RawEventLog) : LogNumbers where
  logIndex := log.logIndex.value
  transactionIndex := log.transactionIndex.value
  blockNumber := log.blockNumber.value

def RawReceipt.numbers (receipt : RawReceipt) : ReceiptNumbers where
  transactionIndex := receipt.transactionIndex.value
  blockNumber := receipt.blockNumber.value
  gasUsed := receipt.gasUsed.value
  cumulativeGasUsed := receipt.cumulativeGasUsed.value
  effectiveGasPrice := receipt.effectiveGasPrice.toOption.map (·.value)
  logs := (receipt.logs.toOption.getD []).map RawEventLog.numbers

def RawTransaction.numbers (receipt : RawReceipt) (transaction : RawTransaction) :
    TransactionNumbers where
  nonce := transaction.nonce.value
  gas := transaction.gas.value
  blockNumber := transaction.blockNumber.toOption.map (·.value)
  transactionIndex := transaction.transactionIndex.toOption.map (·.value)
  value := some transaction.value.value
  gasPrice := some transaction.gasPrice.value
  maxFeePerGas := transaction.maxFeePerGas.toOption.map (·.value)
  maxPriorityFeePerGas := transaction.maxPriorityFeePerGas.toOption.map (·.value)
  type := transaction.type.toOption.map (·.value)
  receipt := receipt.numbers

/-- The timestamp is in milliseconds. -/
def RawBlock.numbers (answer : String → RawReceipt) (block : RawBlock) : BlockNumbers where
  number := block.number.value
  gasLimit := block.gasLimit.value
  gasUsed := block.gasUsed.value
  size := some block.size.value
  timestamp := block.timestamp.value * 1000
  difficulty := some block.difficulty.value
  totalDifficulty := some block.totalDifficulty.value
  nonce := block.nonce.value
  baseFeePerGas := block.baseFeePerGas.toOption.map (·.value)
  transactions := block.transactions.map fun transaction =>
    transaction.numbers (answer transaction.hash)

/-! ## Formatted -/

def EventLog.numbers (w : BlockLibraries Long) (log : EventLog Long) : LogNumbers where
  logIndex := w.toNumber log.logIndex
  transactionIndex := w.toNumber log.transactionIndex
  blockNumber := w.toNumber log.blockNumber

def TransactionReceipt.numbers (w : BlockLibraries Long) (receipt : TransactionReceipt Long) :
    ReceiptNumbers where
  transactionIndex := w.toNumber receipt.transactionIndex
  blockNumber := w.toNumber receipt.blockNumber
  gasUsed := w.toNumber receipt.gasUsed
  cumulativeGasUsed := w.toNumber receipt.cumulativeGasUsed
  effectiveGasPrice := receipt.effectiveGasPrice.bind hexValue
  logs := receipt.logs.map (EventLog.numbers w)

def Transaction.numbers (w : BlockLibraries Long) (transaction : Transaction Long) :
    TransactionNumbers where
  nonce := w.toNumber transaction.nonce
  gas := w.toNumber transaction.gas
  blockNumber := transaction.blockNumber.map w.toNumber
  transactionIndex := transaction.transactionIndex.map w.toNumber
  value := hexValue transaction.value
  gasPrice := hexValue transaction.gasPrice
  maxFeePerGas := transaction.maxFeePerGas.bind hexValue
  maxPriorityFeePerGas := transaction.maxPriorityFeePerGas.bind hexValue
  type := transaction.type.toOption
  receipt := transaction.receipt.numbers w

def Block.numbers (w : BlockLibraries Long) (block : Block Long) : BlockNumbers where
  number := w.toNumber block.number
  gasLimit := w.toNumber block.gasLimit
  gasUsed := w.toNumber block.gasUsed
  size := hexValue block.size
  timestamp := w.toNumber block.timestamp
  difficulty := hexValue block.difficulty
  totalDifficulty := hexValue block.totalDifficulty
  nonce := w.toNumber block.nonce
  baseFeePerGas := block.baseFeePerGas.bind hexValue
  transactions := block.transactions.map (Transaction.numbers w)

/-! ## What formatting keeps -/

/-- A price that is there is written as a hexadecimal text, from whatever it is. -/
theorem formatGasPrice_field {α : Type} {field : Field α} {write : α → Hexable} {value : α → Nat}
    (hwrite : ∀ a, (formatGasPrice w.toLibraries (.value (write a))).bind hexValue =
      some (value a)) :
    (formatGasPrice w.toLibraries (field.map write)).bind hexValue = field.toOption.map value := by
  cases field with
  | absent => rfl
  | null => rfl
  | value a => exact hwrite a

/-- Decimal digits behind the prefix are read as hexadecimal ones. -/
theorem hexValue_decimal_digits (n : Nat) :
    hexValue ("0x" ++ decimal n) = hexDigits 0 (Nat.toDigits 10 n) := by
  have hlist : ("0x" ++ decimal n).toList = '0' :: 'x' :: Nat.toDigits 10 n := by
    rw [String.toList_append, decimal, Nat.toList_repr]
    rfl
  rw [hexValue, hlist]
  cases hdigits : Nat.toDigits 10 n with
  | nil => exact absurd hdigits Nat.toDigits_ne_nil
  | cons digit digits => rfl

/-- A number with forty digits has more than one. -/
theorem ten_le_of_looksLikeAddress {n : Nat} (h : LooksLikeAddress n) : 10 ≤ n := by
  by_contra hless
  unfold LooksLikeAddress at h
  rw [decimal, ← String.length_toList, Nat.toList_repr,
    Nat.toDigits_of_lt_base (Nat.lt_of_not_le hless)] at h
  cases h

/-- No large number of the transaction is taken for an address. -/
structure RawTransaction.Plain (transaction : RawTransaction) : Prop where
  value : ¬ LooksLikeAddress transaction.value.value
  gasPrice : ¬ LooksLikeAddress transaction.gasPrice.value
  maxFeePerGas : ∀ q, transaction.maxFeePerGas = .value q → ¬ LooksLikeAddress q.value
  maxPriorityFeePerGas : ∀ q, transaction.maxPriorityFeePerGas = .value q →
    ¬ LooksLikeAddress q.value

/-- Nor is one of the block or of its transactions. -/
structure RawBlock.Plain (block : RawBlock) : Prop where
  difficulty : ¬ LooksLikeAddress block.difficulty.value
  totalDifficulty : ¬ LooksLikeAddress block.totalDifficulty.value
  transactions : ∀ transaction ∈ block.transactions, transaction.Plain

section Kept

variable (hw : w.Documented)

include hw

/-- A quantity is read back from its long integer. -/
theorem toNumber_quantity (q : Quantity) : w.toNumber (w.fromValue q.value) = q.value :=
  hw.toNumber_fromValue q.value q.small

/-- A number written as a decimal text is written in hexadecimal, unless it is taken for an
address: then its decimal digits are read as hexadecimal ones. -/
theorem hexValue_toHex_decimal_iff (q : BigQuantity 256) :
    hexValue (w.toHex (.text (decimal q.value))) = some q.value ↔ ¬ LooksLikeAddress q.value := by
  constructor
  · intro hreads haddress
    rw [hw.toHex_address _ haddress, hexValue_decimal_digits] at hreads
    obtain ⟨m, hm, -, hlarger⟩ := hexDigits_toDigits_ten q.value
    obtain rfl := Option.some.inj (hm.symm.trans hreads)
    exact absurd (hlarger (ten_le_of_looksLikeAddress haddress)) (Nat.lt_irrefl _)
  · intro hnot
    rw [hw.toHex_decimal q.value q.small hnot, hexValue_quantity]

private theorem formatIndex_toNumber (field : Field Quantity) :
    (formatIndex w (field.map fun q => w.hexToNumber q.text)).map w.toNumber =
      field.toOption.map (·.value) := by
  cases field with
  | absent => rfl
  | null => rfl
  | value q =>
    rw [Field.map_value, hw.hexToNumber, formatIndex, Option.map_some, toNumber_quantity hw]
    rfl

private theorem formatGasPrice_reads_text (field : Field Quantity) :
    (formatGasPrice w.toLibraries (field.map fun q => .text q.text)).bind hexValue =
      field.toOption.map (·.value) := by
  refine formatGasPrice_field fun q => ?_
  rw [formatGasPrice_text hw.toDocumented, Option.bind_some, q.reads]

/-- A gas price that is a number is read back. -/
theorem formatGasPrice_reads_number (field : Field Quantity) :
    (formatGasPrice w.toLibraries (field.map fun q => .number (w.hexToNumber q.text))).bind
      hexValue = field.toOption.map (·.value) := by
  refine formatGasPrice_field fun q => ?_
  rw [hw.hexToNumber, formatGasPrice_number hw.toDocumented q.small, Option.bind_some,
    hexValue_quantity]

private theorem formatGasPrice_reads_decimal_iff (field : Field (BigQuantity 256)) :
    (formatGasPrice w.toLibraries (field.map fun q => .text (decimal q.value))).bind hexValue =
      field.toOption.map (·.value) ↔ ∀ q, field = .value q → ¬ LooksLikeAddress q.value := by
  cases field with
  | absent => exact iff_of_true rfl nofun
  | null => exact iff_of_true rfl nofun
  | value q =>
    have htext : (Hexable.text (decimal q.value)).truthy = true := by
      rw [Hexable.truthy, decide_eq_true_eq]
      intro hempty
      have hlist := congrArg String.toList hempty
      rw [decimal, Nat.toList_repr] at hlist
      exact Nat.toDigits_ne_nil hlist
    rw [Field.map_value, formatGasPrice, if_pos (Or.inl htext), Option.bind_some,
      Field.toOption_value, Option.map_some, hexValue_toHex_decimal_iff hw]
    exact ⟨fun hnot p hp => Field.value.inj hp ▸ hnot, fun hall => hall q rfl⟩

private theorem formatLog_numbers (log : RawEventLog) :
    (formatLog w.toLibraries (w.outputLogFormatter log)).numbers w = log.numbers := by
  obtain ⟨hindex, htransaction, hblock⟩ := hw.outputLogFormatter log
  simp only [EventLog.numbers, formatLog, RawEventLog.numbers, hindex, htransaction, hblock,
    toNumber_quantity hw]

/-- What is formatted of a receipt has its numbers, whether it comes from the client library or
straight from the raw one. -/
theorem formatTransactionReceipt_numbers {receipt : RawReceipt} {client : Web3TransactionReceipt}
    {result : TransactionReceipt Long} (logs : List RawEventLog)
    (htransaction : client.transactionIndex = receipt.transactionIndex.value)
    (hblock : client.blockNumber = receipt.blockNumber.value)
    (hgas : client.gasUsed = receipt.gasUsed.value)
    (hcumulative : client.cumulativeGasUsed = receipt.cumulativeGasUsed.value)
    (hprice : (formatGasPrice w.toLibraries client.effectiveGasPrice).bind hexValue =
      receipt.effectiveGasPrice.toOption.map (·.value))
    (hlogs : client.logs = .value (logs.map w.outputLogFormatter))
    (hraw : receipt.logs.toOption.getD [] = logs)
    (h : formatTransactionReceipt w.toLibraries client = .ok result) :
    result.numbers w = receipt.numbers := by
  rw [formatTransactionReceipt, hlogs] at h
  obtain rfl := Except.ok.inj h
  have hall : ((logs.map w.outputLogFormatter).map (formatLog w.toLibraries)).map
      (EventLog.numbers w) = logs.map RawEventLog.numbers := by
    rw [List.map_map, List.map_map]
    exact List.map_congr_left fun log _ => formatLog_numbers hw log
  simp only [TransactionReceipt.numbers, RawReceipt.numbers, htransaction, hblock, hgas,
    hcumulative, hprice, hraw, hall, toNumber_quantity hw]

private theorem formatRawReceipt_numbers {receipt : RawReceipt} {result : TransactionReceipt Long}
    (h : formatRawReceipt w.toLibraries (some receipt) = .ok (some result)) :
    result.numbers w = receipt.numbers := by
  obtain ⟨logs, hraw⟩ : ∃ logs, receipt.logs.toOption.getD [] = logs := ⟨_, rfl⟩
  have hlogs : formatRawLogs w.toLibraries receipt.logs = logs.map w.outputLogFormatter := by
    rw [← hraw]
    cases receipt.logs with
    | absent => rfl
    | null => rfl
    | value logs => rfl
  rw [formatRawReceipt] at h
  obtain ⟨found, hformatted, heq⟩ := map_eq_ok_iff.mp h
  obtain rfl := Option.some.inj heq
  exact formatTransactionReceipt_numbers hw logs (hw.hexToNumber _) (hw.hexToNumber _)
    (hw.hexToNumber _) (hw.hexToNumber _) (formatGasPrice_reads_text hw _)
    (congrArg Field.value hlogs) hraw hformatted

private theorem clientReceipt_numbers {receipt : RawReceipt} {result : TransactionReceipt Long}
    (h : formatTransactionReceipt w.toLibraries
      (w.outputTransactionReceiptFormatter receipt) = .ok result) :
    result.numbers w = receipt.numbers := by
  rw [hw.outputTransactionReceiptFormatter] at h
  cases hlogs : receipt.logs with
  | absent =>
    rw [hlogs] at h
    cases h
  | null =>
    rw [hlogs] at h
    cases h
  | value logs =>
    refine formatTransactionReceipt_numbers hw logs (hw.hexToNumber _)
      (hw.hexToNumber _) (hw.hexToNumber _) (hw.hexToNumber _) (formatGasPrice_reads_number hw _)
      ?_ ?_ h
    · rw [hlogs]
      rfl
    · rw [hlogs]
      rfl

/-- It does not matter where the receipt is found. -/
theorem receiptFor_numbers {receipts : Option (List RawReceipt)} {transactionHash : String}
    {answer : RawReceipt} {result : TransactionReceipt Long}
    (hsame : ∀ found, (receipts.bind fun list =>
      list.find? (·.transactionHash = transactionHash)) = some found → found = answer)
    (h : receiptFor w.toLibraries receipts transactionHash answer = .ok result) :
    result.numbers w = answer.numbers := by
  unfold receiptFor at h
  cases hfind : receipts.bind fun list => list.find? (·.transactionHash = transactionHash) with
  | none =>
    rw [hfind] at h
    exact clientReceipt_numbers hw h
  | some found =>
    obtain rfl := hsame found hfind
    rw [hfind] at h
    obtain ⟨formatted, hformatted⟩ := formatRawReceipt_some w.toLibraries found
    rw [hformatted] at h
    obtain rfl := Except.ok.inj h
    exact formatRawReceipt_numbers hw hformatted

private theorem formatRawTransactionObject_numbers {receipt : RawReceipt}
    {formatted : TransactionReceipt Long} (h : formatted.numbers w = receipt.numbers)
    (transaction : RawTransaction) :
    (formatRawTransactionObject w transaction formatted).numbers w =
      transaction.numbers receipt ↔ transaction.Plain := by
  have htype : (transaction.type.map fun q => w.hexToNumber q.text).toOption =
      transaction.type.toOption.map (·.value) := by
    cases transaction.type with
    | absent => rfl
    | null => rfl
    | value q => exact congrArg some (hw.hexToNumber q)
  simp only [formatRawTransactionObject, formatTransactionObject, hw.outputTransactionFormatter,
    Transaction.numbers, RawTransaction.numbers, h, htype, formatIndex_toNumber hw,
    TransactionNumbers.mk.injEq, formatGasPrice_reads_decimal_iff hw,
    hexValue_toHex_decimal_iff hw]
  simp only [hw.hexToNumber, toNumber_quantity hw, true_and, and_true]
  constructor
  · rintro ⟨hvalue, hprice, hfee, hpriority⟩
    exact ⟨hvalue, hprice, hfee, hpriority⟩
  · intro hplain
    exact ⟨hplain.value, hplain.gasPrice, hplain.maxFeePerGas, hplain.maxPriorityFeePerGas⟩

private theorem formatRawBlock_numbers {block : RawBlock} {answer : String → RawReceipt}
    {transactions : List (Transaction Long)} (hexact : block.timestamp.value * 1000 < safeBound)
    (h : transactions.map (Transaction.numbers w) = (block.transactions.map fun transaction =>
      transaction.numbers (answer transaction.hash)) ↔
        ∀ transaction ∈ block.transactions, transaction.Plain) :
    (formatRawBlock w block transactions).numbers w = block.numbers answer ↔ block.Plain := by
  have hsize : hexValue (w.toHex (.number block.size.value)) = some block.size.value := by
    rw [hw.toHex_number _ block.size.small, hexValue_quantity]
  simp only [formatRawBlock, formatBlockWithTransactions, hw.outputBlockFormatter, Block.numbers,
    RawBlock.numbers, h, hw.hexToNumberString, hw.toNumber_fromText _ block.nonce.small,
    formatGasPrice_reads_number hw, BlockNumbers.mk.injEq, hexValue_toHex_decimal_iff hw]
  simp only [hw.hexToNumber, hsize, hw.toNumber_fromValue _ hexact, toNumber_quantity hw, true_and]
  constructor
  · rintro ⟨hdifficulty, htotal, htransactions⟩
    exact ⟨hdifficulty, htotal, htransactions⟩
  · intro hplain
    exact ⟨hplain.difficulty, hplain.totalDifficulty, hplain.transactions⟩

/-- **Formatting keeps the numbers** if and only if none of the large ones is taken for an address.
Whichever getter returns a block, it then has the numbers of the raw block, of its transactions in
order and of their receipts. -/
theorem getBlock_numbers_iff {block : RawBlock} {receipts : List RawReceipt}
    {answer : String → RawReceipt} {kind : Kind} {result : Block Long}
    (hsame : ∀ transaction ∈ block.transactions, ∀ found,
      receipts.find? (·.transactionHash = transaction.hash) = some found →
        found = answer transaction.hash)
    (hexact : block.timestamp.value * 1000 < safeBound)
    (h : getBlock w receipts answer block kind = .ok result) :
    result.numbers w = block.numbers answer ↔ block.Plain := by
  rw [getBlock_eq hw] at h
  obtain ⟨transactions, hmap, rfl⟩ := map_eq_ok_iff.mp h
  refine formatRawBlock_numbers hw hexact
    (map_eq_map_iff_of_mapM hmap fun transaction hmem value hvalue => ?_)
  obtain ⟨receipt, hreceipt, rfl⟩ := map_eq_ok_iff.mp hvalue
  refine formatRawTransactionObject_numbers hw (receiptFor_numbers hw (fun found hfind => ?_)
    hreceipt) transaction
  cases kind with
  | blockGetter => cases hfind
  | erigonBlockGetter => exact hsame transaction hmem found hfind
  | quickNodeBlockGetter => exact hsame transaction hmem found hfind

end Kept

private theorem exampleBlock_plain : exampleBlock.Plain := by
  refine ⟨by decide, by decide, fun transaction hmem => ?_⟩
  obtain rfl := List.mem_singleton.mp hmem
  refine ⟨by decide, by decide, ?_, nofun⟩
  rintro _ ⟨⟩
  decide

/-- The numbers of the example are kept, whichever getter returns it; with a total difficulty of
forty digits they are not. -/
theorem exampleBlock_numbers : ∃ result total,
    getBlock exampleBlockLibraries [createdContract] (fun _ => createdContract) exampleBlock
      .quickNodeBlockGetter = .ok result ∧
    result.numbers exampleBlockLibraries = exampleBlock.numbers (fun _ => createdContract) ∧
    getBlock exampleBlockLibraries [createdContract] (fun _ => createdContract)
      { exampleBlock with totalDifficulty := .ofNat (10 ^ 39) (by decide) }
      .quickNodeBlockGetter = .ok total ∧
    total.numbers exampleBlockLibraries ≠
      RawBlock.numbers (fun _ => createdContract)
        { exampleBlock with totalDifficulty := .ofNat (10 ^ 39) (by decide) } := by
  obtain ⟨result, hresult⟩ : ∃ result, getBlock exampleBlockLibraries [createdContract]
      (fun _ => createdContract) exampleBlock .quickNodeBlockGetter = .ok result := ⟨_, rfl⟩
  obtain ⟨total, htotal⟩ : ∃ total, getBlock exampleBlockLibraries [createdContract]
      (fun _ => createdContract) { exampleBlock with
        totalDifficulty := .ofNat (10 ^ 39) (by decide) } .quickNodeBlockGetter = .ok total :=
    ⟨_, rfl⟩
  have hsame : ∀ transaction ∈ exampleBlock.transactions, ∀ found,
      [createdContract].find? (·.transactionHash = transaction.hash) = some found →
        found = createdContract :=
    fun _ _ _ hfind => List.mem_singleton.mp (List.mem_of_find?_eq_some hfind)
  refine ⟨result, total, hresult, ?_, htotal, fun hkept => ?_⟩
  · exact (getBlock_numbers_iff exampleBlockLibraries_documented hsame (by decide) hresult).mpr
      exampleBlock_plain
  · have hplain := (getBlock_numbers_iff exampleBlockLibraries_documented hsame (by decide)
      htotal).mp hkept
    exact hplain.totalDifficulty (by decide)

end ChainIndexer.Formatter
