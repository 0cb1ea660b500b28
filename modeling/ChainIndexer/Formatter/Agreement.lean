import ChainIndexer.Formatter.Receipts

/-!
# Raw receipts and receipts of the client library

The formatter of the client library and `formatRawReceipt` convert the numbers of a receipt and its
logs alike. They differ in what they add: the one writes the contract address with its checksum,
the other puts something in the place of logs and of a status that are not there, and keeps the
text of the price.
-/

namespace ChainIndexer.Formatter

variable {Long : Type} {w : Libraries Long}

/-- The receipt is formatted alike, raw or by way of the client library. -/
def Agree (w : Libraries Long) (receipt : RawReceipt) : Prop :=
  formatRawReceipt w (some receipt) =
    (formatTransactionReceipt w (w.outputTransactionReceiptFormatter receipt)).map some

/-- Nothing in the receipt is formatted on one path only. -/
structure Uniform (w : Libraries Long) (receipt : RawReceipt) : Prop where
  logs : ∃ logs, receipt.logs = .value logs
  status : ∃ status, receipt.status = .value status
  contractAddress : ∀ address, receipt.contractAddress = .value address →
    w.toChecksumAddress address = address
  effectiveGasPrice : ∀ price, receipt.effectiveGasPrice = .value price → price.Compact

/-- A price that is a text is kept. -/
theorem formatGasPrice_text (hw : w.Documented) (q : Quantity) :
    formatGasPrice w (.value (.text q.text)) = some q.text := by
  have htext : (Hexable.text q.text).truthy = true := by
    rw [Hexable.truthy, decide_eq_true_eq]
    exact ne_empty_of_hexValue q.reads
  rw [formatGasPrice, if_pos (Or.inl htext), hw.toHex_text]

/-- A price that is a number is written as short as possible. -/
theorem formatGasPrice_number (hw : w.Documented) {n : Nat} (hn : n < safeBound) :
    formatGasPrice w (.value (.number n)) = some (quantity n) := by
  have hnumber : (Hexable.number n).truthy = true ∨ Hexable.number n = .number 0 := by
    by_cases hzero : n = 0
    · exact Or.inr (congrArg Hexable.number hzero)
    · exact Or.inl (decide_eq_true hzero)
  rw [formatGasPrice, if_pos hnumber, hw.toHex_number n hn]

private theorem formatGasPrice_eq_iff (hw : w.Documented) (price : Field Quantity) :
    formatGasPrice w (price.map fun q => .text q.text) =
        formatGasPrice w (price.map fun q => .number (w.hexToNumber q.text)) ↔
      ∀ q, price = .value q → q.Compact := by
  cases price with
  | absent => simp [formatGasPrice]
  | null => simp [formatGasPrice]
  | value q =>
    simp only [Field.map_value, hw.hexToNumber, formatGasPrice_text hw,
      formatGasPrice_number hw q.small, Quantity.Compact, Option.some.injEq, Field.value.injEq]
    exact ⟨fun hsame _ heq => heq ▸ hsame, fun hall => hall q rfl⟩

/-- A status that is not there is turned into a failure on the raw path only. -/
theorem status_eq_iff (status : Field String) :
    .value (formatRawStatus status) = status.map (fun status => toBoolean (parseInt status)) ↔
      ∃ present, status = .value present := by
  cases status with
  | absent => simp
  | null => simp
  | value present => simp [formatRawStatus]

/-- The contract address is written with its checksum by the client library only. -/
theorem contractAddress_eq_iff (contractAddress : Field String) :
    contractAddress = contractAddress.map w.toChecksumAddress ↔
      ∀ address, contractAddress = .value address → w.toChecksumAddress address = address := by
  cases contractAddress with
  | absent => simp
  | null => simp
  | value address => simp [eq_comm]

/-- Without logs the client library leaves nothing to format. -/
theorem not_agree_of_logs (hw : w.Documented) {receipt : RawReceipt}
    (h : ¬ ∃ logs, receipt.logs = .value logs) : ¬ Agree w receipt := by
  intro hagree
  cases hlogs : receipt.logs with
  | absent =>
    simp [Agree, formatRawReceipt, formatTransactionReceipt, hw.outputTransactionReceiptFormatter,
      hlogs, Except.map] at hagree
  | null =>
    simp [Agree, formatRawReceipt, formatTransactionReceipt, hw.outputTransactionReceiptFormatter,
      hlogs, Except.map] at hagree
  | value logs => exact h ⟨logs, hlogs⟩

/-- With logs the paths differ in three properties at most. -/
theorem agree_iff_of_logs (hw : w.Documented) {receipt : RawReceipt} {logs : List RawEventLog}
    (h : receipt.logs = .value logs) : Agree w receipt ↔
      receipt.contractAddress = receipt.contractAddress.map w.toChecksumAddress ∧
      .value (formatRawStatus receipt.status) =
        receipt.status.map (fun status => toBoolean (parseInt status)) ∧
      formatGasPrice w (receipt.effectiveGasPrice.map fun q => .text q.text) =
        formatGasPrice w
          (receipt.effectiveGasPrice.map fun q => .number (w.hexToNumber q.text)) := by
  simp [Agree, formatRawReceipt, formatRawLogs, formatTransactionReceipt,
    hw.outputTransactionReceiptFormatter, h, Except.map]

/-- The two ways of formatting agree exactly on uniform receipts. -/
theorem agree_iff_uniform (hw : w.Documented) (receipt : RawReceipt) :
    Agree w receipt ↔ Uniform w receipt := by
  by_cases hlogs : ∃ logs, receipt.logs = .value logs
  · obtain ⟨logs, hvalue⟩ := hlogs
    rw [agree_iff_of_logs hw hvalue, contractAddress_eq_iff, status_eq_iff,
      formatGasPrice_eq_iff hw]
    constructor
    · rintro ⟨haddress, hstatus, hprice⟩
      exact ⟨⟨logs, hvalue⟩, hstatus, haddress, hprice⟩
    · intro huniform
      exact ⟨huniform.contractAddress, huniform.status, huniform.effectiveGasPrice⟩
  · exact iff_of_false (not_agree_of_logs hw hlogs) fun huniform => hlogs huniform.logs

/-- A raw receipt is always formatted. -/
theorem formatRawReceipt_some (w : Libraries Long) (receipt : RawReceipt) :
    ∃ formatted, formatRawReceipt w (some receipt) = .ok (some formatted) := ⟨_, rfl⟩

/-- It matters to a getter where it finds a receipt only if the paths disagree. -/
theorem receiptFor_eq_iff {receipts : List RawReceipt} {transactionHash : String}
    {receipt : RawReceipt}
    (h : receipts.find? (·.transactionHash = transactionHash) = some receipt) :
    receiptFor w (some receipts) transactionHash receipt =
      receiptFor w none transactionHash receipt ↔ Agree w receipt := by
  obtain ⟨formatted, hformatted⟩ := formatRawReceipt_some w receipt
  have hbulk : receiptFor w (some receipts) transactionHash receipt = .ok formatted := by
    rw [receiptFor, Option.bind_some, h, hformatted]
    rfl
  have hfallback : receiptFor w none transactionHash receipt =
      formatTransactionReceipt w (w.outputTransactionReceiptFormatter receipt) := rfl
  rw [hbulk, hfallback, Agree, hformatted]
  cases formatTransactionReceipt w (w.outputTransactionReceiptFormatter receipt) with
  | error message => simp [Except.map]
  | ok other => simp [Except.map]

/-- A receipt is formatted alike on both paths, and looked up in the answer for the block or asked
for, exactly if it is uniform. -/
theorem paths_agree_iff (hw : w.Documented) (receipt : RawReceipt) :
    (Agree w receipt ↔ Uniform w receipt) ∧ ∀ receipts transactionHash,
      receipts.find? (·.transactionHash = transactionHash) = some receipt →
      (receiptFor w (some receipts) transactionHash receipt =
        receiptFor w none transactionHash receipt ↔ Uniform w receipt) :=
  ⟨agree_iff_uniform hw receipt, fun _ _ hfind =>
    (receiptFor_eq_iff hfind).trans (agree_iff_uniform hw receipt)⟩

/-! ## Libraries that behave as documented -/

/-- The number of a decimal text. -/
def readDecimal (text : String) : Nat := Nat.ofDigitChars 10 text.toList 0

/-- `utils.toHex`: a hexadecimal text is kept, forty digits are taken for an address, and other
decimal texts are converted. -/
def exampleToHex : Hexable → String
  | .text s =>
    if (hexValue s).isSome then s
    else if s.length = 40 then "0x" ++ s
    else quantity (readDecimal s)
  | .number n => quantity n

/-- The checksum of one address with letters; one of digits only is its own. -/
def exampleChecksum (address : String) : String :=
  if address = "0x5aaeb6053f3e94c9b9a09f33669435e7ef1beaed" then
    "0x5aAeb6053F3E94C9b9A09f33669435E7Ef1BeAed"
  else address

def exampleLog (log : RawEventLog) : Web3Log :=
  { log.toLogProperties with
    id := .null
    logIndex := log.logIndex.value
    transactionIndex := log.transactionIndex.value
    blockNumber := log.blockNumber.value }

/-- Libraries that know the checksum of one address. -/
def exampleLibraries : Libraries (Nat × Nat) where
  hexToNumber text := (hexValue text).getD 0
  toHex := exampleToHex
  toChecksumAddress := exampleChecksum
  outputLogFormatter := exampleLog
  outputTransactionReceiptFormatter receipt := { receipt.toReceiptProperties with
    transactionIndex := receipt.transactionIndex.value
    blockNumber := receipt.blockNumber.value
    gasUsed := receipt.gasUsed.value
    cumulativeGasUsed := receipt.cumulativeGasUsed.value
    contractAddress := receipt.contractAddress.map exampleChecksum
    logs := receipt.logs.map (List.map exampleLog)
    status := receipt.status.map fun status => toBoolean (parseInt status)
    effectiveGasPrice := receipt.effectiveGasPrice.map fun price => .number price.value }
  fromValue n := (n / 4294967296, n % 4294967296)

/-- These libraries behave as documented. -/
theorem exampleLibraries_documented : exampleLibraries.Documented := by
  have hread : ∀ q : Quantity, exampleLibraries.hexToNumber q.text = q.value := by
    intro q
    simp [exampleLibraries, q.reads]
  refine ⟨hread, fun q => ?_, fun _ _ => rfl, fun receipt => ?_⟩
  · change exampleToHex (.text q.text) = q.text
    rw [exampleToHex, q.reads]
    rfl
  · simp only [hread]
    rfl

/-- A receipt of a transaction that creates a contract, whose address has no checksum. -/
def createdContract : RawReceipt where
  transactionHash := "0x1"
  blockHash := "0xa5"
  fromAddress := "0x1111111111111111111111111111111111111111"
  toAddress := .null
  logsBloom := "0x0"
  others := [("type", "0x2")]
  transactionIndex := .ofNat 0 (by decide)
  blockNumber := .ofNat 5 (by decide)
  gasUsed := .ofNat 21000 (by decide)
  cumulativeGasUsed := .ofNat 21000 (by decide)
  contractAddress := .value "0x5aaeb6053f3e94c9b9a09f33669435e7ef1beaed"
  logs := .value []
  status := .value "0x1"
  effectiveGasPrice := .value (.ofNat 1000000000 (by decide))

/-- The addresses differ, and so do the statuses of a receipt without one. -/
theorem createdContract_differs : exampleLibraries.Documented ∧
    ¬ Agree exampleLibraries createdContract ∧
    ¬ Agree exampleLibraries
      { createdContract with contractAddress := .null, status := .absent } := by
  refine ⟨exampleLibraries_documented, ?_, ?_⟩
  · rw [agree_iff_uniform exampleLibraries_documented]
    intro huniform
    exact absurd (huniform.contractAddress _ rfl) (by decide)
  · rw [agree_iff_uniform exampleLibraries_documented]
    intro huniform
    obtain ⟨status, hstatus⟩ := huniform.status
    cases hstatus

/-- The receipt of a transfer agrees. -/
theorem transfer_agrees : exampleLibraries.Documented ∧
    Agree exampleLibraries { createdContract with contractAddress := .null } := by
  have huniform : Uniform exampleLibraries { createdContract with contractAddress := .null } := by
    refine ⟨⟨[], rfl⟩, ⟨"0x1", rfl⟩, nofun, ?_⟩
    rintro price ⟨⟩
    rfl
  exact ⟨exampleLibraries_documented,
    (paths_agree_iff exampleLibraries_documented _).1.mpr huniform⟩

end ChainIndexer.Formatter
