import ChainIndexer.Formatter.Blocks

/-!
# What the getters make of a block

All getters format the block and its transactions alike. They differ only in where the receipts
come from, so those that have the receipts of the block at once make of it what the plain getter
makes of it exactly if every receipt is formatted alike on both paths.
-/

namespace ChainIndexer.Formatter

variable {Long : Type} {w : BlockLibraries Long} {block : RawBlock} {receipts : List RawReceipt}
  {answer : String → RawReceipt}

/-- The transaction with its receipt, as the getter of this kind formats it. -/
def formatted (w : BlockLibraries Long) (receipts : List RawReceipt) (answer : String → RawReceipt)
    (kind : Kind) (transaction : RawTransaction) : Except String (Transaction Long) :=
  (receiptFor w.toLibraries (kind.receipts receipts) transaction.hash
    (answer transaction.hash)).map (formatRawTransactionObject w transaction)

/-- Each getter formats the raw transactions of the raw block. -/
theorem getBlock_eq (hw : w.Documented) (kind : Kind) :
    getBlock w receipts answer block kind =
      (block.transactions.mapM (formatted w receipts answer kind)).map
        (formatRawBlock w block) := by
  have hfound : (w.outputBlockFormatter block).transactions =
      block.transactions.map w.outputTransactionFormatter := by
    rw [hw.outputBlockFormatter]
  have hhash : ∀ transaction, (w.outputTransactionFormatter transaction).hash = transaction.hash :=
    fun transaction => by rw [hw.outputTransactionFormatter]
  have hclient : ∀ source : Kind, ((w.outputBlockFormatter block).transactions.mapM
      fun transactionObject => (receiptFor w.toLibraries (source.receipts receipts)
        transactionObject.hash (answer transactionObject.hash)).map
          (formatTransactionObject w transactionObject)) =
      block.transactions.mapM (formatted w receipts answer source) := by
    intro source
    rw [hfound, List.mapM_map]
    congr 1
    funext transaction
    simp only [Function.comp, hhash]
    rfl
  cases kind with
  | blockGetter => exact congrArg (Except.map (formatRawBlock w block)) (hclient .blockGetter)
  | erigonBlockGetter =>
    exact congrArg (Except.map (formatRawBlock w block)) (hclient .erigonBlockGetter)
  | quickNodeBlockGetter => rfl

/-- Results that are embedded alike are alike. -/
theorem map_eq_map_iff {α β : Type} {f : α → β} (hf : ∀ a b, f a = f b → a = b)
    {x y : Except String α} : x.map f = y.map f ↔ x = y := by
  constructor
  · intro h
    cases x with
    | error error =>
      cases y with
      | error other => exact congrArg _ (Except.error.inj h)
      | ok value => cases h
    | ok value =>
      cases y with
      | error error => cases h
      | ok other => exact congrArg _ (hf _ _ (Except.ok.inj h))
  · rintro rfl
    rfl

/-- A mapped result is there if the result is. -/
theorem map_eq_ok_iff {α β : Type} {f : α → β} {x : Except String α} {b : β} :
    x.map f = .ok b ↔ ∃ a, x = .ok a ∧ f a = b := by
  cases x with
  | error error => exact ⟨nofun, nofun⟩
  | ok a =>
    constructor
    · exact fun h => ⟨a, rfl, Except.ok.inj h⟩
    · rintro ⟨_, ⟨⟩, rfl⟩
      rfl

/-- The receipt is part of the formatted transaction. -/
theorem formatted_eq_iff {kind other : Kind} {transaction : RawTransaction} :
    formatted w receipts answer kind transaction = formatted w receipts answer other transaction ↔
      receiptFor w.toLibraries (kind.receipts receipts) transaction.hash
          (answer transaction.hash) =
        receiptFor w.toLibraries (other.receipts receipts) transaction.hash
          (answer transaction.hash) :=
  map_eq_map_iff fun _ _ h => congrArg Transaction.receipt h

/-- A receipt that is found among those of the block is always formatted. -/
theorem formatted_isOk {transaction : RawTransaction} {receipt : RawReceipt}
    (h : receipts.find? (·.transactionHash = transaction.hash) = some receipt) :
    ∃ value, formatted w receipts answer .erigonBlockGetter transaction = .ok value := by
  obtain ⟨value, hvalue⟩ := formatRawReceipt_some w.toLibraries receipt
  refine ⟨formatRawTransactionObject w transaction value, ?_⟩
  rw [formatted, Kind.receipts, receiptFor, Option.bind_some, h, hvalue]
  rfl

/-- **The getters agree.** Where the node answers alike for the block and for each transaction, the
getters that use the receipts of the block return the same block, and the plain getter returns it as
well if and only if each receipt is uniform. -/
theorem getters_agree_iff (hw : w.Documented)
    (hfound : ∀ transaction ∈ block.transactions,
      receipts.find? (·.transactionHash = transaction.hash) = some (answer transaction.hash)) :
    getBlock w receipts answer block .quickNodeBlockGetter =
        getBlock w receipts answer block .erigonBlockGetter ∧
      (getBlock w receipts answer block .erigonBlockGetter =
          getBlock w receipts answer block .blockGetter ↔
        ∀ transaction ∈ block.transactions, Uniform w.toLibraries (answer transaction.hash)) := by
  rw [getBlock_eq hw, getBlock_eq hw, getBlock_eq hw]
  refine ⟨rfl, ?_⟩
  rw [map_eq_map_iff fun _ _ h => congrArg Block.transactions h,
    mapM_eq_mapM_iff fun transaction hmem => formatted_isOk (hfound transaction hmem)]
  refine forall₂_congr fun transaction hmem => ?_
  rw [formatted_eq_iff, ← agree_iff_uniform hw.toDocumented]
  exact receiptFor_eq_iff (hfound transaction hmem)

/-! ## Libraries that behave as documented -/

/-- A decimal text is not hexadecimal. -/
theorem hexValue_decimal (n : Nat) : hexValue (decimal n) = none := by
  unfold hexValue
  split
  · rename_i digit digits hlist
    have hdigit : 'x' ∈ Nat.toDigits 10 n := by
      rw [← Nat.toList_repr]
      change 'x' ∈ (decimal n).toList
      rw [hlist]
      exact List.mem_cons_of_mem _ List.mem_cons_self
    exact absurd (Nat.isDigit_of_mem_toDigits (by decide) (by decide) hdigit) (by decide)
  · rfl

/-- A decimal text is read back. -/
theorem readDecimal_decimal (n : Nat) : readDecimal (decimal n) = n := by
  rw [readDecimal, decimal, Nat.toList_repr, Nat.ofDigitChars_ten_toDigits]

private theorem exampleToHex_decimal {n : Nat} (h : ¬ LooksLikeAddress n) :
    exampleToHex (.text (decimal n)) = quantity n := by
  unfold LooksLikeAddress at h
  rw [exampleToHex, hexValue_decimal, Option.isSome_none, if_neg Bool.false_ne_true, if_neg h,
    readDecimal_decimal]

private theorem exampleToHex_address {n : Nat} (h : LooksLikeAddress n) :
    exampleToHex (.text (decimal n)) = "0x" ++ decimal n := by
  unfold LooksLikeAddress at h
  rw [exampleToHex, hexValue_decimal, Option.isSome_none, if_neg Bool.false_ne_true, if_pos h]

def exampleTransaction (transaction : RawTransaction) : Web3Transaction :=
  { transaction.toTransactionProperties with
    nonce := transaction.nonce.value
    gas := transaction.gas.value
    blockNumber := transaction.blockNumber.map Quantity.value
    transactionIndex := transaction.transactionIndex.map Quantity.value
    fromAddress := exampleChecksum transaction.fromAddress.text
    toAddress := match transaction.toAddress with
      | .value address => .value (exampleChecksum address.text)
      | .absent | .null => .null
    value := decimal transaction.value.value
    gasPrice := decimal transaction.gasPrice.value
    maxFeePerGas := transaction.maxFeePerGas.map fun q => .text (decimal q.value)
    maxPriorityFeePerGas := transaction.maxPriorityFeePerGas.map fun q => .text (decimal q.value)
    type := transaction.type.map Quantity.value }

/-- Libraries that know the checksum of one address. -/
def exampleBlockLibraries : BlockLibraries (Nat × Nat) where
  toLibraries := exampleLibraries
  outputTransactionFormatter := exampleTransaction
  outputBlockFormatter block := { block.toBlockProperties with
    number := block.number.value
    gasLimit := block.gasLimit.value
    gasUsed := block.gasUsed.value
    size := block.size.value
    timestamp := block.timestamp.value
    difficulty := decimal block.difficulty.value
    totalDifficulty := decimal block.totalDifficulty.value
    nonce := block.nonce.text
    baseFeePerGas := block.baseFeePerGas.map fun q => .number q.value
    miner := exampleChecksum block.miner.text
    transactions := block.transactions.map exampleTransaction }
  hexToNumberString text := decimal ((hexValue text).getD 0)
  fromText text := exampleLibraries.fromValue (readDecimal text)
  toNumber long := long.1 * 4294967296 + long.2

/-- What the example libraries do with blocks is as documented. -/
theorem exampleBlockLibraries_documented : exampleBlockLibraries.Documented := by
  have hread : ∀ q : Quantity, exampleBlockLibraries.hexToNumber q.text = q.value :=
    exampleLibraries_documented.hexToNumber
  have hsplit : ∀ n : Nat, n / 4294967296 * 4294967296 + n % 4294967296 = n :=
    fun n => Nat.div_add_mod' n _
  constructor
  case toDocumented => exact exampleLibraries_documented
  case toHex_decimal => exact fun n _ hnot => exampleToHex_decimal hnot
  case toHex_address => exact fun n h => exampleToHex_address h
  case outputLogFormatter => exact fun _ => ⟨rfl, rfl, rfl⟩
  case outputTransactionFormatter =>
    intro transaction
    simp only [hread]
    rfl
  case outputBlockFormatter =>
    intro block
    simp only [hread]
    rfl
  case hexToNumberString =>
    intro q
    change decimal ((hexValue q.text).getD 0) = decimal q.value
    rw [q.reads]
    rfl
  case toNumber_fromValue => exact fun n _ => hsplit n
  case toNumber_fromText =>
    intro n _
    change readDecimal (decimal n) / 4294967296 * 4294967296 +
      readDecimal (decimal n) % 4294967296 = n
    rw [readDecimal_decimal, hsplit]

/-- A block with one transaction, which transfers something. -/
def exampleBlock : RawBlock where
  hash := "0xa5"
  parentHash := "0xa4"
  logsBloom := "0x0"
  receiptsRoot := "0x0"
  sha3Uncles := "0x0"
  stateRoot := "0x0"
  transactionsRoot := "0x0"
  extraData := "0x"
  others := []
  number := createdContract.blockNumber
  gasLimit := .ofNat 30000000 (by decide)
  gasUsed := createdContract.gasUsed
  size := .ofNat 540 (by decide)
  timestamp := .ofNat 1438270000 (by decide)
  difficulty := .ofNat 17179869184 (by decide)
  totalDifficulty := .ofNat 85899345920 (by decide)
  nonce := .ofNat 6024642674226569000 (by decide)
  baseFeePerGas := .value (.ofNat 7 (by decide))
  miner := ⟨"0x5aaeb6053f3e94c9b9a09f33669435e7ef1beaed", by decide, by decide⟩
  transactions := [{
    hash := "0x1"
    blockHash := .value "0xa5"
    input := "0x"
    others := []
    nonce := .ofNat 3 (by decide)
    gas := createdContract.gasUsed
    blockNumber := .value createdContract.blockNumber
    transactionIndex := .value createdContract.transactionIndex
    fromAddress := ⟨"0x1111111111111111111111111111111111111111", by decide, by decide⟩
    toAddress := .value ⟨"0x2222222222222222222222222222222222222222", by decide, by decide⟩
    value := .ofNat 1000000000000000000 (by decide)
    gasPrice := .ofNat 1000000000 (by decide)
    maxFeePerGas := .value (.ofNat 0 (by decide))
    maxPriorityFeePerGas := .absent
    type := .value (.ofNat 2 (by decide)) }]

/-- Its receipt has no contract address, so all getters return the same. -/
theorem exampleBlock_agrees :
    getBlock exampleBlockLibraries [{ createdContract with contractAddress := .null }]
        (fun _ => { createdContract with contractAddress := .null }) exampleBlock
        .erigonBlockGetter =
      getBlock exampleBlockLibraries [{ createdContract with contractAddress := .null }]
        (fun _ => { createdContract with contractAddress := .null }) exampleBlock .blockGetter := by
  refine (getters_agree_iff exampleBlockLibraries_documented fun transaction hmem => ?_).2.mpr
    fun transaction _ => ⟨⟨[], rfl⟩, ⟨"0x1", rfl⟩, nofun, ?_⟩
  · obtain rfl := List.mem_singleton.mp hmem
    rfl
  · rintro price ⟨⟩
    rfl

end ChainIndexer.Formatter
