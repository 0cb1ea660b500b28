import ChainIndexer.Core.Traversal
import ChainIndexer.Formatter.Agreement
import ChainIndexer.Native.Blocks
import ChainIndexer.Transfers.State
import Mathlib.Algebra.GroupWithZero.Nat

/-!
# Mapping the logs of a block to transfers

A mapper looks at the bloom filter of a receipt, goes over its logs and decodes those that it lets
through. It does not look at the first topic, which names the event. The bloom filter and the
decoding of parameters are libraries; an error of theirs ends the transformation of the block.
-/

namespace ChainIndexer.Transfers

open Formatter (EventLog TransactionReceipt exampleChecksum exampleToHex readDecimal)

/-- The fields of a transaction that a mapper reads. -/
structure Transaction where
  hash : String
  fromAddress : String
  receipt : TransactionReceipt Nat
  deriving DecidableEq, Repr

/-- The fields of a block that a transformer reads. -/
structure TransactionBlock where
  number : Nat
  timestamp : Nat
  transactions : List Transaction
  deriving DecidableEq, Repr

/-- `BloomFilter`, `ABICoder.decodeParameter` and `utils.toHex`. A topic that is not there is
passed as `undefined`. -/
structure Decoders where
  isTopicInBloom : String → String → Except Thrown Bool
  isContractAddressInBloom : String → String → Except Thrown Bool
  decodeUint256 : Option String → Except Thrown String
  decodeAddress : Option String → Except Thrown String
  toHex : String → String
  /-- `parseInt`, as a number of the language. -/
  parseInt : String → Nat

/-- The signature of the event `Transfer(address,address,uint256)`. -/
def transferTopic : String :=
  "0xddf252ad1be2c89b69c2b068fc378daa952ba7f163c4a11628f55a4df523b3ef"

variable {δ : Type}

/-- The loop over the logs of a receipt: what is decoded of those that are let through. -/
def mapLogs (lets : EventLog Nat → Bool) (decode : EventLog Nat → Except Thrown δ)
    (logs : List (EventLog Nat)) : Except Thrown (List δ) :=
  (logs.filter lets).mapM decode

/-- The `transform` callback of a transformer, with the `map` of its mapper. -/
def transform (map : Transaction → Except Thrown (List δ)) (block : TransactionBlock) :
    Except Thrown (TransformedBlock δ) :=
  (block.transactions.mapM map).map fun transfers =>
    { blockNumber := block.number, timestamp := block.timestamp, data := transfers.flatten }

/-- A transformed block keeps the number and the timestamp. -/
theorem transform_ok {map : Transaction → Except Thrown (List δ)} {block : TransactionBlock}
    {transformed : TransformedBlock δ} (h : transform map block = .ok transformed) :
    transformed.blockNumber = block.number ∧ transformed.timestamp = block.timestamp := by
  unfold transform at h
  cases hm : block.transactions.mapM map with
  | error error =>
    rw [hm] at h
    cases h
  | ok transfers =>
    rw [hm] at h
    cases h
    exact ⟨rfl, rfl⟩

/-! ## What is let through -/

/-- A block is transformed if each of its transactions is mapped. -/
theorem transform_isOk {δ : Type} {mapper : Transaction → Except Thrown (List δ)}
    {block : TransactionBlock} : (∃ transformed, transform mapper block = .ok transformed) ↔
      ∀ transaction ∈ block.transactions, ∃ transfers, mapper transaction = .ok transfers := by
  rw [← mapM_isOk]
  unfold transform
  cases block.transactions.mapM mapper with
  | error error =>
    refine iff_of_false ?_ ?_
    · rintro ⟨transformed, hok⟩
      cases hok
    · rintro ⟨transfers, hok⟩
      cases hok
  | ok transfers => exact iff_of_true ⟨_, rfl⟩ ⟨transfers, rfl⟩

/-- The loop decodes exactly the wanted logs if and only if it lets no other one through. -/
theorem mapLogs_eq_iff {lets wanted : EventLog Nat → Bool}
    {decode : EventLog Nat → Except Thrown δ} {logs : List (EventLog Nat)}
    (hlets : ∀ log ∈ logs, wanted log = true → lets log = true)
    (hdecode : ∀ log ∈ logs, wanted log = true → ∃ transfer, decode log = .ok transfer) :
    mapLogs lets decode logs = mapLogs wanted decode logs ↔
      ∀ log ∈ logs, lets log = true → wanted log = true := by
  have hwanted : (logs.filter lets).filter wanted = logs.filter wanted := by
    rw [List.filter_filter]
    refine List.filter_congr fun log hmem => ?_
    cases hw : wanted log with
    | false => rfl
    | true => rw [hlets log hmem hw]; rfl
  constructor
  · intro h
    obtain ⟨transfers, hok⟩ := mapM_isOk.mpr fun log hmem =>
      hdecode log (List.mem_of_mem_filter hmem) (List.mem_filter.mp hmem).2
    have hlength : (logs.filter lets).length = (logs.filter wanted).length := by
      rw [← mapM_ok_length hok, ← mapM_ok_length (h.trans hok)]
    have hall : (logs.filter lets).filter wanted = logs.filter lets :=
      List.filter_sublist.eq_of_length (by rw [hwanted, hlength])
    intro log hmem hlet
    exact List.filter_eq_self.mp hall log (List.mem_filter.mpr ⟨hmem, hlet⟩)
  · intro h
    have hsame : logs.filter lets = logs.filter wanted :=
      List.filter_congr fun log hmem => Bool.eq_iff_iff.mpr ⟨h log hmem, hlets log hmem⟩
    rw [mapLogs, hsame, mapLogs]

/-! ## Libraries that behave as documented -/

/-- The positions in a bloom filter of the values that the examples look for, taken from the
Keccak-256 hash of each. -/
def bloomBits : List (String × List Nat) :=
  [(transferTopic, [1443, 481, 1060]),
    ("0x3333333333333333333333333333333333333333", [2009, 1546, 1822])]

/-- The bits of a value are set in a bloom filter, whose last digit has the lowest ones. -/
def isInBloom (bloom value : String) : Bool :=
  ((bloomBits.lookup value).getD []).all fun bit =>
    ((bloom.toList.reverse[bit / 4]?).bind hexDigit).any (·.testBit (bit % 4))

/-- The bloom filter in which these bits are set. -/
def bloomOf (bits : List Nat) : String :=
  String.ofList ('0' :: 'x' :: (List.range 512).reverse.map fun digit =>
    Nat.digitChar (((List.range 4).map fun bit =>
      if 4 * digit + bit ∈ bits then 2 ^ bit else 0).sum))

/-- It has the length of one and hexadecimal digits. -/
theorem isHexOf_bloomOf (bits : List Nat) : isHexOf 512 (bloomOf bits) = true := by
  rw [isHexOf, bloomOf, String.toList_ofList]
  simp only [List.length_map, List.length_reverse, List.length_range, beq_self_eq_true,
    Bool.true_and, List.all_map, List.all_eq_true]
  intro digit _
  have hbit : ∀ bit, (if 4 * digit + bit ∈ bits then 2 ^ bit else 0) ≤ 2 ^ bit := by
    intro bit
    split
    · exact Nat.le_refl _
    · exact Nat.zero_le _
  have hsum : ((List.range 4).map fun bit =>
      if 4 * digit + bit ∈ bits then 2 ^ bit else 0).sum < 16 := by
    have h₀ := hbit 0
    have h₁ := hbit 1
    have h₂ := hbit 2
    have h₃ := hbit 3
    simp only [List.range_succ, List.range_zero, List.nil_append, List.map_append, List.map_cons,
      List.map_nil, List.sum_append, List.sum_cons, List.sum_nil]
    omega
  simp only [Function.comp, hexDigit_digitChar hsum, Option.isSome_some]

/-- The number in a word of 32 bytes. -/
def decodeWord : Option String → Except Thrown Nat
  | none | some "0x" => .error (.unknown "Returned values aren't valid, did it run Out of Gas?")
  | some text =>
    if isHexOf 64 text then .ok ((hexValue text).getD 0)
    else .error (.unknown "data out-of-bounds")

/-- The address in the last 20 bytes of a word, with its checksum. -/
def decodeAddress (text : Option String) : Except Thrown String := do
  if 2 ^ 160 ≤ (← decodeWord text) then throw (.unknown "invalid address")
  return exampleChecksum (String.ofList ('0' :: 'x' :: (text.getD "").toList.drop 26))

/-- `BloomFilter` and `ABICoder` refuse what is no bloom filter, no topic, no address or no word. -/
def decoders : Decoders where
  isTopicInBloom bloom topic :=
    if !isHexOf 512 bloom then .error (.unknown "Invalid bloom")
    else if !isHexOf 64 topic then .error (.unknown "Invalid topic")
    else .ok (isInBloom bloom topic)
  isContractAddressInBloom bloom address :=
    if !isHexOf 512 bloom then .error (.unknown "Invalid bloom given")
    else if !isHexOf 40 address then .error (.unknown "Invalid contract address given")
    else .ok (isInBloom bloom address)
  decodeUint256 text := (decodeWord text).map Nat.repr
  decodeAddress := decodeAddress
  toHex text := exampleToHex (.text text)
  parseInt := readDecimal

/-- A bloom filter made of bits is looked into. -/
theorem isTopicInBloom_bloomOf {topic : String} (htopic : isHexOf 64 topic = true)
    (bits : List Nat) : decoders.isTopicInBloom (bloomOf bits) topic =
      .ok (isInBloom (bloomOf bits) topic) := by
  simp only [decoders, isHexOf_bloomOf, htopic, Bool.not_true, Bool.false_eq_true, if_false]

/-- So it is for an address. -/
theorem isContractAddressInBloom_bloomOf {address : String} (haddress : isHexOf 40 address = true)
    (bits : List Nat) : decoders.isContractAddressInBloom (bloomOf bits) address =
      .ok (isInBloom (bloomOf bits) address) := by
  simp only [decoders, isHexOf_bloomOf, haddress, Bool.not_true, Bool.false_eq_true, if_false]

/-- The topic of an account with this digit only. -/
def account (digit : Char) : String :=
  String.ofList ('0' :: 'x' :: (List.replicate 24 '0' ++ List.replicate 40 digit))

/-- A transaction with a receipt without logs. -/
def bare : Transaction where
  hash := "0x1"
  fromAddress := "0x1111111111111111111111111111111111111111"
  receipt := {
    transactionHash := "0x1", blockHash := "0x5"
    fromAddress := "0x1111111111111111111111111111111111111111", toAddress := .null
    logsBloom := bloomOf [], others := [], transactionIndex := 0, blockNumber := 5, gasUsed := 0
    cumulativeGasUsed := 0, contractAddress := .null, logs := [], status := .value true
    effectiveGasPrice := none }

/-! ## The mapper of the token -/

namespace MaticTransferMapper

/-- The address of the token's contract. -/
def maticToken : String := "0x7d1afa7b718fb893db30a3abc0cfc608aacfebb0"

/-- `isTransfer`. -/
def isTransfer (w : Decoders) (logsBloom : String) : Except Thrown Bool :=
  w.isTopicInBloom logsBloom transferTopic

/-- The logs with topics that the token's contract has emitted. -/
def lets (log : EventLog Nat) : Bool :=
  log.topics.length ≠ 0 && toLowerCase log.address == toLowerCase maticToken

/-- The object that is pushed for a log. -/
def transferOf (w : Decoders) (transaction : Transaction) (log : EventLog Nat) :
    Except Thrown MaticTransferTx := do
  let amount ← w.decodeUint256 (some log.data)
  let senderAddress ← w.decodeAddress log.topics[1]?
  let receiverAddress ← w.decodeAddress log.topics[2]?
  return {
    transactionIndex := transaction.receipt.transactionIndex
    transactionHash := transaction.hash
    transactionInitiator := toLowerCase transaction.fromAddress
    tokenAddress := toLowerCase log.address
    amount := w.toHex amount
    senderAddress := senderAddress
    receiverAddress := receiverAddress }

/-- `mapTransferErc20`. -/
def mapTransferErc20 (w : Decoders) (transaction : Transaction) :
    Except Thrown (List MaticTransferTx) :=
  mapLogs lets (transferOf w transaction) transaction.receipt.logs

/-- `MaticTransferMapper.map`. -/
def map (w : Decoders) (transaction : Transaction) : Except Thrown (List MaticTransferTx) := do
  if ← isTransfer w transaction.receipt.logsBloom then mapTransferErc20 w transaction else return []

/-- The transfers of the token: the events of its contract with the signature of a transfer. -/
def wanted (log : EventLog Nat) : Bool :=
  lets log && log.topics.head? == some transferTopic

private theorem mem_topics_of_wanted {log : EventLog Nat} (h : wanted log = true) :
    transferTopic ∈ log.topics := by
  unfold wanted at h
  rw [Bool.and_eq_true, beq_iff_eq] at h
  exact List.mem_of_mem_head? h.2

/-- The mapper finds exactly the transfers of the token in a transaction if and only if the bloom
filter rules transfers out, or every event that the contract emits with topics is a transfer. -/
theorem map_transfers_iff (w : Decoders) (transaction : Transaction)
    (hbloom : ∀ log ∈ transaction.receipt.logs, transferTopic ∈ log.topics →
      w.isTopicInBloom transaction.receipt.logsBloom transferTopic = .ok true)
    (hdecode : ∀ log ∈ transaction.receipt.logs, wanted log = true →
      ∃ transfer, transferOf w transaction log = .ok transfer) :
    map w transaction = mapLogs wanted (transferOf w transaction) transaction.receipt.logs ↔
      w.isTopicInBloom transaction.receipt.logsBloom transferTopic = .ok false ∨
        w.isTopicInBloom transaction.receipt.logsBloom transferTopic = .ok true ∧
          ∀ log ∈ transaction.receipt.logs, lets log = true → wanted log = true := by
  have hlets : ∀ log ∈ transaction.receipt.logs, wanted log = true → lets log = true := by
    intro log _ h
    exact (Bool.and_eq_true _ _ ▸ h).1
  unfold map isTransfer
  cases hin : w.isTopicInBloom transaction.receipt.logsBloom transferTopic with
  | error error =>
    obtain ⟨transfers, hok⟩ := mapM_isOk.mpr fun log (hmem : log ∈
        transaction.receipt.logs.filter wanted) =>
      hdecode log (List.mem_of_mem_filter hmem) (List.mem_filter.mp hmem).2
    refine iff_of_false (fun h => ?_) (by simp)
    rw [mapLogs, hok] at h
    cases h
  | ok found =>
    cases found with
    | false =>
      refine iff_of_true ?_ (Or.inl rfl)
      have hnone : transaction.receipt.logs.filter wanted = [] := by
        rw [List.filter_eq_nil_iff]
        intro log hmem hw
        rw [hbloom log hmem (mem_topics_of_wanted hw)] at hin
        cases hin
      rw [mapLogs, hnone]
      rfl
    | true =>
      rw [← mapLogs_eq_iff hlets hdecode]
      simp [mapTransferErc20, bind, Except.bind]

/-- An approval, by the token's contract, of an amount that somebody else may transfer. -/
def approval : EventLog Nat where
  address := maticToken
  data := "0x00000000000000000000000000000000000000000000000000000000000003e8"
  topics := ["0x8c5be1e5ebec7d5bd14f71427d1e84f3dd0314c0f7b2291e5b200ac8c7c3b925", account '1',
    account '2']
  transactionHash := "0x1"
  blockHash := "0x5"
  removed := .absent
  id := .absent
  logIndex := 0
  transactionIndex := 0
  blockNumber := 5

/-- A transfer of the token, of the same amount between the same accounts. -/
def transferred : EventLog Nat :=
  { approval with topics := [transferTopic, account '1', account '2'] }

/-- A transaction in which both were emitted. Its bloom filter has the bits of the contract, of the
two signatures and of the two accounts. -/
def approved : Transaction :=
  { bare with receipt := { bare.receipt with
      logsBloom := bloomOf [1929, 1593, 985, 1557, 244, 761, 1443, 481, 1060, 762, 1041, 765,
        1565, 1651, 107]
      logs := [approval, transferred] } }

/-- The bloom filter of the transaction has the signature of a transfer. -/
theorem approved_bloom :
    decoders.isTopicInBloom approved.receipt.logsBloom transferTopic = .ok true := by
  refine (isTopicInBloom_bloomOf (by decide) _).trans (congrArg Except.ok ?_)
  rw [isInBloom, bloomOf, String.toList_ofList]
  decide +kernel

/-- Both are decoded to a thousand of the smallest units from the first account to the second. -/
theorem approved_decodes : ∀ log ∈ approved.receipt.logs,
    transferOf decoders approved log = .ok {
      transactionIndex := 0
      transactionHash := "0x1"
      transactionInitiator := "0x1111111111111111111111111111111111111111"
      tokenAddress := maticToken
      senderAddress := "0x1111111111111111111111111111111111111111"
      receiverAddress := "0x2222222222222222222222222222222222222222"
      amount := "0x3e8" } := by
  decide +kernel

/-- The approval is taken for a transfer. -/
theorem approved_transfers_iff :
    map decoders approved ≠
      mapLogs wanted (transferOf decoders approved) approved.receipt.logs := by
  have hiff := map_transfers_iff decoders approved (fun _ _ _ => approved_bloom)
    fun log hlog _ => ⟨_, approved_decodes log hlog⟩
  rw [Ne, hiff]
  rintro (hnone | ⟨-, hall⟩)
  · cases approved_bloom.symm.trans hnone
  · exact absurd (hall approval List.mem_cons_self (by decide)) (by decide)

end MaticTransferMapper

end ChainIndexer.Transfers
