import ChainIndexer.Tokens.State
import ChainIndexer.Transfers.Pipeline

/-!
# Mapping the logs of a block to transfers of tokens

The mapper lets logs with three topics through and reads a fourth one. An event of the contract with
three topics, such as an approval for all tokens, makes it throw, and then the block cannot be
transformed at all.
-/

namespace ChainIndexer.Tokens

open Consumer (Concurrent)
open Consumption (Reaches)
open Formatter (EventLog)
open Transfers (Decoders Transaction TransactionBlock TransformedBlock account bloomOf decoders
  isContractAddressInBloom_bloomOf isInBloom isTopicInBloom_bloomOf mapLogs onData onData_true
  transferTopic transform transform_isOk)

namespace NFTTransferMapper

/-- `isNFTTransfer`, with the address of the contract from the environment. -/
def isNFTTransfer (w : Decoders) (nftContract logsBloom : String) : Except Thrown Bool := do
  if ← w.isTopicInBloom logsBloom transferTopic then
    w.isContractAddressInBloom logsBloom nftContract
  else return false

/-- The logs with three topics or more that the contract has emitted. -/
def lets (nftContract : String) (log : EventLog Nat) : Bool :=
  log.topics.length ≠ 0 && 3 ≤ log.topics.length &&
    toLowerCase log.address == toLowerCase nftContract

/-- The object that is pushed for a log. -/
def transferOf (w : Decoders) (transaction : Transaction) (log : EventLog Nat) :
    Except Thrown NFTTransferTx := do
  let tokenId ← w.decodeUint256 log.topics[3]?
  let senderAddress ← w.decodeAddress log.topics[1]?
  let receiverAddress ← w.decodeAddress log.topics[2]?
  return {
    transactionIndex := transaction.receipt.transactionIndex
    transactionHash := toLowerCase transaction.hash
    transactionInitiator := toLowerCase transaction.fromAddress
    tokenAddress := toLowerCase log.address
    tokenId := w.parseInt tokenId
    senderAddress := toLowerCase senderAddress
    receiverAddress := toLowerCase receiverAddress }

/-- `mapTransferErc20`. -/
def mapTransferErc20 (w : Decoders) (nftContract : String) (transaction : Transaction) :
    Except Thrown (List NFTTransferTx) :=
  mapLogs (lets nftContract) (transferOf w transaction) transaction.receipt.logs

/-- `NFTTransferMapper.map`. -/
def map (w : Decoders) (nftContract : String) (transaction : Transaction) :
    Except Thrown (List NFTTransferTx) := do
  if ← isNFTTransfer w nftContract transaction.receipt.logsBloom then
    mapTransferErc20 w nftContract transaction
  else return []

/-- The libraries decode the logs of a transaction as far as they have the topics that the mapper
reads. -/
structure Decodes (w : Decoders) (nftContract : String) (transaction : Transaction) : Prop where
  bloom : ∃ found, isNFTTransfer w nftContract transaction.receipt.logsBloom = .ok found
  sender : ∀ log ∈ transaction.receipt.logs, lets nftContract log = true →
    ∃ address, w.decodeAddress log.topics[1]? = .ok address
  receiver : ∀ log ∈ transaction.receipt.logs, lets nftContract log = true →
    ∃ address, w.decodeAddress log.topics[2]? = .ok address
  tokenId : ∀ log ∈ transaction.receipt.logs, lets nftContract log = true →
    4 ≤ log.topics.length → ∃ text, w.decodeUint256 log.topics[3]? = .ok text

variable {w : Decoders} {nftContract : String}

/-- An object is pushed for a log that has the fourth topic. -/
theorem transferOf_isOk {transaction : Transaction} {log : EventLog Nat}
    (h : Decodes w nftContract transaction)
    (hundefined : ∃ error, w.decodeUint256 none = .error error)
    (hmem : log ∈ transaction.receipt.logs) (hlet : lets nftContract log = true) :
    (∃ transfer, transferOf w transaction log = .ok transfer) ↔ 4 ≤ log.topics.length := by
  unfold transferOf
  rcases Nat.lt_or_ge 3 log.topics.length with hlt | hge
  · obtain ⟨text, htext⟩ := h.tokenId log hmem hlet hlt
    obtain ⟨sender, hsender⟩ := h.sender log hmem hlet
    obtain ⟨receiver, hreceiver⟩ := h.receiver log hmem hlet
    rw [htext, hsender, hreceiver]
    exact iff_of_true ⟨_, rfl⟩ hlt
  · obtain ⟨error, herror⟩ := hundefined
    rw [List.getElem?_eq_none hge, herror]
    refine iff_of_false ?_ (by omega)
    rintro ⟨transfer, hok⟩
    cases hok

/-- A transaction is mapped if the bloom filter rules it out or all of its logs have the topic. -/
theorem map_isOk {transaction : Transaction} (h : Decodes w nftContract transaction)
    (hundefined : ∃ error, w.decodeUint256 none = .error error) :
    (∃ transfers, map w nftContract transaction = .ok transfers) ↔
      (isNFTTransfer w nftContract transaction.receipt.logsBloom = .ok true →
        ∀ log ∈ transaction.receipt.logs, lets nftContract log = true → 4 ≤ log.topics.length) := by
  obtain ⟨found, hfound⟩ := h.bloom
  unfold map
  rw [hfound]
  cases found with
  | false => exact iff_of_true ⟨[], rfl⟩ nofun
  | true =>
    have hmap : (∃ transfers, mapTransferErc20 w nftContract transaction = .ok transfers) ↔
        ∀ log ∈ transaction.receipt.logs, lets nftContract log = true → 4 ≤ log.topics.length := by
      rw [mapTransferErc20, mapLogs, mapM_isOk]
      constructor
      · intro hall log hmem hlet
        exact (transferOf_isOk h hundefined hmem hlet).mp
          (hall log (List.mem_filter.mpr ⟨hmem, hlet⟩))
      · intro hall log hmem
        obtain ⟨hmem, hlet⟩ := List.mem_filter.mp hmem
        exact (transferOf_isOk h hundefined hmem hlet).mpr (hall log hmem hlet)
    exact hmap.trans ⟨fun hall _ => hall, fun hall => hall rfl⟩

/-- Where every block is transformed, the transformer needs nothing but one pass. -/
theorem reaches_of_transformed {mapper : Transaction → Except Thrown (List NFTTransferTx)}
    {blocks : List TransactionBlock}
    (hall : ∀ block ∈ blocks, ∃ transformed, transform mapper block = .ok transformed) :
    ∃ topic, Reaches blocks (onData mapper) [] ⟨blocks.length, blocks.length, topic⟩ := by
  suffices hupTo : ∀ count ≤ blocks.length, ∃ topic,
      Reaches blocks (onData mapper) [] ⟨count, count, topic⟩ from hupTo _ (Nat.le_refl _)
  intro count hcount
  induction count with
  | zero => exact ⟨[], .refl⟩
  | succ count ih =>
    obtain ⟨topic, hreach⟩ := ih (Nat.le_of_succ_le hcount)
    obtain ⟨transformed, htransform⟩ := hall _ (List.getElem_mem hcount)
    obtain ⟨longer, hlonger⟩ : ∃ longer, onData mapper blocks[count] topic true longer := by
      unfold onData
      rw [htransform]
      dsimp only
      split
      · exact ⟨_, Or.inl rfl⟩
      · exact ⟨_, rfl, rfl⟩
    have hstep := Consumption.Step.handled (c := ⟨count, count, topic⟩)
      (List.getElem?_eq_getElem hcount) hlonger
    rw [Nat.max_eq_right (Nat.le_succ count)] at hstep
    exact ⟨longer, hreach.tail hstep⟩

/-- **One event stops the transformer.** It can reach the end of the block topic if and only if each
event of the contract with three topics or more, in a transaction that passes the bloom filter, has
a fourth topic. -/
theorem reaches_end_iff {cfg : Consumer.Config} (hcfg : cfg.mode = .asynchronous)
    (hbuffer : 1 < cfg.maxBufferLength) (hstart : ∀ topic, cfg.startOffset topic = 0)
    {blocks : List TransactionBlock}
    (hdecodes : ∀ block ∈ blocks, ∀ transaction ∈ block.transactions,
      Decodes w nftContract transaction)
    (hundefined : ∃ error, w.decodeUint256 none = .error error) :
    (∃ p : Concurrent Unit TransactionBlock (List (TransformedBlock NFTTransferTx)),
      Concurrent.Lives cfg blocks (onData (map w nftContract)) [] p ∧ p.place = blocks.length) ↔
      ∀ block ∈ blocks, ∀ transaction ∈ block.transactions,
        isNFTTransfer w nftContract transaction.receipt.logsBloom = .ok true →
          ∀ log ∈ transaction.receipt.logs, lets nftContract log = true →
            4 ≤ log.topics.length := by
  have hok : (∀ block ∈ blocks, ∃ transformed,
      transform (map w nftContract) block = .ok transformed) ↔
      ∀ block ∈ blocks, ∀ transaction ∈ block.transactions,
        isNFTTransfer w nftContract transaction.receipt.logsBloom = .ok true →
          ∀ log ∈ transaction.receipt.logs, lets nftContract log = true →
            4 ≤ log.topics.length := by
    refine forall₂_congr fun block hblock => transform_isOk.trans ?_
    exact forall₂_congr fun transaction htransaction =>
      map_isOk (hdecodes block hblock transaction htransaction) hundefined
  rw [← hok]
  constructor
  · rintro ⟨p, hlives, hend⟩ block hblock
    by_contra hfails
    obtain ⟨i, hi⟩ := List.getElem?_of_mem hblock
    obtain ⟨begun, hreach⟩ := Concurrent.lives_atEnd hcfg hlives hend
    have hle := hreach.place_le hi fun _ _ hhandle => hfails (onData_true hhandle)
    obtain ⟨hlt, -⟩ := List.getElem?_eq_some_iff.mp hi
    exact absurd hle (Nat.not_le.mpr hlt)
  · intro hall
    obtain ⟨topic, hreach⟩ := reaches_of_transformed hall
    obtain ⟨p, hlives, hend, -⟩ := Concurrent.reaches_lives hcfg hbuffer hstart hreach
    exact ⟨p, hlives, hend⟩

/-- The contract of the examples. -/
def contract : String := "0x3333333333333333333333333333333333333333"

/-- The approval of an operator for all tokens of an owner. -/
def approvalForAll : EventLog Nat where
  address := contract
  data := "0x0000000000000000000000000000000000000000000000000000000000000001"
  topics := ["0x17307eab39ab6107e8899845ad3d59bd9653f200f220920489ca2b5937696c31", account '1',
    account '2']
  transactionHash := "0x1"
  blockHash := "0x5"
  removed := .absent
  id := .absent
  logIndex := 0
  transactionIndex := 0
  blockNumber := 5

/-- A transfer of token 7. -/
def handed : EventLog Nat :=
  { approvalForAll with
    data := "0x"
    topics := [transferTopic, account '1', account '2',
      "0x0000000000000000000000000000000000000000000000000000000000000007"] }

/-- A transaction in which both were emitted. Its bloom filter has the bits of the contract, of the
two signatures, of the two accounts and of the token. -/
def approving : Transaction :=
  { Transfers.bare with receipt := { Transfers.bare.receipt with
      logsBloom := bloomOf [2009, 1546, 1822, 237, 227, 1273, 1443, 481, 1060, 762, 1041, 765,
        1565, 1651, 107, 1644, 296, 1517]
      logs := [approvalForAll, handed] } }

/-- A bloom filter with the bits of both lets a transaction pass. -/
theorem isNFTTransfer_bloomOf {bits : List Nat} (hcontract : isHexOf 40 nftContract = true)
    (htopic : isInBloom (bloomOf bits) transferTopic = true)
    (haddress : isInBloom (bloomOf bits) nftContract = true) :
    isNFTTransfer decoders nftContract (bloomOf bits) = .ok true := by
  rw [isNFTTransfer, isTopicInBloom_bloomOf (by decide), htopic,
    isContractAddressInBloom_bloomOf hcontract, haddress]
  rfl

/-- The transaction passes the bloom filter, and its logs are decoded as far as they go. -/
theorem approving_decodes :
    isNFTTransfer decoders contract approving.receipt.logsBloom = .ok true ∧
      Decodes decoders contract approving := by
  have hbloom : isNFTTransfer decoders contract approving.receipt.logsBloom = .ok true := by
    refine isNFTTransfer_bloomOf (by decide) ?_ ?_
    · rw [isInBloom, bloomOf, String.toList_ofList]
      decide +kernel
    · rw [isInBloom, bloomOf, String.toList_ofList]
      decide +kernel
  have haccounts : ∀ log ∈ approving.receipt.logs,
      decoders.decodeAddress log.topics[1]? =
          .ok "0x1111111111111111111111111111111111111111" ∧
        decoders.decodeAddress log.topics[2]? =
          .ok "0x2222222222222222222222222222222222222222" := by
    decide +kernel
  have htoken : ∀ log ∈ approving.receipt.logs, 4 ≤ log.topics.length →
      decoders.decodeUint256 log.topics[3]? = .ok "7" := by
    decide +kernel
  exact ⟨hbloom, ⟨true, hbloom⟩, fun log hlog _ => ⟨_, (haccounts log hlog).1⟩,
    fun log hlog _ => ⟨_, (haccounts log hlog).2⟩, fun log hlog _ h => ⟨_, htoken log hlog h⟩⟩

/-- The transformer never gets past the approval. -/
theorem approving_reaches_end_iff :
    ¬ ∃ p : Concurrent Unit TransactionBlock (List (TransformedBlock NFTTransferTx)),
      Concurrent.Lives Consumer.atOnce [⟨5, 100, [approving]⟩] (onData (map decoders contract)) []
        p ∧ p.place = 1 := by
  have hdecodes : ∀ block ∈ [(⟨5, 100, [approving]⟩ : TransactionBlock)],
      ∀ transaction ∈ block.transactions, Decodes decoders contract transaction := by
    intro block hblock transaction htransaction
    obtain rfl := List.mem_singleton.mp hblock
    obtain rfl := List.mem_singleton.mp htransaction
    exact approving_decodes.2
  intro h
  have hall := (reaches_end_iff rfl (by decide) (fun _ => rfl) hdecodes ⟨_, rfl⟩).mp h _
    List.mem_cons_self _ List.mem_cons_self approving_decodes.1 approvalForAll List.mem_cons_self
    (by decide)
  exact absurd hall (by decide)

end NFTTransferMapper

end ChainIndexer.Tokens
