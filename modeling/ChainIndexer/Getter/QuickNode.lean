import ChainIndexer.Getter.Requests
import ChainIndexer.Getter.Snapshot

/-!
# The getter for QuickNode

One request answers a block with its receipts, both raw, so they are of one moment. From the second
attempt on it goes to the alternate endpoint, if there is one; receipts that are missing are still
asked for one by one from the first endpoint.
-/

namespace ChainIndexer.Getter

open Program (Exchange Runs Attempted attempts)

/-- `IQuickNodeResponse`; a block that is null and receipts that are not there are absent. -/
structure QuickNodeResponse where
  block : Option Web3Block
  receipts : Option (List Receipt)
  deriving DecidableEq, Repr

/-- `qn_getBlockWithReceipts`, in a race with a timer. -/
inductive QuickNodeCall where
  | getBlockWithReceipts (alternate : Bool) (blockNumber : Nat)
  deriving DecidableEq, Repr

def QuickNodeCall.Answer : QuickNodeCall → Type
  | .getBlockWithReceipts .. => Option (Except String (Option QuickNodeResponse))

/-- The answers of both interfaces. -/
abbrev QuickNodeAnswer : QuickNodeCall ⊕ Call → Type := Sum.elim QuickNodeCall.Answer Call.Answer

/-- What is done with a response: without a block it throws, and without receipts the first
transaction does. -/
def fromResponse (maxRetries : Nat) (response : QuickNodeResponse) : Promise Block :=
  match response.block with
  | none => .throw (.unknown "Cannot read properties of null (reading 'transactions')")
  | some block => match response.receipts, block.transactions with
    | none, _ :: _ => .throw (.unknown "Cannot read properties of undefined (reading 'find')")
    | receipts, _ => assemble (findReceipt maxRetries receipts) block

/-- One attempt of `QuickNodeBlockGetter.getBlockWithTransactionReceipts`. -/
def quickNodeAttempt (maxRetries blockNumber : Nat) (alternate : Bool) :
    Program (QuickNodeCall ⊕ Call) QuickNodeAnswer (Except Thrown Block) :=
  .call (.inl (.getBlockWithReceipts alternate blockNumber))
    fun answer : Option (Except String (Option QuickNodeResponse)) => match answer with
    | none => .throw (.unknown ("Request timed out for block: " ++ toString blockNumber))
    | some (.error cause) => .throw (.unknown cause)
    | some (.ok none) =>
      .throw (.unknown ("null response received for block: " ++ toString blockNumber))
    | some (.ok (some response)) => (fromResponse maxRetries response).right

/-- `QuickNodeBlockGetter.getBlockWithTransactionReceipts` with all its retries. -/
def quickNodeBlock (maxRetries blockNumber : Nat) (alternateEth : Bool) :
    Program (QuickNodeCall ⊕ Call) QuickNodeAnswer (Except Thrown Block) :=
  attempts (fun retryCount =>
    quickNodeAttempt maxRetries blockNumber (decide (0 < retryCount) && alternateEth)) maxRetries 0

/-- The receipt of a transaction is the one in the response, or one that was asked for because the
response has none. -/
def Provided (response : QuickNodeResponse) (asked : List (Exchange Call.Answer))
    (transaction : Transaction) : Prop :=
  match foundReceipt response.receipts transaction.hash with
  | some found => found.transactionHash = transaction.receipt.transactionHash ∧
      found.blockHash = transaction.receipt.blockHash
  | none => ∃ found : Receipt, (⟨.race (.getTransactionReceipt transaction.hash),
      some (.ok (some found))⟩ : Exchange Call.Answer) ∈ asked ∧
      found.transactionHash = transaction.receipt.transactionHash ∧
      found.blockHash = transaction.receipt.blockHash

/-- These exchanges are an attempt: a request to one of the endpoints, and further ones for receipts
that its response does not have. -/
def QuickNodeTrace (maxRetries blockNumber : Nat) (alternate : Bool)
    (es : List (Exchange QuickNodeAnswer)) : Prop :=
  ∃ (answer : _) (hashes : List String) (asked : List (Exchange Call.Answer)),
    es = ⟨.inl (.getBlockWithReceipts alternate blockNumber), answer⟩ ::
      asked.map Exchange.right ∧
    Asks (maxRetries + 2) hashes (asked.map Sigma.fst) ∧
    ∀ transactionHash ∈ hashes, ∃ response found, answer = some (.ok (some response)) ∧
      response.block = some found ∧
      transactionHash ∈ missing response.receipts found.transactions

/-- These exchanges have this block: its response has the block, and the receipts that it does not
have were asked for, each of them. -/
def QuickNodePicture (maxRetries blockNumber : Nat) (alternate : Bool)
    (es : List (Exchange QuickNodeAnswer)) (block : Block) : Prop :=
  ∃ response found asked,
    es = ⟨.inl (.getBlockWithReceipts alternate blockNumber), some (.ok (some response))⟩ ::
      asked.map Exchange.right ∧
    response.block = some found ∧
    Asks (maxRetries + 2) (missing response.receipts found.transactions)
      (asked.map Sigma.fst) ∧
    block.hash = found.hash ∧
    block.transactions.map Transaction.hash =
      found.transactions.map Web3Transaction.hash ∧
    ∀ transaction ∈ block.transactions, Provided response asked transaction

/-- What holds of the receipt of each transaction when it is found holds of all of them at the
end. -/
theorem withReceipts_each {receiptOf : String → Promise TransactionReceipt}
    {P : List (Exchange Call.Answer) → Transaction → Prop}
    (hmono : ∀ {es fs : List (Exchange Call.Answer)} {transaction}, es ⊆ fs → P es transaction →
      P fs transaction)
    (hreceipt : ∀ {transactionHash es receipt}, Runs (receiptOf transactionHash) es (.ok receipt) →
      P es ⟨transactionHash, receipt⟩)
    {objects : List Web3Transaction} {es : List (Exchange Call.Answer)}
    {transactions : List Transaction} (h : Runs (withReceipts receiptOf objects) es
      (.ok transactions)) :
    transactions.map Transaction.hash = objects.map Web3Transaction.hash ∧
      ∀ transaction ∈ transactions, P es transaction := by
  induction objects generalizing es transactions with
  | nil =>
    obtain ⟨_, hnil⟩ := h.done_inv
    cases hnil
    exact ⟨rfl, nofun⟩
  | cons object objects ih =>
    obtain ⟨first, receipt, rest, rfl, hfirst, hrest⟩ := Runs.andThen_ok.mp h
    split at hrest
    · cases hrest.done_inv.2
    · rename_i transaction hformat
      obtain rfl := formatted_ok hformat
      obtain ⟨later, others, last, rfl, hlater, hlast⟩ := Runs.andThen_ok.mp hrest
      obtain ⟨rfl, hresult⟩ := hlast.done_inv
      cases hresult
      obtain ⟨hhashes, hothers⟩ := ih hlater
      refine ⟨congrArg _ hhashes, fun transaction hmem => ?_⟩
      rw [List.append_nil]
      rcases List.mem_cons.mp hmem with rfl | hmem
      · exact hmono (List.subset_append_left _ _) (hreceipt hfirst)
      · exact hmono (List.subset_append_right _ _) (hothers transaction hmem)

/-- Further exchanges provide no less. -/
theorem Provided.mono {response : QuickNodeResponse} {es fs : List (Exchange Call.Answer)}
    {transaction : Transaction} (hsubset : es ⊆ fs) (h : Provided response es transaction) :
    Provided response fs transaction := by
  unfold Provided at h ⊢
  split
  · rename_i found hfound
    rw [hfound] at h
    exact h
  · rename_i hnone
    rw [hnone] at h
    obtain ⟨found, hmem, hsame⟩ := h
    exact ⟨found, hsubset hmem, hsame⟩

/-- A receipt that is asked for is that of some answer. -/
theorem getTransactionReceipt_answered {maxRetries : Nat} {transactionHash : String}
    {es : List (Exchange Call.Answer)} {receipt : TransactionReceipt}
    (h : Runs (getTransactionReceipt maxRetries transactionHash) es (.ok receipt)) :
    ∃ found : Receipt, (⟨.race (.getTransactionReceipt transactionHash), some (.ok (some found))⟩ :
      Exchange Call.Answer) ∈ es ∧ found.transactionHash = receipt.transactionHash ∧
      found.blockHash = receipt.blockHash := by
  obtain ⟨failed, last, rfl, _, _, hlast⟩ := Runs.retrying_ok h
  obtain ⟨answer, rest, rfl, hrest⟩ := hlast.call_inv
  match answer with
  | none => cases hrest.done_inv.2
  | some (.error cause) => cases hrest.done_inv.2
  | some (.ok none) => cases hrest.done_inv.2
  | some (.ok (some found)) =>
    obtain ⟨_, hformat⟩ := hrest.done_inv
    obtain rfl := formatted_ok hformat.symm
    exact ⟨found, List.mem_append_right _ List.mem_cons_self, rfl, rfl⟩

private theorem findReceipt_provided {maxRetries : Nat} {response : QuickNodeResponse}
    {transactionHash : String} {es : List (Exchange Call.Answer)} {receipt : TransactionReceipt}
    (h : Runs (findReceipt maxRetries response.receipts transactionHash) es (.ok receipt)) :
    Provided response es ⟨transactionHash, receipt⟩ := by
  unfold Provided
  unfold findReceipt at h
  split at h
  · rename_i found hfind
    obtain ⟨_, hformat⟩ := h.done_inv
    obtain rfl := formatted_ok hformat.symm
    rw [foundReceipt, hfind]
    exact ⟨rfl, rfl⟩
  · rename_i hnone
    rw [foundReceipt, hnone]
    exact getTransactionReceipt_answered h

/-- What is done with a response asks for the first of the missing receipts. -/
theorem fromResponse_calls {maxRetries : Nat} {response : QuickNodeResponse} {found : Web3Block}
    {es : List (Exchange Call.Answer)} {result : Except Thrown Block}
    (hfound : response.block = some found)
    (h : Runs (fromResponse maxRetries response) es result) :
    ∃ hashes, hashes <+: missing response.receipts found.transactions ∧
      Asks (maxRetries + 2) hashes (es.map Sigma.fst) ∧
      (∀ block, result = .ok block →
        hashes = missing response.receipts found.transactions) := by
  unfold fromResponse at h
  rw [hfound] at h
  dsimp only at h
  split at h
  · obtain ⟨rfl, rfl⟩ := h.done_inv
    exact ⟨[], List.nil_prefix, .nil, nofun⟩
  · exact assemble_calls h

private theorem fromResponse_provided {maxRetries : Nat} {response : QuickNodeResponse}
    {found : Web3Block}
    {es : List (Exchange Call.Answer)} {block : Block} (hfound : response.block = some found)
    (h : Runs (fromResponse maxRetries response) es (.ok block)) :
    block.hash = found.hash ∧ block.transactions.map Transaction.hash =
        found.transactions.map Web3Transaction.hash ∧
      ∀ transaction ∈ block.transactions, Provided response es transaction := by
  unfold fromResponse at h
  rw [hfound] at h
  dsimp only at h
  split at h
  · cases h.done_inv.2
  · obtain ⟨first, transactions, rest, rfl, hfirst, hrest⟩ := Runs.andThen_ok.mp h
    obtain ⟨rfl, hformat⟩ := hrest.done_inv
    obtain rfl := formatted_ok hformat.symm
    obtain ⟨hhashes, hprovided⟩ :=
      withReceipts_each (P := Provided response) Provided.mono findReceipt_provided hfirst
    rw [List.append_nil]
    exact ⟨rfl, hhashes, hprovided⟩

/-- A response without a block throws at once. -/
theorem fromResponse_null {maxRetries : Nat} {response : QuickNodeResponse}
    {es : List (Exchange Call.Answer)} {result : Except Thrown Block}
    (hnull : response.block = none) (h : Runs (fromResponse maxRetries response) es result) :
    es = [] ∧ ∀ block, result ≠ .ok block := by
  unfold fromResponse at h
  rw [hnull] at h
  obtain ⟨rfl, rfl⟩ := h.done_inv
  exact ⟨rfl, nofun⟩

/-- An attempt leaves such a trace, and the block it returns is such a picture. -/
theorem quickNodeAttempt_trace {maxRetries blockNumber : Nat} {alternate : Bool}
    {es : List (Exchange QuickNodeAnswer)} {result : Except Thrown Block}
    (h : Runs (quickNodeAttempt maxRetries blockNumber alternate) es result) :
    QuickNodeTrace maxRetries blockNumber alternate es ∧
      ∀ block, result = .ok block →
        QuickNodePicture maxRetries blockNumber alternate es block := by
  obtain ⟨answer, rest, rfl, hrest⟩ := h.call_inv
  have hthrown : rest = [] → QuickNodeTrace maxRetries blockNumber alternate
      (⟨.inl (.getBlockWithReceipts alternate blockNumber), answer⟩ :: rest) := by
    rintro rfl
    exact ⟨answer, [], [], rfl, .nil, nofun⟩
  match answer with
  | none =>
    obtain ⟨hnil, rfl⟩ := hrest.done_inv
    exact ⟨hthrown hnil, nofun⟩
  | some (.error cause) =>
    obtain ⟨hnil, rfl⟩ := hrest.done_inv
    exact ⟨hthrown hnil, nofun⟩
  | some (.ok none) =>
    obtain ⟨hnil, rfl⟩ := hrest.done_inv
    exact ⟨hthrown hnil, nofun⟩
  | some (.ok (some response)) =>
    obtain ⟨asked, rfl, hasked⟩ := Program.runs_right_iff.mp hrest
    cases hblock : response.block with
    | none =>
      obtain ⟨rfl, hnever⟩ := fromResponse_null hblock hasked
      exact ⟨hthrown rfl, fun block hok => absurd hok (hnever block)⟩
    | some found =>
      obtain ⟨hashes, hbegins, hasks, hall⟩ := fromResponse_calls hblock hasked
      refine ⟨⟨_, hashes, asked, rfl, hasks, fun transactionHash hmem =>
        ⟨response, found, rfl, hblock, hbegins.subset hmem⟩⟩, ?_⟩
      rintro block rfl
      rw [hall block rfl] at hasks
      exact ⟨response, found, asked, rfl, hblock, hasks, fromResponse_provided hblock hasked⟩

/-- **The QuickNode getter** asks the first endpoint first and the alternate one, if there is one,
in every later attempt, once in each. A block that it returns is the one in the response of the last
attempt, in which receipts were asked for one by one only if this response does not have them. -/
theorem quickNode_attempts {maxRetries blockNumber : Nat} {alternateEth : Bool}
    {es : List (Exchange QuickNodeAnswer)} {result : Except Thrown Block}
    (h : Runs (quickNodeBlock maxRetries blockNumber alternateEth) es result) :
    ∃ failed last, es = failed.flatten ++ last ∧
      Attempted (fun retryCount => quickNodeAttempt maxRetries blockNumber
        (decide (0 < retryCount) && alternateEth)) maxRetries 0 failed last result ∧
      (∀ i attempt, (failed ++ [last])[i]? = some attempt →
        QuickNodeTrace maxRetries blockNumber (decide (0 < i) && alternateEth) attempt) ∧
      ∀ block, result = .ok block → QuickNodePicture maxRetries blockNumber
        (decide (0 < failed.length) && alternateEth) last block := by
  obtain ⟨failed, last, rfl, hattempted⟩ := Runs.attempted h
  have hended := hattempted.ended
  rw [Nat.zero_add] at hended
  refine ⟨failed, last, rfl, hattempted, fun i attempt hget => ?_,
    (quickNodeAttempt_trace hended).2⟩
  rcases Nat.lt_or_ge i failed.length with hlt | hge
  · rw [List.getElem?_append_left hlt] at hget
    obtain ⟨error, hfailed⟩ := hattempted.failures i attempt hget
    rw [Nat.zero_add] at hfailed
    exact (quickNodeAttempt_trace hfailed).1
  · rw [List.getElem?_append_right hge, List.getElem?_singleton] at hget
    obtain ⟨hindex, hlast⟩ := Option.ite_none_right_eq_some.mp hget
    obtain rfl := Option.some.inj hlast
    obtain rfl : i = failed.length := by omega
    exact (quickNodeAttempt_trace hended).1

/-- The first endpoint does not answer in time, and the response of the alternate one lacks a
receipt. -/
def lacking : List (Exchange QuickNodeAnswer) :=
  [⟨.inl (.getBlockWithReceipts false 5), none⟩,
    ⟨.inl (.getBlockWithReceipts true 5), some (.ok (some ⟨some ⟨"0xa",
      [⟨"0x1", none⟩, ⟨"0x2", none⟩], none⟩, some [⟨"0x1", "0xa", none⟩]⟩))⟩,
    ⟨.inr (.race (.getTransactionReceipt "0x2")), some (.ok (some ⟨"0x2", "0xa", none⟩))⟩]

/-- Its block has the one receipt from the response and the other from the further request. -/
theorem lacking_attempts : ∃ failed last, lacking = failed.flatten ++ last ∧
    (∀ i attempt, (failed ++ [last])[i]? = some attempt →
      QuickNodeTrace 1 5 (decide (0 < i) && true) attempt) ∧
    QuickNodePicture 1 5 (decide (0 < failed.length) && true) last
      ⟨"0xa", [⟨"0x1", ⟨"0x1", "0xa"⟩⟩, ⟨"0x2", ⟨"0x2", "0xa"⟩⟩]⟩ := by
  have hruns : Runs (quickNodeBlock 1 5 true) lacking
      (.ok ⟨"0xa", [⟨"0x1", ⟨"0x1", "0xa"⟩⟩, ⟨"0x2", ⟨"0x2", "0xa"⟩⟩]⟩) :=
    .call (.call (.call .done))
  obtain ⟨failed, last, hsplit, -, htraces, hpicture⟩ := quickNode_attempts hruns
  exact ⟨failed, last, hsplit, htraces, hpicture _ rfl⟩

end ChainIndexer.Getter
