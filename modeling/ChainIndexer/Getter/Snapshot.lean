import ChainIndexer.Getter.Calls

/-!
# What a fetched block is a picture of

The block and the receipts are answers of the node at different moments, and the chain may change
in between. Every receipt is one of its transaction, on the chain that answered it. Nothing
compares the hash of its block with the hash of the fetched block, so they agree only as far as
the chains do.
-/

namespace ChainIndexer.Getter

open Program (Exchange Runs)

/-- A block of a chain. -/
structure ChainBlock where
  hash : String
  transactions : List String
  deriving DecidableEq, Repr

/-- A canonical chain. A transaction is in one block of it at most. -/
structure Chain where
  blocks : Nat → Option ChainBlock
  unique : ∀ m n first second, blocks m = some first → blocks n = some second →
    ∀ transaction ∈ first.transactions, transaction ∈ second.transactions → m = n

/-- The transaction is in the block with this hash. -/
def Chain.Holds (chain : Chain) (transactionHash blockHash : String) : Prop :=
  ∃ n block, chain.blocks n = some block ∧ block.hash = blockHash ∧
    transactionHash ∈ block.transactions

/-- The answer to a request agrees with a chain. -/
def Rpc.Agrees (chain : Chain) : (request : Rpc) → request.Result → Prop
  | .getBlock blockNumber, some block => ∃ stored, chain.blocks blockNumber = some stored ∧
      block.hash = stored.hash ∧ block.transactions.map Web3Transaction.hash = stored.transactions
  | .getBlockReceipts _, some receipts => ∀ receipt ∈ receipts,
      chain.Holds receipt.transactionHash receipt.blockHash
  | .getTransactionReceipt transactionHash, some receipt =>
    receipt.transactionHash = transactionHash ∧ chain.Holds transactionHash receipt.blockHash
  | .getBlock _, none | .getBlockReceipts _, none | .getTransactionReceipt _, none => True

/-- What the node has answered, if it has answered. -/
def answerOf : (exchange : Exchange Call.Answer) → Option (Σ request : Rpc, request.Result)
  | ⟨.rpc request, .ok result⟩ | ⟨.race request, some (.ok result)⟩ => some ⟨request, result⟩
  | ⟨.rpc _, .error _⟩ | ⟨.race _, some (.error _)⟩ | ⟨.race _, none⟩ => none

/-- The answer of the node, if there is one, agrees with a chain. -/
def Consistent (chain : Chain) (exchange : Exchange Call.Answer) : Prop :=
  ∀ answer ∈ answerOf exchange, answer.1.Agrees chain answer.2

/-- The receipt is one that was answered for the transaction. -/
def Supplies (transactionHash : String) (receipt : TransactionReceipt)
    (exchange : Exchange Call.Answer) : Prop :=
  ∃ found : Receipt, found.transactionHash = receipt.transactionHash ∧
    found.blockHash = receipt.blockHash ∧
    (answerOf exchange = some ⟨.getTransactionReceipt transactionHash, some found⟩ ∨
      found.transactionHash = transactionHash ∧ ∃ blockNumber receipts,
        answerOf exchange = some ⟨.getBlockReceipts blockNumber, some receipts⟩ ∧
        found ∈ receipts)

/-- A supplied receipt is that of the transaction on the chain that answered. -/
theorem Supplies.holds {transactionHash : String} {receipt : TransactionReceipt} {chain : Chain}
    {exchange : Exchange Call.Answer} (h : Supplies transactionHash receipt exchange)
    (hc : Consistent chain exchange) : receipt.transactionHash = transactionHash ∧
      chain.Holds transactionHash receipt.blockHash := by
  obtain ⟨found, hhash, hblock, hone | ⟨hown, blockNumber, receipts, hall, hmem⟩⟩ := h
  · obtain ⟨hown, hholds⟩ := hc _ hone
    exact ⟨hhash.symm.trans hown, hblock ▸ hholds⟩
  · have hholds := hc _ hall found hmem
    rw [hown, hblock] at hholds
    exact ⟨hhash.symm.trans hown, hholds⟩

/-- Formatting changes nothing of what it returns. -/
theorem formatted_ok {α : Type} {fault : Option String} {value result : α}
    (h : formatted fault value = .ok result) : result = value := by
  cases fault with
  | none => exact (Except.ok.inj h).symm
  | some message => cases h

/-- An attempt that has a receipt got it for this transaction. -/
theorem receiptAttempt_supplies {transactionHash : String} {es : List (Exchange Call.Answer)}
    {receipt : TransactionReceipt} (h : Runs (receiptAttempt transactionHash) es (.ok receipt)) :
    ∃ exchange ∈ es, Supplies transactionHash receipt exchange := by
  obtain ⟨answer, rest, rfl, hrest⟩ := h.call_inv
  match answer with
  | none => cases hrest.done_inv.2
  | some (.error cause) => cases hrest.done_inv.2
  | some (.ok none) => cases hrest.done_inv.2
  | some (.ok (some found)) =>
    obtain ⟨_, hformat⟩ := hrest.done_inv
    obtain rfl := formatted_ok hformat.symm
    exact ⟨_, List.mem_cons_self, found, rfl, rfl, Or.inl rfl⟩

/-- A receipt that is returned was answered. -/
theorem getTransactionReceipt_supplies {maxRetries : Nat} {transactionHash : String}
    {es : List (Exchange Call.Answer)} {receipt : TransactionReceipt}
    (h : Runs (getTransactionReceipt maxRetries transactionHash) es (.ok receipt)) :
    ∃ exchange ∈ es, Supplies transactionHash receipt exchange := by
  obtain ⟨failed, last, rfl, _, _, hlast⟩ := Runs.retrying_ok h
  obtain ⟨exchange, hmem, hsupplies⟩ := receiptAttempt_supplies hlast
  exact ⟨exchange, List.mem_append_right _ hmem, hsupplies⟩

/-- The receipts of a block are those that some call for them has answered. -/
theorem getTransactionReceipts_answered {blockNumber : Nat} {es : List (Exchange Call.Answer)}
    {receipts : List Receipt}
    (h : Runs (getTransactionReceipts blockNumber) es (.ok (some receipts))) :
    ∃ exchange ∈ es, answerOf exchange = some ⟨.getBlockReceipts blockNumber, some receipts⟩ := by
  have hcall : ∀ {withoutResult : Promise (Option (List Receipt))}
      {es : List (Exchange Call.Answer)},
      Runs (sendTransactionReceiptsCall blockNumber withoutResult) es (.ok (some receipts)) →
      (∃ exchange ∈ es, answerOf exchange = some ⟨.getBlockReceipts blockNumber, some receipts⟩) ∨
        ∃ first rest, es = first :: rest ∧ Runs withoutResult rest (.ok (some receipts)) := by
    intro withoutResult es h
    obtain ⟨answer, rest, rfl, hrest⟩ := h.call_inv
    match answer with
    | none => cases hrest.done_inv.2
    | some (.error cause) => cases hrest.done_inv.2
    | some (.ok none) => exact Or.inr ⟨_, rest, rfl, hrest⟩
    | some (.ok (some found)) =>
      cases hrest.done_inv.2
      exact Or.inl ⟨_, List.mem_cons_self, rfl⟩
  rcases hcall h with hfound | ⟨first, rest, rfl, hrest⟩
  · exact hfound
  · rcases hcall hrest with ⟨exchange, hmem, hfound⟩ | ⟨_, _, _, hnone⟩
    · exact ⟨exchange, List.mem_cons_of_mem _ hmem, hfound⟩
    · cases hnone.done_inv.2

/-- A receipt that is looked up has the hash it is looked up by. -/
theorem findReceipt_supplies {maxRetries blockNumber : Nat} {receipts : Option (List Receipt)}
    {transactionHash : String} {known es : List (Exchange Call.Answer)}
    {receipt : TransactionReceipt}
    (hknown : ∀ found ∈ receipts, ∃ exchange ∈ known,
      answerOf exchange = some ⟨.getBlockReceipts blockNumber, some found⟩)
    (h : Runs (findReceipt maxRetries receipts transactionHash) es (.ok receipt)) :
    ∃ exchange ∈ known ++ es, Supplies transactionHash receipt exchange := by
  unfold findReceipt at h
  split at h
  · rename_i found hfind
    obtain ⟨list, hlist, hfound⟩ := Option.bind_eq_some_iff.mp hfind
    obtain ⟨exchange, hmem, hanswer⟩ := hknown list hlist
    obtain ⟨_, hformat⟩ := h.done_inv
    obtain rfl := formatted_ok hformat.symm
    refine ⟨exchange, List.mem_append_left _ hmem, found, rfl, rfl, Or.inr ⟨?_, _, list, hanswer,
      List.mem_of_find?_eq_some hfound⟩⟩
    have hhash := List.find?_some hfound
    exact of_decide_eq_true hhash
  · obtain ⟨exchange, hmem, hsupplies⟩ := getTransactionReceipt_supplies h
    exact ⟨exchange, List.mem_append_right _ hmem, hsupplies⟩

/-- The loop keeps the transactions, each with a receipt that was supplied for it. -/
theorem withReceipts_supplies {receiptOf : String → Promise TransactionReceipt}
    {known es : List (Exchange Call.Answer)} {objects : List Web3Transaction}
    {transactions : List Transaction}
    (hreceipt : ∀ transactionHash es receipt, Runs (receiptOf transactionHash) es (.ok receipt) →
      ∃ exchange ∈ known ++ es, Supplies transactionHash receipt exchange)
    (h : Runs (withReceipts receiptOf objects) es (.ok transactions)) :
    transactions.map Transaction.hash = objects.map Web3Transaction.hash ∧
      ∀ transaction ∈ transactions, ∃ exchange ∈ known ++ es,
        Supplies transaction.hash transaction.receipt exchange := by
  induction objects generalizing es transactions with
  | nil =>
    obtain ⟨_, hnil⟩ := h.done_inv
    cases hnil
    exact ⟨rfl, fun _ hmem => by cases hmem⟩
  | cons object objects ih =>
    obtain ⟨first, receipt, rest, rfl, hfirst, hrest⟩ := Runs.andThen_ok.mp h
    split at hrest
    · cases hrest.done_inv.2
    · rename_i transaction hformat
      obtain rfl := formatted_ok hformat
      obtain ⟨later, others, last, rfl, hlater, hlast⟩ := Runs.andThen_ok.mp hrest
      obtain ⟨rfl, hresult⟩ := hlast.done_inv
      cases hresult
      obtain ⟨hhashes, hothers⟩ := ih hlater
      refine ⟨congrArg _ hhashes, fun transaction hmem => ?_⟩
      rcases List.mem_cons.mp hmem with rfl | hmem
      · obtain ⟨exchange, hin, hsupplies⟩ := hreceipt _ _ _ hfirst
        refine ⟨exchange, ?_, hsupplies⟩
        rw [List.append_nil, ← List.append_assoc]
        exact List.mem_append_left _ hin
      · obtain ⟨exchange, hin, hsupplies⟩ := hothers transaction hmem
        refine ⟨exchange, ?_, hsupplies⟩
        rw [List.append_nil]
        rcases List.mem_append.mp hin with hknown | hin
        · exact List.mem_append_left _ hknown
        · exact List.mem_append_right _ (List.mem_append_right _ hin)

/-- These exchanges make up an attempt that has this block: it was fetched in one of them, and each
transaction got its receipt in one of them. -/
structure Pictures (blockNumber : Nat) (attempt : List (Exchange Call.Answer)) (block : Block) :
    Prop where
  fetched : ∃ exchange ∈ attempt, ∃ found : Web3Block,
    answerOf exchange = some ⟨.getBlock blockNumber, some found⟩ ∧ block.hash = found.hash ∧
      block.transactions.map Transaction.hash = found.transactions.map Web3Transaction.hash
  supplied : ∀ transaction ∈ block.transactions, ∃ exchange ∈ attempt,
    Supplies transaction.hash transaction.receipt exchange

/-- A block put together from answers is a picture of them. -/
theorem assemble_pictures {receiptOf : String → Promise TransactionReceipt} {blockNumber : Nat}
    {known es : List (Exchange Call.Answer)} {found : Web3Block} {block : Block}
    (hreceipt : ∀ transactionHash es receipt, Runs (receiptOf transactionHash) es (.ok receipt) →
      ∃ exchange ∈ known ++ es, Supplies transactionHash receipt exchange)
    (hknown : ∃ exchange ∈ known, answerOf exchange = some ⟨.getBlock blockNumber, some found⟩)
    (h : Runs (assemble receiptOf found) es (.ok block)) :
    Pictures blockNumber (known ++ es) block := by
  obtain ⟨first, transactions, rest, rfl, hfirst, hrest⟩ := Runs.andThen_ok.mp h
  obtain ⟨rfl, hformat⟩ := hrest.done_inv
  obtain rfl := formatted_ok hformat.symm
  obtain ⟨hhashes, hsupplied⟩ := withReceipts_supplies hreceipt hfirst
  obtain ⟨exchange, hmem, hanswer⟩ := hknown
  rw [List.append_nil]
  exact ⟨⟨exchange, List.mem_append_left _ hmem, found, hanswer, rfl, hhashes⟩, hsupplied⟩

private theorem blockAttempt_pictures {maxRetries blockNumber : Nat}
    {es : List (Exchange Call.Answer)}
    {block : Block} (h : Runs (blockAttempt maxRetries blockNumber) es (.ok block)) :
    Pictures blockNumber es block := by
  obtain ⟨answer, rest, rfl, hrest⟩ := h.call_inv
  match answer with
  | .error cause => cases hrest.done_inv.2
  | .ok none => cases hrest.done_inv.2
  | .ok (some found) =>
    refine assemble_pictures (fun transactionHash es receipt hr => ?_)
      ⟨_, List.mem_singleton_self _, rfl⟩ hrest
    obtain ⟨exchange, hmem, hsupplies⟩ := getTransactionReceipt_supplies hr
    exact ⟨exchange, List.mem_append_right _ hmem, hsupplies⟩

private theorem erigonAttempt_pictures {maxRetries blockNumber : Nat}
    {es : List (Exchange Call.Answer)}
    {block : Block} (h : Runs (erigonAttempt maxRetries blockNumber) es (.ok block)) :
    Pictures blockNumber es block := by
  obtain ⟨answer, rest, rfl, hrest⟩ := h.call_inv
  match answer with
  | none => cases hrest.done_inv.2
  | some (.error cause) => cases hrest.done_inv.2
  | some (.ok fetched) =>
    obtain ⟨first, receipts, last, rfl, hfirst, hlast⟩ := Runs.andThen_ok.mp hrest
    match fetched with
    | none => cases hlast.done_inv.2
    | some found =>
      have hknown : ∀ list ∈ receipts, ∃ exchange ∈
          (⟨.race (.getBlock blockNumber), some (.ok (some found))⟩ :: first :
            List (Exchange Call.Answer)),
          answerOf exchange = some ⟨.getBlockReceipts blockNumber, some list⟩ := by
        intro list hlist
        cases hlist
        obtain ⟨exchange, hmem, hanswer⟩ := getTransactionReceipts_answered hfirst
        exact ⟨exchange, List.mem_cons_of_mem _ hmem, hanswer⟩
      exact assemble_pictures (fun _ _ _ hr => findReceipt_supplies hknown hr)
        ⟨_, List.mem_cons_self, rfl⟩ hlast

/-- One attempt of `getBlockWithTransactionReceipts`. -/
def Kind.attempt (kind : Kind) (maxRetries blockNumber : Nat) : Promise Block :=
  match kind with
  | .blockGetter => blockAttempt maxRetries blockNumber
  | .erigonBlockGetter => erigonAttempt maxRetries blockNumber

private theorem attempt_pictures {kind : Kind} {maxRetries blockNumber : Nat}
    {es : List (Exchange Call.Answer)} {block : Block}
    (h : Runs (kind.attempt maxRetries blockNumber) es (.ok block)) :
    Pictures blockNumber es block := by
  cases kind with
  | blockGetter => exact blockAttempt_pictures h
  | erigonBlockGetter => exact erigonAttempt_pictures h

/-- A result is that of the last attempt, and the attempts before it have failed. -/
theorem getBlock_attempts {kind : Kind} {maxRetries blockNumber : Nat}
    {es : List (Exchange Call.Answer)} {block : Block}
    (h : Runs (getBlockWithTransactionReceipts kind maxRetries blockNumber) es (.ok block)) :
    ∃ (failed : List (List (Exchange Call.Answer))) (attempt : List (Exchange Call.Answer)),
      es = failed.flatten ++ attempt ∧ failed.length ≤ maxRetries + 1 ∧
      (∀ one ∈ failed, ∃ error, Runs (kind.attempt maxRetries blockNumber) one (.error error)) ∧
      Runs (kind.attempt maxRetries blockNumber) attempt (.ok block) := by
  cases kind with
  | blockGetter => exact Runs.retrying_ok h
  | erigonBlockGetter =>
    obtain ⟨failed, last, hsplit, hle, hfailed, hlast⟩ := Runs.retrying_ok h
    exact ⟨failed, last, hsplit, Nat.le_succ_of_le hle, hfailed, hlast⟩

/-- In one chain the block with a transaction is the one at its height. -/
theorem Chain.holds_unique {chain : Chain} {n : Nat} {stored : ChainBlock}
    {transactionHash blockHash : String} (h : chain.Holds transactionHash blockHash)
    (hstored : chain.blocks n = some stored) (hmem : transactionHash ∈ stored.transactions) :
    blockHash = stored.hash := by
  obtain ⟨m, block, hblock, rfl, hin⟩ := h
  obtain rfl := chain.unique m n block stored hblock hstored transactionHash hin hmem
  rw [hblock] at hstored
  rw [Option.some.inj hstored]

/-- A result is the block that the last attempt has fetched, with its transactions in order; the
attempts before it have failed. Each transaction has the receipt of its own hash, and the block of
the receipt is the one with the transaction on the chain that has answered; that is the fetched
block where one chain has answered in the attempt. -/
theorem fetched_snapshot {kind : Kind} {maxRetries blockNumber : Nat}
    {es : List (Chain × Exchange Call.Answer)} {block : Block}
    (h : Runs (getBlockWithTransactionReceipts kind maxRetries blockNumber) (es.map Prod.snd)
      (.ok block))
    (hconsistent : ∀ answered ∈ es, Consistent answered.1 answered.2) :
    ∃ before attempt, es = before ++ attempt ∧
      (∃ failed : List (List (Exchange Call.Answer)),
        before.map Prod.snd = failed.flatten ∧ failed.length ≤ maxRetries + 1 ∧
        ∀ one ∈ failed, ∃ error, Runs (kind.attempt maxRetries blockNumber) one (.error error)) ∧
      Runs (kind.attempt maxRetries blockNumber) (attempt.map Prod.snd) (.ok block) ∧
      (∃ answered ∈ attempt, ∃ found : Web3Block,
        answerOf answered.2 = some ⟨.getBlock blockNumber, some found⟩ ∧ block.hash = found.hash ∧
        block.transactions.map Transaction.hash =
          found.transactions.map Web3Transaction.hash) ∧
      (∀ transaction ∈ block.transactions,
        transaction.receipt.transactionHash = transaction.hash ∧
        ∃ answered ∈ attempt, Supplies transaction.hash transaction.receipt answered.2 ∧
          answered.1.Holds transaction.hash transaction.receipt.blockHash) ∧
      ∀ chain, (∀ answered ∈ attempt, answered.1 = chain) →
        ∀ transaction ∈ block.transactions, transaction.receipt.blockHash = block.hash := by
  obtain ⟨failed, last, hsplit, hle, hfailed, hrun⟩ := getBlock_attempts h
  obtain ⟨before, attempt, rfl, hbefore, rfl⟩ := List.map_eq_append_iff.mp hsplit
  have hpictures := attempt_pictures hrun
  have hlast : ∀ answered ∈ attempt, Consistent answered.1 answered.2 :=
    fun answered hmem => hconsistent answered (List.mem_append_right _ hmem)
  have hfetched : ∃ answered ∈ attempt, ∃ found : Web3Block,
      answerOf answered.2 = some ⟨.getBlock blockNumber, some found⟩ ∧ block.hash = found.hash ∧
        block.transactions.map Transaction.hash =
          found.transactions.map Web3Transaction.hash := by
    obtain ⟨exchange, hmem, hfound⟩ := hpictures.fetched
    obtain ⟨answered, hin, rfl⟩ := List.mem_map.mp hmem
    exact ⟨answered, hin, hfound⟩
  have hsupplied : ∀ transaction ∈ block.transactions,
      transaction.receipt.transactionHash = transaction.hash ∧
        ∃ answered ∈ attempt, Supplies transaction.hash transaction.receipt answered.2 ∧
          answered.1.Holds transaction.hash transaction.receipt.blockHash := by
    intro transaction htransaction
    obtain ⟨exchange, hmem, hsupplies⟩ := hpictures.supplied transaction htransaction
    obtain ⟨answered, hin, rfl⟩ := List.mem_map.mp hmem
    obtain ⟨hhash, hholds⟩ := hsupplies.holds (hlast answered hin)
    exact ⟨hhash, answered, hin, hsupplies, hholds⟩
  refine ⟨before, attempt, rfl, ⟨failed, hbefore, hle, hfailed⟩, hrun, hfetched, hsupplied,
    fun chain hchain transaction htransaction => ?_⟩
  obtain ⟨_, answered, hin, _, hholds⟩ := hsupplied transaction htransaction
  obtain ⟨fetching, hfetching, found, hanswer, hhash, hhashes⟩ := hfetched
  obtain ⟨stored, hstored, hsame, htransactions⟩ := hlast fetching hfetching _ hanswer
  rw [hchain fetching hfetching] at hstored
  rw [hchain answered hin] at hholds
  have hmem : transaction.hash ∈ stored.transactions := by
    rw [← htransactions, ← hhashes]
    exact List.mem_map_of_mem htransaction
  rw [hhash, hsame]
  exact Chain.holds_unique hholds hstored hmem

/-- A chain of one block, at height 5. -/
def branch (hash : String) (transactions : List String) : Chain where
  blocks n := if n = 5 then some ⟨hash, transactions⟩ else none
  unique m n first second hm hn _ _ _ := by
    obtain ⟨hm, _⟩ := Option.ite_none_right_eq_some.mp hm
    obtain ⟨hn, _⟩ := Option.ite_none_right_eq_some.mp hn
    exact hm.trans hn.symm

/-- The block is fetched from one branch and its receipts from another, which has the transaction,
too. -/
def acrossBranches : List (Chain × Exchange Call.Answer) :=
  [(branch "0xa" ["0x1"],
      ⟨.race (.getBlock 5), some (.ok (some ⟨"0xa", [⟨"0x1", none⟩], none⟩))⟩),
    (branch "0xb" ["0x2", "0x1"],
      ⟨.race (.getBlockReceipts 5),
        some (.ok (some [⟨"0x2", "0xb", none⟩, ⟨"0x1", "0xb", none⟩]))⟩)]

/-- A branch holds its own transactions. -/
theorem branch_holds {hash transactionHash : String} {transactions : List String}
    (h : transactionHash ∈ transactions) : (branch hash transactions).Holds transactionHash hash :=
  ⟨5, ⟨hash, transactions⟩, rfl, rfl, h⟩

/-- The result is a block of the one branch with a receipt of the other. -/
theorem acrossBranches_mixed : (∀ answered ∈ acrossBranches, Consistent answered.1 answered.2) ∧
    Runs (getBlockWithTransactionReceipts .erigonBlockGetter 0 5) (acrossBranches.map Prod.snd)
      (.ok ⟨"0xa", [⟨"0x1", ⟨"0x1", "0xb"⟩⟩]⟩) ∧
    ¬ ∀ block, Runs (getBlockWithTransactionReceipts .erigonBlockGetter 0 5)
        (acrossBranches.map Prod.snd) (.ok block) →
      ∀ transaction ∈ block.transactions, transaction.receipt.blockHash = block.hash := by
  have hruns : Runs (getBlockWithTransactionReceipts .erigonBlockGetter 0 5)
      (acrossBranches.map Prod.snd) (.ok ⟨"0xa", [⟨"0x1", ⟨"0x1", "0xb"⟩⟩]⟩) :=
    .call (.call .done)
  refine ⟨?_, hruns, fun hall => ?_⟩
  · have hfirst : Consistent (branch "0xa" ["0x1"])
        ⟨.race (.getBlock 5), some (.ok (some ⟨"0xa", [⟨"0x1", none⟩], none⟩))⟩ := by
      rintro _ ⟨⟩
      exact ⟨⟨"0xa", ["0x1"]⟩, rfl, rfl, rfl⟩
    have hsecond : Consistent (branch "0xb" ["0x2", "0x1"]) ⟨.race (.getBlockReceipts 5),
        some (.ok (some [⟨"0x2", "0xb", none⟩, ⟨"0x1", "0xb", none⟩]))⟩ := by
      rintro _ ⟨⟩ receipt hmem
      rcases List.mem_cons.mp hmem with rfl | hmem
      · exact branch_holds List.mem_cons_self
      · obtain rfl := List.mem_singleton.mp hmem
        exact branch_holds (List.mem_cons_of_mem _ List.mem_cons_self)
    intro answered hmem
    rcases List.mem_cons.mp hmem with rfl | hmem
    · exact hfirst
    · obtain rfl := List.mem_singleton.mp hmem
      exact hsecond
  · exact absurd (hall _ hruns ⟨"0x1", ⟨"0x1", "0xb"⟩⟩ List.mem_cons_self) (by decide)

/-- The node does not know the block at first. -/
def retried : List (Chain × Exchange Call.Answer) :=
  [(branch "0xa" ["0x1"], ⟨.rpc (.getBlock 5), .ok none⟩),
    (branch "0xa" ["0x1"], ⟨.rpc (.getBlock 5), .ok (some ⟨"0xa", [⟨"0x1", none⟩], none⟩)⟩),
    (branch "0xa" ["0x1"],
      ⟨.race (.getTransactionReceipt "0x1"), some (.ok (some ⟨"0x1", "0xa", none⟩))⟩)]

/-- The second attempt has the block, and its receipt is of the chain at that moment. -/
theorem retried_snapshot : ∃ before attempt, retried = before ++ attempt ∧
    (∃ failed : List (List (Exchange Call.Answer)),
      before.map Prod.snd = failed.flatten ∧ failed.length ≤ 0 + 1 ∧
      ∀ one ∈ failed, ∃ error, Runs (Kind.blockGetter.attempt 0 5) one (.error error)) ∧
    Runs (Kind.blockGetter.attempt 0 5) (attempt.map Prod.snd)
      (.ok ⟨"0xa", [⟨"0x1", ⟨"0x1", "0xa"⟩⟩]⟩) ∧
    ∀ transaction ∈ [Transaction.mk "0x1" ⟨"0x1", "0xa"⟩], ∃ answered ∈ attempt,
      Supplies transaction.hash transaction.receipt answered.2 ∧
        answered.1.Holds transaction.hash transaction.receipt.blockHash := by
  have hruns : Runs (getBlockWithTransactionReceipts .blockGetter 0 5) (retried.map Prod.snd)
      (.ok ⟨"0xa", [⟨"0x1", ⟨"0x1", "0xa"⟩⟩]⟩) := .call (.call (.call .done))
  have hconsistent : ∀ answered ∈ retried, Consistent answered.1 answered.2 := by
    intro answered hmem
    rcases List.mem_cons.mp hmem with rfl | hmem
    · rintro _ ⟨⟩
      exact trivial
    rcases List.mem_cons.mp hmem with rfl | hmem
    · rintro _ ⟨⟩
      exact ⟨⟨"0xa", ["0x1"]⟩, rfl, rfl, rfl⟩
    · obtain rfl := List.mem_singleton.mp hmem
      rintro _ ⟨⟩
      exact ⟨rfl, branch_holds List.mem_cons_self⟩
  obtain ⟨before, attempt, hsplit, hfailed, hrun, _, hreceipts, _⟩ :=
    fetched_snapshot hruns hconsistent
  exact ⟨before, attempt, hsplit, hfailed, hrun,
    fun transaction hmem => (hreceipts transaction hmem).2⟩

end ChainIndexer.Getter
