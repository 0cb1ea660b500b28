import ChainIndexer.Core.Meter
import ChainIndexer.Getter.Calls

/-!
# The retry budget of a block getter

Both retries go on while the count of errors does not exceed the limit, which is one attempt more
than the limit allows, and both throw an error at once that is no block producer error. What a run
has used up is read off its exchanges.
-/

namespace ChainIndexer.Getter

open Program (Exchange Runs)

/-- What the exchanges so far have used up. -/
structure Tally where
  /-- The calls of `eth.getBlock`, and those that gave no block. -/
  blocks : Nat := 0
  blockFailures : Nat := 0
  /-- The requests for the present receipt, all of which have failed. -/
  requests : Nat := 0
  /-- The most requests for one receipt in one block attempt, and the most failed ones. -/
  mostRequests : Nat := 0
  mostFailures : Nat := 0
  /-- The transactions of the present block whose receipts have not come. -/
  remaining : List Web3Transaction := []
  /-- The error that formatting the present block throws. -/
  fault : Option String := none
  /-- Whether formatting what has come throws. -/
  broken : Bool := false
  deriving DecidableEq, Repr

/-- `eth.getBlock` has given no block. -/
def Tally.missed (t : Tally) : Tally :=
  { t with
    blocks := t.blocks + 1
    blockFailures := t.blockFailures + 1
    requests := 0 }

/-- `eth.getBlock` has given a block. Without transactions it is formatted at once. -/
def Tally.fetched (t : Tally) (block : Web3Block) : Tally :=
  { t with
    blocks := t.blocks + 1
    requests := 0
    remaining := block.transactions
    fault := block.fault
    broken := block.transactions.isEmpty && block.fault.isSome }

/-- A request for the present receipt has failed. -/
def Tally.failed (t : Tally) : Tally :=
  { t with
    requests := t.requests + 1
    mostRequests := max t.mostRequests (t.requests + 1)
    mostFailures := max t.mostFailures (t.requests + 1) }

/-- The present receipt has come, with which its transaction is formatted, and after the last one
the block. -/
def Tally.received (t : Tally) : Tally :=
  { t with
    requests := 0
    mostRequests := max t.mostRequests (t.requests + 1)
    remaining := t.remaining.tail
    broken := match t.remaining with
      | [] => false
      | transactionObject :: rest =>
        transactionObject.fault.isSome || (rest.isEmpty && t.fault.isSome) }

def Tally.record (t : Tally) : Exchange Call.Answer → Tally
  | ⟨.rpc (.getBlock _), .error _⟩ | ⟨.rpc (.getBlock _), .ok none⟩ => t.missed
  | ⟨.rpc (.getBlock _), .ok (some block)⟩ => t.fetched block
  | ⟨.race (.getTransactionReceipt _), some (.ok (some receipt))⟩ =>
    if receipt.fault.isSome then t.failed else t.received
  | ⟨.race (.getTransactionReceipt _), none⟩
  | ⟨.race (.getTransactionReceipt _), some (.error _)⟩
  | ⟨.race (.getTransactionReceipt _), some (.ok none)⟩ => t.failed
  | _ => t

/-- Fetching the block, or some receipt, has failed once more than it may be retried. -/
def Spent (maxRetries : Nat) (t : Tally) : Prop :=
  maxRetries < t.blockFailures ∨ maxRetries < t.mostFailures

instance (maxRetries : Nat) (t : Tally) : Decidable (Spent maxRetries t) :=
  inferInstanceAs (Decidable (_ ∨ _))

/-- The block and every receipt are fetched as often as they may be retried, and once more. -/
def WithinLimits (maxRetries : Nat) (t : Tally) : Prop :=
  t.blocks ≤ maxRetries + 1 ∧ t.mostRequests ≤ maxRetries + 1

instance (maxRetries : Nat) (t : Tally) : Decidable (WithinLimits maxRetries t) :=
  inferInstanceAs (Decidable (_ ∧ _))

/-- An error is thrown when the budget is spent. -/
def ThrownSpent (maxRetries : Nat) (t : Tally) (result : Except Thrown Block) : Prop :=
  ∀ error, result = .error error → Spent maxRetries t

instance (maxRetries : Nat) (t : Tally) :
    (result : Except Thrown Block) → Decidable (ThrownSpent maxRetries t result)
  | .ok _ => .isTrue nofun
  | .error error => decidable_of_iff (Spent maxRetries t)
      ⟨fun hspent _ _ => hspent, fun hthrown => hthrown error rfl⟩

/-- What may be answered next. A block or a receipt that is not there is one that may still be
retried; a failure that is thrown to the loop around the attempt leaves another one to it; and what
is thrown to the caller is thrown when the budget is spent. -/
def Answerable (maxRetries : Nat) (t : Tally) : Exchange Call.Answer → Prop
  | ⟨.rpc (.getBlock _), .error _⟩ => Spent maxRetries t.missed
  | ⟨.rpc (.getBlock _), .ok none⟩ => t.blocks < maxRetries
  | ⟨.rpc (.getBlock _), .ok (some block)⟩ =>
    (t.fetched block).broken = true → Spent maxRetries t
  | ⟨.race (.getTransactionReceipt _), none⟩
  | ⟨.race (.getTransactionReceipt _), some (.ok none)⟩ => t.requests < maxRetries
  | ⟨.race (.getTransactionReceipt _), some (.error _)⟩ => t.blocks ≤ maxRetries
  | ⟨.race (.getTransactionReceipt _), some (.ok (some receipt))⟩ =>
    if receipt.fault.isSome then t.blocks ≤ maxRetries
    else t.received.broken = true → Spent maxRetries t
  | _ => True

instance (maxRetries : Nat) (t : Tally) :
    (e : Exchange Call.Answer) → Decidable (Answerable maxRetries t e)
  | ⟨.rpc (.getBlock _), .error _⟩ => inferInstanceAs (Decidable (Spent _ _))
  | ⟨.rpc (.getBlock _), .ok none⟩ => inferInstanceAs (Decidable (_ < _))
  | ⟨.rpc (.getBlock _), .ok (some block)⟩ =>
    inferInstanceAs (Decidable ((t.fetched block).broken = true → Spent maxRetries t))
  | ⟨.race (.getTransactionReceipt _), none⟩
  | ⟨.race (.getTransactionReceipt _), some (.ok none)⟩ => inferInstanceAs (Decidable (_ < _))
  | ⟨.race (.getTransactionReceipt _), some (.error _)⟩ => inferInstanceAs (Decidable (_ ≤ _))
  | ⟨.race (.getTransactionReceipt _), some (.ok (some receipt))⟩ =>
    inferInstanceAs (Decidable (if receipt.fault.isSome then t.blocks ≤ maxRetries
      else t.received.broken = true → Spent maxRetries t))
  | ⟨.rpc (.getBlockReceipts _), _⟩ | ⟨.rpc (.getTransactionReceipt _), _⟩
  | ⟨.race (.getBlock _), _⟩ | ⟨.race (.getBlockReceipts _), _⟩ => .isTrue trivial

/-- The meter of the exchanges. -/
def budget (maxRetries : Nat) : Meter Call.Answer Tally (Except Thrown Block) where
  record := Tally.record
  Within := WithinLimits maxRetries
  Fits := ThrownSpent maxRetries
  Guard := Answerable maxRetries

instance (maxRetries : Nat) (t : Tally) : Decidable ((budget maxRetries).Within t) :=
  inferInstanceAs (Decidable (WithinLimits maxRetries t))

instance (maxRetries : Nat) (t : Tally) (result : Except Thrown Block) :
    Decidable ((budget maxRetries).Fits t result) :=
  inferInstanceAs (Decidable (ThrownSpent maxRetries t result))

instance (maxRetries : Nat) (t : Tally) (e : Exchange Call.Answer) :
    Decidable ((budget maxRetries).Guard t e) :=
  inferInstanceAs (Decidable (Answerable maxRetries t e))

variable {m b : Nat} {α : Type} {t : Tally}

/-! ## Where errors go -/

/-- How a program goes on with an error: block producer errors begin another block attempt if there
may be one, and others are thrown to the caller. -/
structure Handles (m b : Nat) (f : Except Thrown α → Promise Block) : Prop where
  plain : ∀ message t, (budget m).Decides (Spent m t) (f (.error (.unknown message))) t
  base : ∀ error t, WithinLimits m t → t.blocks = b →
    (budget m).Decides (b ≤ m) (f (.error (.base error))) t

/-- The receipts of these transactions are still to come, in this block attempt. -/
structure Loading (m b : Nat) (fault : Option String) (remaining : List Web3Transaction)
    (t : Tally) : Prop where
  within : WithinLimits m t
  blocks : t.blocks = b
  fault : t.fault = fault
  remaining : t.remaining = remaining

variable {fault : Option String} {transactionObject : Web3Transaction}
  {rest : List Web3Transaction}

/-- A failed request leaves the same receipts to come. -/
theorem Loading.failed (h : Loading m b fault rest t) (hrequests : t.requests ≤ m) :
    Loading m b fault rest t.failed := by
  obtain ⟨⟨hblocks, hmost⟩, hb, hf, hr⟩ := h
  refine ⟨⟨hblocks, ?_⟩, hb, hf, hr⟩
  simp only [Tally.failed]
  omega

/-- A receipt that is received is no longer to come. -/
theorem Loading.received (h : Loading m b fault (transactionObject :: rest) t)
    (hrequests : t.requests ≤ m) : Loading m b fault rest t.received := by
  obtain ⟨⟨hblocks, hmost⟩, hb, hf, hr⟩ := h
  refine ⟨⟨hblocks, ?_⟩, hb, hf, by simp [Tally.received, hr]⟩
  simp only [Tally.received]
  omega

/-- What breaks the formatting is the fault of this transaction, or that of the block after the last
one. -/
theorem Loading.broken (h : Loading m b fault (transactionObject :: rest) t) :
    t.received.broken = (transactionObject.fault.isSome || (rest.isEmpty && fault.isSome)) := by
  simp only [Tally.received, h.remaining, h.fault]

/-! ## One receipt -/

variable {f : Except Thrown TransactionReceipt → Promise Block}

/-- What a program does with the receipt of the first of these transactions. -/
def Takes (m b : Nat) (fault : Option String) (transactionObject : Web3Transaction)
    (rest : List Web3Transaction) (f : Except Thrown TransactionReceipt → Promise Block) : Prop :=
  ∀ receipt t, Loading m b fault rest t → t.requests = 0 →
    t.broken = (transactionObject.fault.isSome || (rest.isEmpty && fault.isSome)) →
    (budget m).Decides (t.broken = true → Spent m t) (f (.ok receipt)) t

/-- Every answer counts as a request. -/
theorem record_mostRequests (t : Tally) (transactionHash : String)
    (answer : (Call.race (.getTransactionReceipt transactionHash)).Answer) :
    (t.record ⟨.race (.getTransactionReceipt transactionHash), answer⟩).mostRequests =
      max t.mostRequests (t.requests + 1) := by
  cases answer with
  | none => rfl
  | some response =>
    cases response with
    | error cause => rfl
    | ok found =>
      cases found with
      | none => rfl
      | some receipt =>
        simp only [Tally.record]
        split
        · rfl
        · rfl

/-- A receipt is requested as long as it may be retried, and then once too often. -/
theorem requests_decides (name context transactionHash : String) (hf : Handles m b f)
    (htakes : Takes m b fault transactionObject rest f) (attempts : Nat) {t : Tally}
    (h : Loading m b fault (transactionObject :: rest) t) (hcount : t.requests + attempts = m + 1) :
    (budget m).Decides (t.requests ≤ m)
      (((receiptAttempt transactionHash).retrying (wrapped name context) attempts).bind f) t := by
  induction attempts generalizing t with
  | zero =>
    have hmore : ¬ t.requests ≤ m := by omega
    refine Meter.Doomed.decides (Meter.Doomed.call fun answer hwithin => ?_) hmore
    have hmost := hwithin.2
    change (t.record _).mostRequests ≤ m + 1 at hmost
    rw [record_mostRequests] at hmost
    omega
  | succ attempts ih =>
    have hrequests : t.requests ≤ m := by omega
    have hfailed := h.failed hrequests
    have hagain := ih hfailed (by simp only [Tally.failed]; omega)
    have hthrown : ∀ error, (budget m).Decides (t.blocks ≤ m) (f (.error (.base error))) t.failed :=
      fun error => h.blocks ▸ hf.base error t.failed hfailed.within hfailed.blocks
    refine Meter.Exact.decides (Meter.Exact.call fun answer => ?_) hrequests
    cases answer with
    | none => exact ⟨fun _ => hfailed.within, hagain⟩
    | some response =>
      cases response with
      | error cause => exact ⟨fun _ => hfailed.within, hthrown _⟩
      | ok found =>
        cases found with
        | none => exact ⟨fun _ => hfailed.within, hagain⟩
        | some receipt =>
          obtain ⟨_, _, receiptFault⟩ := receipt
          cases receiptFault with
          | some message => exact ⟨fun _ => hfailed.within, hthrown _⟩
          | none =>
            have hreceived := h.received hrequests
            exact ⟨fun _ => hreceived.within, htakes _ _ hreceived rfl h.broken⟩

/-! ## One block -/

/-- What a program does with the formatted transactions. -/
def Completes (m b : Nat) (fault : Option String)
    (f : Except Thrown (List Transaction) → Promise Block) : Prop :=
  ∀ transactions t, Loading m b fault [] t → t.broken = fault.isSome →
    (budget m).Decides (t.broken = true → Spent m t) (f (.ok transactions)) t

/-- The receipts are fetched one after the other. -/
theorem receipts_decide (f : Except Thrown (List Transaction) → Promise Block)
    (hf : Handles m b f) (hcompletes : Completes m b fault f)
    (transactions : List Web3Transaction) {t : Tally} (h : Loading m b fault transactions t)
    (hrequests : t.requests = 0) (hbroken : t.broken = (transactions.isEmpty && fault.isSome)) :
    (budget m).Decides (t.broken = true → Spent m t)
      ((withReceipts (getTransactionReceipt m) transactions).bind f) t := by
  induction transactions generalizing t f with
  | nil => exact hcompletes [] t h hbroken
  | cons transactionObject rest ih =>
    have hwhole : t.broken = false := by simp [hbroken]
    rw [withReceipts, Program.andThen_bind]
    refine Meter.Exact.decides ?_ fun hbroken => by simp [hwhole] at hbroken
    refine (requests_decides _ _ _ ⟨fun message t => hf.plain message t,
      fun error t => hf.base error t⟩ ?_ (m + 1) h (by omega)).1 (by omega)
    intro receipt u hloading hrequests hbroken
    obtain ⟨_, transactionFault⟩ := transactionObject
    cases transactionFault with
    | some message =>
      have hthrows : u.broken = true := hbroken
      exact (hf.plain message u).congr ⟨fun hspent _ => hspent, fun hspent => hspent hthrows⟩
    | none =>
      change (budget m).Decides _ (((withReceipts _ rest).andThen _).bind f) u
      rw [Program.andThen_bind]
      refine ih _ ?_ ?_ hloading hrequests hbroken
      · exact ⟨fun message t => hf.plain message t, fun error t => hf.base error t⟩
      · exact fun transactions t => hcompletes (_ :: transactions) t

/-- Every answer counts as a call. -/
theorem record_blocks (t : Tally) (blockNumber : Nat)
    (answer : (Call.rpc (.getBlock blockNumber)).Answer) :
    (t.record ⟨.rpc (.getBlock blockNumber), answer⟩).blocks = t.blocks + 1 := by
  cases answer with
  | error cause => rfl
  | ok found =>
    cases found with
    | none => rfl
    | some block => rfl

/-- An error that is thrown needs all retries to be spent. -/
theorem thrown_decides (error : Thrown) (t : Tally) :
    (budget m).Decides (Spent m t) (.done (.error error)) t :=
  (Meter.Decides.done _ t).congr ⟨fun hfits => hfits error rfl, fun hspent _ _ => hspent⟩

private theorem returned_decides (block : Block) (t : Tally) {c : Prop} (hc : c) :
    (budget m).Decides c (.done (.ok block)) t :=
  (Meter.Decides.done _ t).congr ⟨fun _ => hc, fun _ _ herror => by cases herror⟩

/-- The block is fetched as long as it may be retried, and then once too often. -/
theorem attempts_decide (name context : String) (n attempts : Nat) {t : Tally}
    (hwithin : WithinLimits m t) (hcount : t.blocks + attempts = m + 1) :
    (budget m).Decides (t.blocks ≤ m)
      ((blockAttempt m n).retrying (wrapped name context) attempts) t := by
  induction attempts generalizing t with
  | zero =>
    have hmore : ¬ t.blocks ≤ m := by omega
    refine Meter.Doomed.decides (Meter.Doomed.call fun answer hlimits => ?_) hmore
    have hblocks := hlimits.1
    change (t.record _).blocks ≤ m + 1 at hblocks
    rw [record_blocks] at hblocks
    omega
  | succ attempts ih =>
    have hblocks : t.blocks ≤ m := by omega
    have hmissed : WithinLimits m t.missed := ⟨Nat.succ_le_succ hblocks, hwithin.2⟩
    refine Meter.Exact.decides (Meter.Exact.call fun answer => ?_) hblocks
    cases answer with
    | error cause => exact ⟨fun _ => hmissed, thrown_decides _ _⟩
    | ok found =>
      cases found with
      | none => exact ⟨fun _ => hmissed, ih hmissed (by simp only [Tally.missed]; omega)⟩
      | some block =>
        have hfetched : Loading m (t.blocks + 1) block.fault block.transactions (t.fetched block) :=
          ⟨⟨Nat.succ_le_succ hblocks, hwithin.2⟩, rfl, rfl, rfl⟩
        refine ⟨fun _ => hfetched.within, ?_⟩
        change (budget m).Decides _ (((withReceipts _ _).andThen _).bind _) _
        rw [Program.andThen_bind]
        refine receipts_decide _ ⟨fun _ _ => thrown_decides _ _, fun error u hu hsame => ?_⟩
          (fun transactions u hloading hbroken => ?_) block.transactions hfetched rfl rfl
        · have hnext := ih hu (by omega)
          rw [hsame] at hnext
          exact hnext
        · obtain ⟨_, _, blockFault⟩ := block
          cases blockFault with
          | some message =>
            have hthrows : u.broken = true := hbroken
            exact (thrown_decides _ u).congr
              ⟨fun hspent _ => hspent, fun hspent => hspent hthrows⟩
          | none =>
            have hformats : u.broken = false := hbroken
            exact returned_decides _ u fun hthrows => by simp [hformats] at hthrows

/-- A run calls `eth.getBlock`, and requests each receipt in one block attempt, once more than the
limit of retries at most, and throws only when the block or a receipt has failed that often,
exactly if every answer leaves a retry to what has failed. -/
theorem keeps_iff_heeds {maxRetries blockNumber : Nat} {es : List (Exchange Call.Answer)}
    {result : Except Thrown Block}
    (h : Runs (getBlockWithTransactionReceipts .blockGetter maxRetries blockNumber) es result) :
    (budget maxRetries).Keeps {} es result ↔ (budget maxRetries).Heeds {} es := by
  have hdecides := attempts_decide "Block producer error on getBlockWithTransactions"
    ("Error fetching block " ++ toString blockNumber ++ " with receipts") blockNumber
    (maxRetries + 1) (t := {}) ⟨Nat.zero_le _, Nat.zero_le _⟩ (Nat.zero_add _)
  exact hdecides.1 (Nat.zero_le _) es result h

/-- The node does not know the block, which may not be fetched again. -/
def unknownBlock : List (Exchange Call.Answer) :=
  [⟨.rpc (.getBlock 5), .ok none⟩, ⟨.rpc (.getBlock 5), .ok (some ⟨"0xa5", [], none⟩)⟩]

/-- The node refuses to answer, and the block may be fetched again. -/
def refusedBlock : List (Exchange Call.Answer) := [⟨.rpc (.getBlock 5), .error "rate limit"⟩]

/-- The one failure is retried without a retry left, the other is thrown at once. -/
theorem unknownBlock_retried :
    Runs (getBlockWithTransactionReceipts .blockGetter 0 5) unknownBlock (.ok ⟨"0xa5", []⟩) ∧
    ¬ (budget 0).Keeps {} unknownBlock (.ok ⟨"0xa5", []⟩) ∧
    ∃ error, Runs (getBlockWithTransactionReceipts .blockGetter 1 5) refusedBlock
        (.error error) ∧ ¬ (budget 1).Keeps {} refusedBlock (.error error) := by
  refine ⟨.call (.call .done), by decide, _, .call .done, by decide⟩

/-- The block comes with the second call, and its receipt with the second request. -/
def fetchedLate : List (Exchange Call.Answer) :=
  [⟨.rpc (.getBlock 5), .ok none⟩,
    ⟨.rpc (.getBlock 5), .ok (some ⟨"0xa5", [⟨"0x1", none⟩], none⟩)⟩,
    ⟨.race (.getTransactionReceipt "0x1"), none⟩,
    ⟨.race (.getTransactionReceipt "0x1"), some (.ok (some ⟨"0x1", "0xa5", none⟩))⟩]

/-- The block is returned, and within its budget. -/
theorem fetchedLate_keeps :
    Runs (getBlockWithTransactionReceipts .blockGetter 1 5) fetchedLate
      (.ok ⟨"0xa5", [⟨"0x1", ⟨"0x1", "0xa5"⟩⟩]⟩) ∧
    (budget 1).Keeps {} fetchedLate (.ok ⟨"0xa5", [⟨"0x1", ⟨"0x1", "0xa5"⟩⟩]⟩) := by
  have hruns : Runs (getBlockWithTransactionReceipts .blockGetter 1 5) fetchedLate
      (.ok ⟨"0xa5", [⟨"0x1", ⟨"0x1", "0xa5"⟩⟩]⟩) := .call (.call (.call (.call .done)))
  exact ⟨hruns, (keeps_iff_heeds hruns).mpr (by decide)⟩

end ChainIndexer.Getter
