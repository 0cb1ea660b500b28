import ChainIndexer.Core.Attempts
import ChainIndexer.Getter.Calls

/-!
# What a getter asks for

A getter that has the receipts of a block in one answer asks for the missing ones one by one, in the
order of the transactions, and goes on until one of them fails for good. An attempt that fails is
made anew from the beginning.
-/

namespace ChainIndexer.Getter

open Program (Exchange Runs Attempted attempts)

/-- These calls ask for the receipts of these transactions in order, for each of them once or more
often, up to the limit. -/
inductive Asks (limit : Nat) : List String → List Call → Prop
  | nil : Asks limit [] []
  | cons {transactionHash hashes calls n} : 1 ≤ n → n ≤ limit → Asks limit hashes calls →
    Asks limit (transactionHash :: hashes)
      (List.replicate n (.race (.getTransactionReceipt transactionHash)) ++ calls)

/-- The receipt that is found for a transaction. -/
def foundReceipt (receipts : Option (List Receipt)) (transactionHash : String) : Option Receipt :=
  receipts.bind fun found => found.find? (·.transactionHash = transactionHash)

/-- The transactions of a block whose receipts are not found. -/
def missing (receipts : Option (List Receipt)) (objects : List Web3Transaction) : List String :=
  (objects.map Web3Transaction.hash).filter fun transactionHash =>
    (foundReceipt receipts transactionHash).isNone

/-- Each request for a receipt is for the same one, and the limit allows two after the first. -/
theorem getTransactionReceipt_calls {maxRetries : Nat} {transactionHash : String}
    {es : List (Exchange Call.Answer)} {result : Except Thrown TransactionReceipt}
    (h : Runs (getTransactionReceipt maxRetries transactionHash) es result) :
    ∃ n, 1 ≤ n ∧ n ≤ maxRetries + 2 ∧
      es.map Sigma.fst = List.replicate n (.race (.getTransactionReceipt transactionHash)) := by
  refine Runs.retrying_replicate (fun es result hattempt => ?_) h
  obtain ⟨answer, rest, rfl, hrest⟩ := hattempt.call_inv
  have hnil : rest = [] := by
    match answer with
    | none => exact hrest.done_inv.1
    | some (.error _) => exact hrest.done_inv.1
    | some (.ok none) => exact hrest.done_inv.1
    | some (.ok (some _)) => exact hrest.done_inv.1
  rw [hnil]
  rfl

/-- A receipt is asked for only if it is not found. -/
theorem findReceipt_calls {maxRetries : Nat} {receipts : Option (List Receipt)}
    {transactionHash : String} {es : List (Exchange Call.Answer)}
    {result : Except Thrown TransactionReceipt}
    (h : Runs (findReceipt maxRetries receipts transactionHash) es result) :
    if (foundReceipt receipts transactionHash).isNone then
      Asks (maxRetries + 2) [transactionHash] (es.map Sigma.fst)
    else es = [] := by
  unfold findReceipt at h
  split at h
  · rename_i receipt hfound
    rw [foundReceipt, hfound]
    exact h.done_inv.1
  · rename_i hnone
    obtain ⟨n, hpos, hle, hcalls⟩ := getTransactionReceipt_calls h
    rw [foundReceipt, hnone, hcalls]
    simpa using Asks.cons hpos hle .nil

/-- Requests for further receipts follow. -/
theorem Asks.append {limit : Nat} {hashes others : List String} {calls more : List Call}
    (h : Asks limit hashes calls) (k : Asks limit others more) :
    Asks limit (hashes ++ others) (calls ++ more) := by
  induction h with
  | nil => exact k
  | cons hpos hle _ ih =>
    rw [List.append_assoc]
    exact .cons hpos hle ih

/-- The loop over the transactions asks for the first of the missing receipts, for all of them if it
comes to its end. -/
theorem withReceipts_calls {maxRetries : Nat} {receipts : Option (List Receipt)}
    {objects : List Web3Transaction} {es : List (Exchange Call.Answer)}
    {result : Except Thrown (List Transaction)}
    (h : Runs (withReceipts (findReceipt maxRetries receipts) objects) es result) :
    ∃ hashes, hashes <+: missing receipts objects ∧
      Asks (maxRetries + 2) hashes (es.map Sigma.fst) ∧
      (∀ transactions, result = .ok transactions → hashes = missing receipts objects) := by
  induction objects generalizing es result with
  | nil =>
    obtain ⟨rfl, rfl⟩ := h.done_inv
    exact ⟨[], List.nil_prefix, .nil, fun _ _ => rfl⟩
  | cons object objects ih =>
    -- the receipt of the first transaction, and what follows it
    rw [withReceipts, Program.andThen, Runs.bind_iff] at h
    obtain ⟨first, outcome, rest, rfl, hfirst, hrest⟩ := h
    obtain ⟨own, hown, hasks⟩ : ∃ own,
        missing receipts (object :: objects) = own ++ missing receipts objects ∧
          Asks (maxRetries + 2) own (first.map Sigma.fst) := by
      have hcalls := findReceipt_calls hfirst
      unfold missing
      rw [List.map_cons, List.filter_cons]
      split at hcalls
      · rename_i hnone
        rw [if_pos hnone]
        exact ⟨[object.hash], rfl, hcalls⟩
      · rename_i hsome
        rw [if_neg hsome, hcalls]
        exact ⟨[], rfl, .nil⟩
    have hstops : rest = [] → (∀ transactions, result ≠ .ok transactions) →
        ∃ hashes, hashes <+: missing receipts (object :: objects) ∧
          Asks (maxRetries + 2) hashes ((first ++ rest).map Sigma.fst) ∧
          (∀ transactions, result = .ok transactions →
            hashes = missing receipts (object :: objects)) := by
      rintro rfl herror
      exact ⟨own, ⟨_, hown.symm⟩, by rwa [List.append_nil],
        fun transactions hok => absurd hok (herror transactions)⟩
    cases outcome with
    | error error =>
      obtain ⟨hnil, rfl⟩ := hrest.done_inv
      exact hstops hnil fun _ hok => by cases hok
    | ok receipt =>
      dsimp only at hrest
      split at hrest
      · obtain ⟨hnil, rfl⟩ := hrest.done_inv
        exact hstops hnil fun _ hok => by cases hok
      · rw [Program.andThen, Runs.bind_iff] at hrest
        obtain ⟨later, outcome, last, rfl, hlater, hlast⟩ := hrest
        obtain ⟨hashes, hbegins, hothers, hall⟩ := ih hlater
        obtain ⟨rfl, hresult⟩ : last = [] ∧ ∀ transactions, result = .ok transactions →
            ∃ others, outcome = .ok others := by
          cases outcome with
          | ok others => exact ⟨hlast.done_inv.1, fun _ _ => ⟨others, rfl⟩⟩
          | error error =>
            obtain ⟨rfl, rfl⟩ := hlast.done_inv
            exact ⟨rfl, fun _ hok => by cases hok⟩
        refine ⟨own ++ hashes, ?_, ?_, fun transactions hok => ?_⟩
        · rw [hown]
          exact (List.prefix_append_right_inj own).mpr hbegins
        · rw [List.append_nil, List.map_append]
          exact hasks.append hothers
        · obtain ⟨others, hothers⟩ := hresult transactions hok
          rw [hown, hall others hothers]

/-- The receipts that are missing are asked for in order, all of them if the block is returned. -/
theorem assemble_calls {maxRetries : Nat} {receipts : Option (List Receipt)} {block : Web3Block}
    {es : List (Exchange Call.Answer)} {result : Except Thrown Block}
    (h : Runs (assemble (findReceipt maxRetries receipts) block) es result) :
    ∃ hashes, hashes <+: missing receipts block.transactions ∧
      Asks (maxRetries + 2) hashes (es.map Sigma.fst) ∧
      (∀ value, result = .ok value → hashes = missing receipts block.transactions) := by
  rw [assemble, Program.andThen, Runs.bind_iff] at h
  obtain ⟨first, outcome, rest, rfl, hfirst, hrest⟩ := h
  obtain ⟨hashes, hbegins, hasks, hall⟩ := withReceipts_calls hfirst
  cases outcome with
  | error error =>
    obtain ⟨rfl, rfl⟩ := hrest.done_inv
    exact ⟨hashes, hbegins, by rwa [List.append_nil], fun _ hok => by cases hok⟩
  | ok transactions =>
    obtain ⟨rfl, -⟩ := hrest.done_inv
    exact ⟨hashes, hbegins, by rwa [List.append_nil], fun _ _ => hall transactions rfl⟩

/-! ## The Erigon getter -/

end ChainIndexer.Getter
