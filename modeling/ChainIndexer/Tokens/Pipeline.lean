import ChainIndexer.Tokens.Owners
import ChainIndexer.Transfers.Pipeline

/-!
# From the block topic to the owners

The transformer is the one of the other example with another mapper, and both stages may fail and
start again at any time, as long as the transformer produces in turn. The owner of a token is the
receiver of its last transfer in the block topic. That is its owner on the chain unless the block of
this transfer has been superseded: the consumer has nothing to go back to.
-/

namespace ChainIndexer.Tokens

open Consumption (Reaches Completes)
open Consumer (Concurrent Lives Process)
open Transfers (Transaction TransactionBlock TransformedBlock image onData onData_relays)

variable {α β γ : Type} {cfg cfg' : Consumer.Config} {items : α → List Token}
  {mapper : Transaction → Except Thrown (List NFTTransferTx)} {blocks : List TransactionBlock}

/-- A mapper that finds a transfer of one token, the first one to another receiver. -/
def passing (transaction : Transaction) : Except Thrown (List NFTTransferTx) :=
  .ok [handing 7 (if transaction.hash = "0x1" then "0xa" else "0xb")]

end ChainIndexer.Tokens
