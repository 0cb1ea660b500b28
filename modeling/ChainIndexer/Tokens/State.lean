import ChainIndexer.Native.Blocks
import ChainIndexer.Transfers.State

/-!
# Saving the owners of tokens

The consumer of the token topic keeps one document for each token. `updateTokens` updates the
documents one by one, inserting those that are missing; it does not look at the height of a block.
-/

namespace ChainIndexer.Tokens

open Transfers (TransformedBlock)

/-- A transfer event as the transformer produces it. -/
structure NFTTransferTx where
  transactionIndex : Nat
  transactionHash : String
  transactionInitiator : String
  tokenAddress : String
  senderAddress : String
  receiverAddress : String
  tokenId : Nat
  deriving DecidableEq, Repr

/-- A document of the token collection. -/
structure Token where
  tokenId : Nat
  owner : String
  deriving DecidableEq, Repr

/-- `TransferTokenMapper.map`. -/
def map (block : TransformedBlock NFTTransferTx) : List Token :=
  block.data.map fun transfer => ⟨transfer.tokenId, toLowerCase transfer.receiverAddress⟩

/-! ## The collection -/

/-- The documents, in the order they were inserted. -/
abbrev Collection := List Token

/-- `updateOne({ tokenId }, { owner }, { upsert: true })`: the first document of the token is
updated, or one is inserted. -/
def upsert (token : Token) : Collection → Collection
  | [] => [token]
  | document :: documents =>
    if document.tokenId = token.tokenId then token :: documents
    else document :: upsert token documents

/-- The call of the model's statics. -/
inductive Call where
  | updateOne (token : Token)

/-- What a call resolves with or rejects with. -/
def Answer : Call → Type
  | .updateOne _ => Except Thrown Unit

/-- How the database answers. A call that fails may have written all the same. -/
inductive Serves : Service Call Answer Collection
  | updated {documents token} :
    Serves documents (.updateOne token) (.ok ()) (upsert token documents)
  | failed {documents rest : Collection} {token error} :
    rest = documents ∨ rest = upsert token documents →
    Serves documents (.updateOne token) (.error error) rest

/-! ## The consumer -/

/-- `updateTokens`. -/
def updateTokens : List Token → Program Call Answer (Except Thrown Unit)
  | [] => .done (.ok ())
  | transfer :: data => .call (.updateOne transfer) fun answer : Except Thrown Unit =>
    match answer with
    | .ok _ => updateTokens data
    | .error error => .throw error

/-- `TransferTokenService.save`. -/
def save (data : List Token) : Program Call Answer (Except Thrown Bool) :=
  if 0 < data.length then (updateTokens data).andThen fun _ => .done (.ok true)
  else .done (.ok true)

/-- The `next` callback of the consumer. -/
def next (block : TransformedBlock NFTTransferTx) : Program Call Answer (Except Thrown Unit) :=
  if 0 < block.data.length then (save (map block)).andThen fun _ => .done (.ok ())
  else .done (.ok ())

/-- A call of `next` resolves or rejects, and leaves the collection like this. -/
def handle (block : TransformedBlock NFTTransferTx) (documents : Collection) (ok : Bool)
    (rest : Collection) : Prop :=
  ∃ result, Service.Executes Serves (next block) documents result rest ∧ ok = result.isOk

end ChainIndexer.Tokens
