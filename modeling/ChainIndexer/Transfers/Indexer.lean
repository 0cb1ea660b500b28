import ChainIndexer.Topic.BlockPoller
import ChainIndexer.Transfers.Pipeline

/-!
# From the chain to the collection

A block poller producer writes the block topic, the transformer makes the transfer topic of it, and
the consumer saves the transfers. Each of the three may die and start again at any time. As long as
the transformer produces in turn, every height from the start block on is in the collection once:
with the transfers of the block that the topic had for it last.
-/

namespace ChainIndexer.Transfers

open Consumer (Concurrent Lives Process)
open Consumption (Reaches)
open Producer (ProducedBlock)

variable {β γ : Type} {cfg cfg' : Consumer.Config} {producer : Producer.Config}
  {mapper : Transaction → Except Thrown (List MaticTransferTx)}
  {content : ProducedBlock → TransactionBlock}

/-- The blocks of a topic without gaps, with what they contain. -/
theorem map_branch_content {s : Topic.State} (h : Topic.Unbroken producer s)
    (hnumber : ∀ block ∈ s.topic, (content block).number = block.number) :
    (branch (·.number) (s.topic.map content)).map (·.number) =
      List.range' producer.startBlock (branch (·.number) (s.topic.map content)).length := by
  have hgapless := h.gapless s.topic (List.prefix_refl _)
  rw [branch_map hnumber, List.map_map, List.length_map, ← hgapless]
  exact List.map_congr_left fun block hblock => hnumber block (mem_of_mem_branch hblock)

/-- **The whole indexer.** Whatever the three stages go through, when the consumers have come to the
end of their topics the collection has the transfers of one block for each height from the start
block on, as long as no block with transfers is superseded by blocks without transfers alone. -/
theorem indexed_collection {es : List BlockPollerProducer.Event} {s : BlockPollerProducer.State}
    (hs : (BlockPollerProducer.machine producer).Run BlockPollerProducer.Orderly .init es s)
    (hnumber : ∀ block ∈ s.topic.topic, (content block).number = block.number)
    (htimely : ∀ a ∈ s.topic.topic, ∀ b ∈ s.topic.topic, a.number < b.number →
      (content a).timestamp < (content b).timestamp)
    (hsuperseded : SupersededWithin (·.number) (isProduced mapper) (s.topic.topic.map content))
    (hcfg : cfg.mode = .asynchronous) (hcfg' : cfg'.mode = .synchronous)
    {p : Concurrent β TransactionBlock (List (TransformedBlock MaticTransferTx))}
    {q : Process γ (TransformedBlock MaticTransferTx) Collection}
    (hp : Concurrent.Lives cfg (s.topic.topic.map content) (onData mapper) [] p)
    (hpend : p.place = s.topic.topic.length)
    (hq : Lives cfg' p.store handle [] q) (hqend : q.place = p.store.length) :
    ∃ chain : List TransactionBlock, chain.Sublist (s.topic.topic.map content) ∧
      chain.getLast? = s.topic.topic.getLast?.map content ∧
      chain.map (·.number) = List.range' producer.startBlock chain.length ∧
      q.store = chain.flatMap (transfersOf mapper) := by
  have htimely' : ∀ a ∈ s.topic.topic.map content, ∀ b ∈ s.topic.topic.map content,
      a.number < b.number → a.timestamp < b.timestamp := by
    intro a ha b hb hlt
    obtain ⟨x, hx, rfl⟩ := List.mem_map.mp ha
    obtain ⟨y, hy, rfl⟩ := List.mem_map.mp hb
    rw [hnumber x hx, hnumber y hy] at hlt
    exact htimely x hx y hy hlt
  rw [← List.length_map content] at hpend
  have hstore := pipeline_collection hcfg hcfg' htimely' hp hpend hq hqend
  refine ⟨branch (·.number) (s.topic.topic.map content), branch_sublist _ _, ?_,
    map_branch_content (BlockPollerProducer.unbroken_of_run hs) hnumber, ?_⟩
  · rw [getLast?_branch, List.getLast?_map]
  · rw [hstore, (branch_filter_iff _ _).mpr hsuperseded, flatMap_produced]

/-- Only the first version of block 11 is without a transaction. -/
def contentOf (block : ProducedBlock) : TransactionBlock :=
  ⟨block.number, block.number, if block.hash = "0xb" then [] else [bare]⟩

/-- The transformed block of this height. -/
def transferAt (number : Nat) : TransformedBlock MaticTransferTx := ⟨number, number, [paying "0x1"]⟩

/-- The transfer of block 10 and that of the last version of block 11 are saved, although a call of
`onData` rejects and both consumers are given messages again. -/
theorem restarted_collection : ∃ (s : BlockPollerProducer.State)
    (q : Process Unit (TransformedBlock MaticTransferTx) Collection),
    s.topic.topic.map contentOf = [⟨10, 10, [bare]⟩, ⟨11, 11, []⟩, ⟨11, 11, [bare]⟩] ∧
      q.store.map (·.blockNumber) = [10, 11] ∧
      ∃ chain : List TransactionBlock, chain.Sublist (s.topic.topic.map contentOf) ∧
        chain.getLast? = s.topic.topic.getLast?.map contentOf ∧
        chain.map (·.number) = List.range' 10 chain.length ∧
        q.store = chain.flatMap (transfersOf always) := by
  obtain ⟨s, hs, htopic⟩ : ∃ s, (BlockPollerProducer.machine Producer.fromTen).Run
      BlockPollerProducer.Orderly .init BlockPollerProducer.restarted s ∧
      s.topic.topic = [⟨10, "0xa"⟩, ⟨11, "0xb"⟩, ⟨11, "0xb1"⟩] :=
    Machine.exists_run_of_exec (by decide)
  have hcontent : s.topic.topic.map contentOf =
      [⟨10, 10, [bare]⟩, ⟨11, 11, []⟩, ⟨11, 11, [bare]⟩] := by
    rw [htopic]
    rfl
  -- the first block is produced twice, and the consumer begins anew after its first transfer
  have hproduced : Reaches [⟨10, 10, [bare]⟩, ⟨11, 11, []⟩, ⟨11, 11, [bare]⟩] (onData always) []
      ⟨3, 3, [transferAt 10, transferAt 10, transferAt 11]⟩ :=
    .tail (.tail (.tail (.tail .refl
      (.failed (c := ⟨0, 0, []⟩) (t := [transferAt 10]) rfl (Or.inl rfl)))
      (.handled (c := ⟨0, 1, _⟩) (t := [transferAt 10, transferAt 10]) rfl (Or.inl rfl)))
      (.handled (c := ⟨1, 1, _⟩) (t := [transferAt 10, transferAt 10]) rfl ⟨rfl, rfl⟩))
      (.handled (c := ⟨2, 2, _⟩) (t := [transferAt 10, transferAt 10, transferAt 11]) rfl
        (Or.inl rfl))
  obtain ⟨p, hp, hpend, hpstore⟩ : ∃ p : Concurrent Unit TransactionBlock
      (List (TransformedBlock MaticTransferTx)),
      Concurrent.Lives Consumer.atOnce (s.topic.topic.map contentOf) (onData always) [] p ∧
        p.place = 3 ∧ p.store = [transferAt 10, transferAt 10, transferAt 11] := by
    rw [hcontent]
    exact Concurrent.reaches_lives rfl (by decide) (fun _ => rfl) hproduced
  have hfirst : handle (transferAt 10) [] true (map (transferAt 10)) :=
    ⟨.ok (), .call .empty (.call .created .done), rfl⟩
  have hagain : handle (transferAt 10) (map (transferAt 10)) true (map (transferAt 10)) :=
    ⟨.ok (), .call (.latest List.mem_cons_self (by decide))
      (.call .deleted (.call .created .done)), rfl⟩
  have hlast : handle (transferAt 11) (map (transferAt 10)) true
      (map (transferAt 10) ++ map (transferAt 11)) :=
    ⟨.ok (), .call (.latest List.mem_cons_self (by decide)) (.call .created .done), rfl⟩
  have hsaved : Reaches [transferAt 10, transferAt 10, transferAt 11] handle []
      ⟨3, 3, map (transferAt 10) ++ map (transferAt 11)⟩ :=
    .tail (.tail (.tail (.tail (.tail .refl
      (.handled (c := ⟨0, 0, []⟩) rfl hfirst))
      (.restarted (c := ⟨1, 1, _⟩) (Nat.zero_le 1)))
      (.handled (c := ⟨0, 1, _⟩) rfl hagain))
      (.handled (c := ⟨1, 1, _⟩) rfl hagain))
      (.handled (c := ⟨2, 2, _⟩) rfl hlast)
  obtain ⟨q, hq, hqend, hqstore⟩ : ∃ q : Process Unit (TransformedBlock MaticTransferTx) Collection,
      Lives Consumer.oneByOne [transferAt 10, transferAt 10, transferAt 11] handle [] q ∧
        q.place = 3 ∧ q.store = map (transferAt 10) ++ map (transferAt 11) :=
    Consumer.reaches_lives rfl (by decide) (fun _ => rfl) hsaved
  rw [← hpstore] at hq
  refine ⟨s, q, hcontent, by rw [hqstore]; rfl, ?_⟩
  refine indexed_collection hs (fun block _ => rfl) (fun a _ b _ hlt => hlt) ?_ rfl rfl hp ?_ hq ?_
  · rw [hcontent, ← branch_filter_iff]
    rfl
  · rw [hpend, htopic]
    rfl
  · rw [hqend, hpstore]
    rfl

end ChainIndexer.Transfers
