import ChainIndexer.Consumer.Concurrent
import ChainIndexer.Transfers.Collection
import ChainIndexer.Transfers.Mapper
import Mathlib.Data.List.Flatten

/-!
# From the block topic to the collection

The transformer consumes the block topic, calling `onData` for all queued blocks at once, and
produces the blocks that have transfers to the transfer topic, which another consumer saves one
after the other. Both stages may fail and start again at any time. As long as the transformer
produces in turn, what is in the collection in the end is decided by the block topic alone: the
transfers of the blocks with transfers that no later block with transfers supersedes.
-/

namespace ChainIndexer.Transfers

open Consumption (Reaches)
open Consumer (Concurrent Lives Process)

variable {δ : Type} {mapper : Transaction → Except Thrown (List δ)}

/-- A call of the transformer's `onData`: a block without data is not produced, and a call of
`produceEvent` that rejects may have produced its block. Every block that the client of the producer
accepts gets into the topic. -/
def onData (mapper : Transaction → Except Thrown (List δ)) (block : TransactionBlock)
    (topic : List (TransformedBlock δ)) (ok : Bool) (longer : List (TransformedBlock δ)) : Prop :=
  match transform mapper block with
  | .error _ => ok = false ∧ longer = topic
  | .ok transformed =>
    if 0 < transformed.data.length then
      longer = topic ++ [transformed] ∨ ok = false ∧ longer = topic
    else ok = true ∧ longer = topic

/-- The block that is produced for a block. -/
def image (mapper : Transaction → Except Thrown (List δ)) (block : TransactionBlock) :
    Option (TransformedBlock δ) :=
  match transform mapper block with
  | .error _ => none
  | .ok transformed => if 0 < transformed.data.length then some transformed else none

/-- What is produced has the height and the time of its block. -/
theorem mem_image {block : TransactionBlock} {transformed : TransformedBlock δ}
    (h : transformed ∈ image mapper block) :
    transformed.blockNumber = block.number ∧ transformed.timestamp = block.timestamp ∧
      0 < transformed.data.length := by
  unfold image at h
  split at h
  · cases h
  · rename_i ht
    split at h
    · rename_i hdata
      cases h
      exact ⟨(transform_ok ht).1, (transform_ok ht).2, hdata⟩
    · cases h

/-- The transformer relays the images of the blocks. -/
theorem onData_relays {block : TransactionBlock} {topic longer : List (TransformedBlock δ)}
    {ok : Bool} (h : onData mapper block topic ok longer) :
    relay (image mapper) block topic ok longer := by
  unfold onData at h
  unfold relay image
  split at h
  · exact Or.inr h
  · split at h
    · rename_i hdata
      rw [if_pos hdata]
      exact h
    · rename_i hdata
      rw [if_neg hdata]
      exact Or.inl (by simp [h.2])

/-- `onData` resolves for a block only if it is transformed. -/
theorem onData_true {block : TransactionBlock} {topic longer : List (TransformedBlock δ)}
    (h : onData mapper block topic true longer) :
    ∃ transformed, transform mapper block = .ok transformed := by
  unfold onData at h
  split at h
  · cases h.1
  · exact ⟨_, ‹_›⟩

/-- The transfers that a block has in the collection. -/
def transfersOf (mapper : Transaction → Except Thrown (List MaticTransferTx))
    (block : TransactionBlock) : List Transfer :=
  (image mapper block).toList.flatMap map

/-- The block is produced to the transfer topic. -/
def isProduced (mapper : Transaction → Except Thrown (List δ)) (block : TransactionBlock) : Bool :=
  (image mapper block).isSome

/-- A block that is produced has transfers. -/
theorem transfersOf_ne_nil {mapper : Transaction → Except Thrown (List MaticTransferTx)}
    {block : TransactionBlock} :
    transfersOf mapper block ≠ [] ↔ isProduced mapper block = true := by
  unfold transfersOf isProduced
  cases h : image mapper block with
  | none => simp
  | some transformed =>
    have hdata : 0 < transformed.data.length := (mem_image h).2.2
    simp [map, List.ne_nil_of_length_pos hdata]

/-- Only the blocks that are produced have transfers. -/
theorem flatMap_produced (mapper : Transaction → Except Thrown (List MaticTransferTx))
    (blocks : List TransactionBlock) :
    (blocks.filter (isProduced mapper)).flatMap (transfersOf mapper) =
      blocks.flatMap (transfersOf mapper) := by
  induction blocks with
  | nil => rfl
  | cons block rest ih =>
    rw [List.flatMap_cons, ← ih, List.filter_cons]
    split
    · rw [List.flatMap_cons]
    · rename_i hnot
      rw [not_ne_iff.mp (mt transfersOf_ne_nil.mp hnot), List.nil_append]

section Runs

variable {β γ : Type} {cfg cfg' : Consumer.Config}

/-- **Exactly once.** Whatever the consumer of a topic goes through, when it has handled the last
block the collection holds the transfers of the blocks that stand, each of them once. -/
theorem consumed_collection (hcfg : cfg.mode = .synchronous)
    {topic : List (TransformedBlock MaticTransferTx)} (htimely : Timely topic)
    {p : Process β (TransformedBlock MaticTransferTx) Collection}
    (h : Lives cfg topic handle [] p) (hend : p.place = topic.length) :
    p.store = (standing topic).flatMap map := by
  obtain ⟨begun, hreach⟩ := (Consumer.lives_lined hcfg h).2
  exact reaches_collection htimely hreach hend

/-- A transfer of an amount. -/
def paying (amount : String) : MaticTransferTx where
  transactionIndex := 0
  transactionHash := "0x1"
  transactionInitiator := "0xa"
  tokenAddress := MaticTransferMapper.maticToken
  senderAddress := "0xa"
  receiverAddress := "0xb"
  amount := amount

/-- Two blocks of one height, as after a re-org. -/
def reorged : List (TransformedBlock MaticTransferTx) :=
  [⟨5, 100, [paying "0x1"]⟩, ⟨5, 104, [paying "0x2"]⟩]

/-- The transfers of the first block are saved over what is left of any attempt. -/
theorem reorged_first {documents : Collection}
    (h : documents = [] ∨ documents = map ⟨5, 104, [paying "0x2"]⟩) :
    handle ⟨5, 100, [paying "0x1"]⟩ documents true (map ⟨5, 100, [paying "0x1"]⟩) := by
  rcases h with rfl | rfl
  · exact ⟨.ok (), .call .empty (.call .created .done), rfl⟩
  · exact ⟨.ok (), .call (.latest List.mem_cons_self (by decide))
      (.call .deleted (.call .created .done)), rfl⟩

/-- The transfer of the second block replaces that of the first one, although the first call for it
rejects after it has written, the process dies, and both blocks are delivered again. -/
theorem reorged_collection : ∃ p : Process Unit (TransformedBlock MaticTransferTx) Collection,
    p.place = 2 ∧ p.store = map ⟨5, 104, [paying "0x2"]⟩ ∧
      p.store = (standing reorged).flatMap map := by
  have hrejects : handle ⟨5, 104, [paying "0x2"]⟩ (map ⟨5, 100, [paying "0x1"]⟩) false
      (map ⟨5, 104, [paying "0x2"]⟩) :=
    ⟨.error (.unknown "no answer"), .call (.latest List.mem_cons_self (by decide))
      (.call .deleted (.call (.uncreated (Or.inr rfl)) .done)), rfl⟩
  have hsecond : handle ⟨5, 104, [paying "0x2"]⟩ (map ⟨5, 100, [paying "0x1"]⟩) true
      (map ⟨5, 104, [paying "0x2"]⟩) :=
    ⟨.ok (), .call (.latest List.mem_cons_self (by decide))
      (.call .deleted (.call .created .done)), rfl⟩
  have hreach : Reaches reorged handle [] ⟨2, 2, map ⟨5, 104, [paying "0x2"]⟩⟩ :=
    .tail (.tail (.tail (.tail (.tail .refl
      (.handled (c := ⟨0, 0, []⟩) rfl (reorged_first (Or.inl rfl))))
      (.failed (c := ⟨1, 1, _⟩) rfl hrejects))
      (.restarted (c := ⟨1, 2, _⟩) (Nat.zero_le 1)))
      (.handled (c := ⟨0, 2, _⟩) rfl (reorged_first (Or.inr rfl))))
      (.handled (c := ⟨1, 2, _⟩) rfl hsecond)
  obtain ⟨p, hlives, hplace, hstore⟩ : ∃ p : Process Unit (TransformedBlock MaticTransferTx)
      Collection, Lives Consumer.oneByOne reorged handle [] p ∧ p.place = 2 ∧
        p.store = map ⟨5, 104, [paying "0x2"]⟩ :=
    Consumer.reaches_lives rfl (by decide) (fun _ => rfl) hreach
  exact ⟨p, hplace, hstore, consumed_collection rfl (by unfold Timely; decide) hlives hplace⟩

variable {mapper : Transaction → Except Thrown (List MaticTransferTx)}
  {blocks : List TransactionBlock}

/-- Both stages together keep the transfers of the produced blocks that stand. -/
theorem pipeline_collection (hcfg : cfg.mode = .asynchronous) (hcfg' : cfg'.mode = .synchronous)
    (htimely : ∀ a ∈ blocks, ∀ b ∈ blocks, a.number < b.number → a.timestamp < b.timestamp)
    {p : Concurrent β TransactionBlock (List (TransformedBlock MaticTransferTx))}
    {q : Process γ (TransformedBlock MaticTransferTx) Collection}
    (hp : Concurrent.Lives cfg blocks (onData mapper) [] p) (hpend : p.place = blocks.length)
    (hq : Lives cfg' p.store handle [] q) (hqend : q.place = p.store.length) :
    q.store =
      (branch (·.number) (blocks.filter (isProduced mapper))).flatMap (transfersOf mapper) := by
  obtain ⟨begun, hrun⟩ := Concurrent.lives_atEnd hcfg hp hpend
  obtain ⟨begun', hrun'⟩ := (Consumer.lives_lined hcfg' hq).2
  have hrelay : Reaches blocks (relay (image mapper)) [] ⟨blocks.length, begun, p.store⟩ :=
    hrun.mono fun _ _ _ _ => onData_relays
  have himages := mem_relayed hrelay
  have htopic : Timely p.store := by
    intro a ha b hb hlt
    obtain ⟨x, hx, hxa⟩ := himages a ha
    obtain ⟨y, hy, hyb⟩ := himages b hb
    obtain ⟨hnumber, htime, -⟩ := mem_image hxa
    obtain ⟨hnumber', htime', -⟩ := mem_image hyb
    rw [htime, htime']
    exact htimely x hx y hy (by rwa [← hnumber, ← hnumber'])
  -- every block of the transfer topic has transfers
  have hall : p.store.filter hasTransfers = p.store := by
    rw [List.filter_eq_self]
    intro transformed hmem
    obtain ⟨x, -, hx⟩ := himages transformed hmem
    exact decide_eq_true (mem_image hx).2.2
  have hstanding : standing p.store =
      (branch (·.number) (blocks.filter (isProduced mapper))).flatMap
        fun block => (image mapper block).toList := by
    rw [standing, hall]
    exact branch_relayed (fun _ _ hmem => (mem_image hmem).1) hrelay rfl
  have hstore : q.store = (standing p.store).flatMap map := reaches_collection htopic hrun' hqend
  rw [hstore, hstanding, List.flatMap_assoc]
  rfl

/-- Lists of which one is a part of the other are equal if what they are expanded to is, where no
entry expands to nothing. -/
theorem eq_of_flatMap_eq {α δ : Type} {f : α → List δ} {xs ys : List α} (hsub : xs.Sublist ys)
    (hne : ∀ y ∈ ys, f y ≠ []) (h : xs.flatMap f = ys.flatMap f) : xs = ys := by
  induction hsub with
  | slnil => rfl
  | @cons xs ys y hsub ih =>
    have hlength := (hsub.flatMap f).length_le
    have hpos := List.length_pos_iff.mpr (hne y List.mem_cons_self)
    rw [h, List.flatMap_cons, List.length_append] at hlength
    omega
  | cons_cons y hsub ih =>
    rw [List.flatMap_cons, List.flatMap_cons] at h
    rw [ih (fun z hz => hne z (List.mem_cons_of_mem y hz)) (List.append_cancel_left h)]

/-- **The collection follows the chain** if and only if no block with transfers is superseded by
blocks without transfers alone: those are never produced, so its transfers would stay. -/
theorem pipeline_canonical_iff (hcfg : cfg.mode = .asynchronous)
    (hcfg' : cfg'.mode = .synchronous)
    (htimely : ∀ a ∈ blocks, ∀ b ∈ blocks, a.number < b.number → a.timestamp < b.timestamp)
    {p : Concurrent β TransactionBlock (List (TransformedBlock MaticTransferTx))}
    {q : Process γ (TransformedBlock MaticTransferTx) Collection}
    (hp : Concurrent.Lives cfg blocks (onData mapper) [] p) (hpend : p.place = blocks.length)
    (hq : Lives cfg' p.store handle [] q) (hqend : q.place = p.store.length) :
    q.store = (branch (·.number) blocks).flatMap (transfersOf mapper) ↔
      SupersededWithin (·.number) (isProduced mapper) blocks := by
  rw [pipeline_collection hcfg hcfg' htimely hp hpend hq hqend, ← branch_filter_iff]
  rw [← flatMap_produced mapper (branch (·.number) blocks)]
  constructor
  · intro h
    refine (eq_of_flatMap_eq (filter_branch_sublist _ _) (fun block hmem => ?_) h.symm).symm
    exact transfersOf_ne_nil.mpr (List.mem_filter.mp (mem_of_mem_branch hmem)).2
  · intro h
    rw [h]

/-- A block with a transaction, superseded by a block without. -/
def orphaned : List TransactionBlock := [⟨5, 100, [bare]⟩, ⟨5, 104, []⟩]

/-- A mapper that finds a transfer in every transaction. -/
def always (_ : Transaction) : Except Thrown (List MaticTransferTx) := .ok [paying "0x1"]

/-- What the transformer produces for the first one. -/
def orphanedBlock : TransformedBlock MaticTransferTx := ⟨5, 100, [paying "0x1"]⟩

/-- The transfer of the orphaned block stays in the collection. The first call of `onData` for it
rejects although it has produced the block, so the block is produced and saved twice. -/
theorem orphaned_canonical_iff :
    ∃ q : Process Unit (TransformedBlock MaticTransferTx) Collection,
      q.store = map ⟨5, 100, [paying "0x1"]⟩ ∧
        (q.store = (branch (·.number) orphaned).flatMap (transfersOf always) ↔
          SupersededWithin (·.number) (isProduced always) orphaned) := by
  have hproduced : Reaches orphaned (onData always) [] ⟨2, 2, [orphanedBlock, orphanedBlock]⟩ :=
    .tail (.tail (.tail .refl
      (.failed (c := ⟨0, 0, []⟩) (t := [orphanedBlock]) rfl (Or.inl rfl)))
      (.handled (c := ⟨0, 1, [orphanedBlock]⟩) (t := [orphanedBlock, orphanedBlock]) rfl
        (Or.inl rfl)))
      (.handled (c := ⟨1, 1, [orphanedBlock, orphanedBlock]⟩) rfl ⟨rfl, rfl⟩)
  obtain ⟨p, hp, hpend, hpstore⟩ : ∃ p : Concurrent Unit TransactionBlock
      (List (TransformedBlock MaticTransferTx)),
      Concurrent.Lives Consumer.atOnce orphaned (onData always) [] p ∧ p.place = 2 ∧
        p.store = [orphanedBlock, orphanedBlock] :=
    Concurrent.reaches_lives rfl (by decide) (fun _ => rfl) hproduced
  have hfirst : handle orphanedBlock [] true (map orphanedBlock) :=
    ⟨.ok (), .call .empty (.call .created .done), rfl⟩
  have hsecond : handle orphanedBlock (map orphanedBlock) true (map orphanedBlock) :=
    ⟨.ok (), .call (.latest List.mem_cons_self (by decide))
      (.call .deleted (.call .created .done)), rfl⟩
  have hsaved : Reaches [orphanedBlock, orphanedBlock] handle [] ⟨2, 2, map orphanedBlock⟩ :=
    .tail (.tail .refl (.handled (c := ⟨0, 0, []⟩) rfl hfirst))
      (.handled (c := ⟨1, 1, _⟩) rfl hsecond)
  obtain ⟨q, hq, hqend, hqstore⟩ : ∃ q : Process Unit (TransformedBlock MaticTransferTx)
      Collection, Lives Consumer.oneByOne [orphanedBlock, orphanedBlock] handle [] q ∧ q.place = 2 ∧
        q.store = map orphanedBlock :=
    Consumer.reaches_lives rfl (by decide) (fun _ => rfl) hsaved
  rw [← hpstore] at hq
  refine ⟨q, hqstore, pipeline_canonical_iff rfl rfl (by decide) hp hpend hq ?_⟩
  rw [hqend, hpstore]
  rfl

end Runs

end ChainIndexer.Transfers
