import ChainIndexer.Producer.Effect

/-!
# The checkpoint and the topic

The blocks on the insert queue, the one being inserted and the stored ones are
taken to be in the topic. A block joins them only when the report of its delivery
reaches the delivered listener, whether or not that report came with an error.
Where no failed delivery reaches the listener with a usable report, every one of
these blocks has been acknowledged.
-/

namespace ChainIndexer.Producer

variable {cfg : Config} {s t : State}

/-- The blocks the producer takes to be in the topic. -/
def held (s : State) : List ProducedBlock := queued s ++ s.store.blocks

/-- A block is held only because it was held before or because it joins now. -/
theorem step_held {e : Event} (h : step cfg s e = some t) {block : ProducedBlock}
    (hb : block ∈ held t) : block ∈ held s ∨ Joins s e block := by
  rcases List.mem_append.mp hb with hq | hs
  · exact (step_queued h hq).imp_left (List.mem_append_left _)
  · exact Or.inl (List.mem_append.mpr (step_stored h hs).symm)

/-- The block an event acknowledges. -/
def acknowledges (s : State) : Event → List ProducedBlock
  | .deliveryReport none _ => s.sent.take 1
  | _ => []

/-- Only reports acknowledge anything. -/
theorem acknowledges_eq_nil {e : Event} (h : ¬ e.Reports) : acknowledges s e = [] := by
  cases e with
  | deliveryReport error report => exact absurd trivial h
  | listen | unlisten | disconnect | emit | produced | created | deleted => rfl

/-- Exactly the reports without an error acknowledge blocks. -/
theorem step_acknowledged {e : Event} (h : step cfg s e = some t) :
    t.acknowledged = s.acknowledged ++ acknowledges s e := by
  have hack : ∀ {error report b sent}, s.sent = b :: sent →
      (acknowledge s error b sent).acknowledged =
        s.acknowledged ++ acknowledges s (.deliveryReport error report) := by
    intro error report b sent hsent
    cases error <;> simp [acknowledge, acknowledges, hsent]
  cases step_effect h with
  | idle he hsame _ => rw [hsame.acknowledged, acknowledges_eq_nil he, List.append_nil]
  | forget | fail _ | send _ | create _ _ => simp [acknowledges]
  | unheard hsent => exact hack hsent
  | report hsent =>
    exact (emitDelivered_sameRecord cfg _ _ _ _).acknowledged.trans (hack hsent)
  | attempt he _ =>
    rw [(retry_sameRecord s _).acknowledged, acknowledges_eq_nil he, List.append_nil]
  | delete _ => rw [(runQueue_sameRecord cfg _).acknowledged]; simp [acknowledges]

/-- Every held block has been acknowledged. -/
def Checkpointed (s : State) : Prop := ∀ block ∈ held s, block ∈ s.acknowledged

/-- A failed delivery has no report, or one without a partition, or meets no listener. -/
def ReportsFaithfully (s : State) : Event → Prop
  | .deliveryReport (some _) (some partition) => partition = -1 ∨ s.listeners = 0
  | _ => True

instance (s : State) (e : Event) : Decidable (ReportsFaithfully s e) := by
  unfold ReportsFaithfully
  split <;> infer_instance

/-- A faithful report keeps every stored block acknowledged. -/
theorem step_checkpointed {e : Event} (hs : Checkpointed s) (hg : ReportsFaithfully s e)
    (h : step cfg s e = some t) : Checkpointed t := by
  intro block hb
  rw [step_acknowledged h]
  rcases step_held h hb with hold | ⟨error, partition, sent, rfl, hsent, hpartition, hlisteners⟩
  · exact List.mem_append_left _ (hs block hold)
  · cases error with
    | some error => exact (hg.elim hpartition hlisteners).elim
    | none => exact List.mem_append_right _ (by simp [acknowledges, hsent])

/-- Where deliveries are reported faithfully, every block on the insert queue, in an insertion
or in the store has been acknowledged by Kafka. -/
theorem checkpoint_acknowledged {store : Store} {es : List Event}
    (h : (machine cfg).Run ReportsFaithfully (State.init store) es s) : Checkpointed s := by
  refine h.invariant (fun _ _ _ hi hg hs => step_checkpointed hi hg hs) ?_
  intro block hb
  simpa [held, queued, State.init] using hb

/-- A producer from block 10 on, for re-orgs of depth 2. -/
def fromTen : Config where
  startBlock := 10
  maxReOrgDepth := 2

/-- The error the Kafka client reports for a message that could not be delivered. -/
def messageTimedOut : LibrdKafkaError := ⟨"Local: Message timed out", -192, false, "kafka"⟩

/-- The only block fails to be delivered. -/
def failedDelivery : List Event :=
  [.listen, .emit ⟨10, "0xa"⟩, .produced 0 none, .deliveryReport (some messageTimedOut) (some 0),
    .created false, .deleted false]

/-- A block that never reached the topic is stored, and the producer would resume behind it. -/
theorem failedDelivery_stored :
    ∃ s, (machine fromTen).Run Machine.Free (State.init Store.empty) failedDelivery s ∧
      s.store.blocks = [⟨10, "0xa"⟩] ∧ s.acknowledged = [] ∧
      fromTen.getStartBlock s.store (fun _ => some "0xa") = some 11 :=
  Machine.exists_run_of_exec (by decide)

/-- The delivery fails without a report, and a second block is delivered. -/
def faithfulDelivery : List Event :=
  [.listen, .emit ⟨10, "0xa"⟩, .produced 0 none, .deliveryReport (some messageTimedOut) none,
    .emit ⟨10, "0xa"⟩, .produced 0 none, .deliveryReport none (some 0), .created false,
    .deleted false]

/-- A block is stored once it is acknowledged. -/
theorem faithfulDelivery_checkpointed :
    ∃ s, (machine fromTen).Run ReportsFaithfully (State.init Store.empty) faithfulDelivery s ∧
      s.store.blocks = [⟨10, "0xa"⟩] ∧ Checkpointed s := by
  obtain ⟨s, hr, hs⟩ : ∃ s, (machine fromTen).Run ReportsFaithfully (State.init Store.empty)
      faithfulDelivery s ∧ s.store.blocks = [⟨10, "0xa"⟩] := Machine.exists_run_of_exec (by decide)
  exact ⟨s, hr, hs, checkpoint_acknowledged hr⟩

end ChainIndexer.Producer
