import ChainIndexer.Producer.Pipeline

/-!
# What a step of the producer can do

A block moves from the sent ones to the insert queue by a report that reaches the
delivered listener, from the queue to the store by an insertion, and nowhere else.
The history grows when `produceEvent` settles and when a block is created.
-/

namespace ChainIndexer.Producer

variable {cfg : Config} {s t : State}

/-- The blocks on their way to the store. -/
def queued (s : State) : List ProducedBlock :=
  s.mongoInsertQueue ++ s.inserting.toList.map (·.details)

/-- A queued block waits or is being inserted. -/
theorem mem_queued {s : State} {block : ProducedBlock} : block ∈ queued s ↔
    block ∈ s.mongoInsertQueue ∨ ∃ insertion, s.inserting = some insertion ∧
      insertion.details = block := by
  simp [queued]

/-- Beginning the next insertion queues no block. -/
theorem runQueue_queued {block : ProducedBlock} (h : block ∈ queued (runQueue cfg s)) :
    block ∈ s.mongoInsertQueue := by
  obtain ⟨_, hr⟩ | ⟨skipped, details, rest, hq, hr⟩ := runQueue_cases cfg s
  · rw [hr, mem_queued] at h
    simpa using h
  · rw [hr, mem_queued] at h
    rw [hq]
    rcases h with hrest | ⟨insertion, hi, rfl⟩
    · simp [hrest]
    · obtain rfl := Option.some.inj hi
      simp

/-- A failed attempt queues no block. -/
theorem retry_queued {insertion : Insertion} (hi : s.inserting = some insertion)
    {block : ProducedBlock} (h : block ∈ queued (retry s insertion)) : block ∈ queued s := by
  rw [mem_queued] at h ⊢
  unfold retry at h
  split at h
  · rcases h with hq | ⟨other, ho, rfl⟩
    · exact Or.inl hq
    · obtain rfl := Option.some.inj ho
      exact Or.inr ⟨insertion, hi, rfl⟩
  · rcases h with hq | ⟨other, ho, _⟩
    · exact Or.inl hq
    · cases ho

/-- The listener queues the reported block at most, and none without a partition. -/
theorem onDelivered_queued {block other : ProducedBlock} {partition : Int}
    (h : other ∈ queued (onDelivered cfg s block partition)) :
    other ∈ queued s ∨ other = block ∧ partition ≠ -1 := by
  unfold onDelivered at h
  split at h
  · exact Or.inl h
  · rename_i hpartition
    have hqueue : other ∈ s.mongoInsertQueue ++ [block] →
        other ∈ queued s ∨ other = block ∧ partition ≠ -1 := by
      intro hother
      rcases List.mem_append.mp hother with hq | hb
      · exact Or.inl (mem_queued.mpr (Or.inl hq))
      · exact Or.inr ⟨List.mem_singleton.mp hb, hpartition⟩
    dsimp only at h
    split at h
    · rcases mem_queued.mp h with hq | hi
      · exact hqueue hq
      · exact Or.inl (mem_queued.mpr (Or.inr hi))
    · exact hqueue (runQueue_queued h)

/-- All the listeners together queue the reported block at most. -/
theorem emitDelivered_queued {block other : ProducedBlock} {partition : Int} {listeners : Nat}
    (h : other ∈ queued (emitDelivered cfg s block partition listeners)) :
    other ∈ queued s ∨ other = block ∧ partition ≠ -1 ∧ listeners ≠ 0 := by
  induction listeners with
  | zero => exact Or.inl h
  | succ listeners ih =>
    rcases onDelivered_queued h with hprev | ⟨rfl, hpartition⟩
    · rcases ih hprev with hs | ⟨rfl, hpartition, _⟩
      · exact Or.inl hs
      · exact Or.inr ⟨rfl, hpartition, Nat.succ_ne_zero _⟩
    · exact Or.inr ⟨rfl, hpartition, Nat.succ_ne_zero _⟩

/-- The fields an insertion and the listeners leave alone. -/
structure SameRecord (s t : State) : Prop where
  sent : t.sent = s.sent
  store : t.store = s.store
  acknowledged : t.acknowledged = s.acknowledged
  history : t.history = s.history

theorem SameRecord.trans {u : State} (h : SameRecord s t) (k : SameRecord t u) :
    SameRecord s u :=
  ⟨k.sent.trans h.sent, k.store.trans h.store, k.acknowledged.trans h.acknowledged,
    k.history.trans h.history⟩

/-- The head of the loop records nothing. -/
theorem runQueue_sameRecord (cfg : Config) (s : State) : SameRecord s (runQueue cfg s) := by
  obtain ⟨_, hr⟩ | ⟨skipped, details, rest, _, hr⟩ := runQueue_cases cfg s <;> rw [hr] <;>
    exact ⟨rfl, rfl, rfl, rfl⟩

/-- Nor does a retry. -/
theorem retry_sameRecord (s : State) (insertion : Insertion) :
    SameRecord s (retry s insertion) := by
  unfold retry
  split <;> exact ⟨rfl, rfl, rfl, rfl⟩

private theorem onDelivered_sameRecord (cfg : Config) (s : State) (block : ProducedBlock)
    (partition : Int) : SameRecord s (onDelivered cfg s block partition) := by
  unfold onDelivered
  split
  · exact ⟨rfl, rfl, rfl, rfl⟩
  · dsimp only
    split
    · exact ⟨rfl, rfl, rfl, rfl⟩
    · have hrun := runQueue_sameRecord cfg { s with
        mongoInsertQueue := s.mongoInsertQueue ++ [block]
        delivered := s.delivered ++ [block]
        mongoInsertInProcess := true }
      exact ⟨hrun.sent, hrun.store, hrun.acknowledged, hrun.history⟩

/-- Nor does an emitted delivery. -/
theorem emitDelivered_sameRecord (cfg : Config) (s : State) (block : ProducedBlock)
    (partition : Int) (listeners : Nat) :
    SameRecord s (emitDelivered cfg s block partition listeners) := by
  induction listeners with
  | zero => exact ⟨rfl, rfl, rfl, rfl⟩
  | succ listeners ih => exact ih.trans (onDelivered_sameRecord cfg _ block partition)

/-- The state in which the listeners are called for the oldest sent block. -/
def acknowledge (s : State) (error : Option LibrdKafkaError) (block : ProducedBlock)
    (sent : List ProducedBlock) : State :=
  { s with
    sent := sent
    acknowledged := if error.isNone then s.acknowledged ++ [block] else s.acknowledged }

/-- The client reports a delivery. -/
def Event.Reports : Event → Prop
  | .deliveryReport .. => True
  | _ => False

/-- All that an event can do to the blocks. -/
inductive Effect (cfg : Config) (s : State) : Event → State → Prop
  | idle {e t} : ¬ e.Reports → SameRecord s t → queued t = queued s → Effect cfg s e t
  | forget : Effect cfg s .disconnect { s with sent := [] }
  | send {i block} : s.producing[i]? = some block →
      Effect cfg s (.produced i none) { s with
        producing := s.producing.eraseIdx i
        sent := s.sent ++ [block]
        history := s.history ++ [.produced block.number] }
  | fail {i block error} : s.producing[i]? = some block →
      Effect cfg s (.produced i (some error)) { s with
        producing := s.producing.eraseIdx i
        reactions := s.reactions ++ [onError (KafkaError.createUnknown error true)]
        history := s.history ++ [.failed block.number] }
  | unheard {error report block sent} : s.sent = block :: sent →
      Effect cfg s (.deliveryReport error report) (acknowledge s error block sent)
  | report {error partition block sent} : s.sent = block :: sent →
      Effect cfg s (.deliveryReport error (some partition))
        (emitDelivered cfg (acknowledge s error block sent) block partition s.listeners)
  | attempt {e insertion} : ¬ e.Reports → s.inserting = some insertion →
      Effect cfg s e (retry s insertion)
  | create {details retryCount store} : s.inserting = some ⟨details, retryCount, .create⟩ →
      s.store.create details = some store →
      Effect cfg s (.created false) { s with
        store := store
        inserting := some ⟨details, retryCount, .deleteMany⟩
        history := s.history ++ [.recorded details.number] }
  | delete {details retryCount} : s.inserting = some ⟨details, retryCount, .deleteMany⟩ →
      Effect cfg s (.deleted false)
        (runQueue cfg { s with store := s.store.deleteMany cfg.maxReOrgDepth details })

/-- Every step has one of the effects. -/
theorem step_effect {e : Event} (h : step cfg s e = some t) : Effect cfg s e t := by
  cases e with
  | listen | unlisten | emit b =>
    cases h
    exact .idle id ⟨rfl, rfl, rfl, rfl⟩ rfl
  | disconnect =>
    cases h
    exact .forget
  | produced i failure =>
    obtain ⟨block, hblock, rfl⟩ := Option.map_eq_some_iff.mp h
    cases failure with
    | none => exact .send hblock
    | some error => exact .fail hblock
  | deliveryReport error report =>
    simp only [step, deliveryReport] at h
    split at h
    · cases h
    · rename_i block sent hsent
      obtain rfl := Option.some.inj h
      split
      · cases report with
        | none => exact .unheard hsent
        | some partition => exact .report hsent
      · exact .unheard hsent
  | created fails =>
    simp only [step, created] at h
    split at h
    · rename_i details retryCount hi
      obtain rfl := Option.some.inj h
      split
      · exact .attempt id hi
      · rename_i store hstore
        cases fails
        · exact .create hi hstore
        · cases hstore
    · cases h
  | deleted fails =>
    simp only [step, deleted] at h
    split at h
    · rename_i details retryCount hi
      obtain rfl := Option.some.inj h
      cases fails
      · exact .delete hi
      · exact .attempt id hi
    · cases h

/-- The event in which the block joins the queued ones. -/
def Joins (s : State) (e : Event) (block : ProducedBlock) : Prop :=
  ∃ error partition sent, e = .deliveryReport error (some partition) ∧ s.sent = block :: sent ∧
    partition ≠ -1 ∧ s.listeners ≠ 0

/-- A block is queued only because it was queued before or because it joins now. -/
theorem step_queued {e : Event} (h : step cfg s e = some t) {block : ProducedBlock}
    (hb : block ∈ queued t) : block ∈ queued s ∨ Joins s e block := by
  cases step_effect h with
  | idle _ _ hq => exact Or.inl (hq ▸ hb)
  | forget | fail _ | send _ | unheard _ => exact Or.inl hb
  | @report error partition _ sent hsent =>
    rcases emitDelivered_queued hb with hs | ⟨rfl, hpartition, hlisteners⟩
    · exact Or.inl hs
    · exact Or.inr ⟨error, partition, sent, rfl, hsent, hpartition, hlisteners⟩
  | attempt _ hi => exact Or.inl (retry_queued hi hb)
  | create hi _ =>
    left
    rw [mem_queued] at hb ⊢
    rcases hb with hq | ⟨insertion, hother, rfl⟩
    · exact Or.inl hq
    · obtain rfl := Option.some.inj hother
      exact Or.inr ⟨_, hi, rfl⟩
  | delete _ =>
    have hq := runQueue_queued hb
    exact Or.inl (mem_queued.mpr (Or.inl hq))

/-- A block is stored only because it was stored before or is being inserted. -/
theorem step_stored {e : Event} (h : step cfg s e = some t) {block : ProducedBlock}
    (hb : block ∈ t.store.blocks) : block ∈ s.store.blocks ∨ block ∈ queued s := by
  cases step_effect h with
  | idle _ hsame _ => exact Or.inl (hsame.store ▸ hb)
  | forget | fail _ | send _ | unheard _ => exact Or.inl hb
  | report _ =>
    rw [(emitDelivered_sameRecord cfg _ _ _ _).store] at hb
    exact Or.inl hb
  | attempt _ _ =>
    rw [(retry_sameRecord s _).store] at hb
    exact Or.inl hb
  | create hi hstore =>
    rcases (Store.mem_create hstore).mp hb with hold | rfl
    · exact Or.inl hold
    · exact Or.inr (mem_queued.mpr (Or.inr ⟨_, hi, rfl⟩))
  | delete _ =>
    rw [(runQueue_sameRecord cfg _).store] at hb
    exact Or.inl (Store.mem_deleteMany.mp hb).1

end ChainIndexer.Producer
