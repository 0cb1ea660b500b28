import ChainIndexer.Producer.Checkpoint
import Mathlib.Data.List.Induction

/-!
# No block is skipped

`observer.next` is not awaited, so blocks are produced concurrently, and `onError`
lets a non-fatal failure pass. A failed block is then passed over by every higher
block that was already sent or is produced before it. Where neither happens, no
higher block is recorded before the failed one has been produced, and the next
start block is not above it.
-/

namespace ChainIndexer.Producer

variable {cfg : Config} {s t : State}

/-- The failures that no production has made up for yet. -/
def outstanding (history : List Entry) : List Nat :=
  history.foldl (fun numbers entry => match entry with
    | .failed number => numbers ++ [number]
    | .produced number => numbers.filter (· ≠ number)
    | .recorded _ => numbers) []

@[simp] theorem outstanding_failed (history : List Entry) (number : Nat) :
    outstanding (history ++ [.failed number]) = outstanding history ++ [number] := by
  simp [outstanding]

@[simp] theorem outstanding_produced (history : List Entry) (number : Nat) :
    outstanding (history ++ [.produced number]) =
      (outstanding history).filter (· ≠ number) := by
  simp [outstanding]

@[simp] theorem outstanding_recorded (history : List Entry) (number : Nat) :
    outstanding (history ++ [.recorded number]) = outstanding history := by
  simp [outstanding]

/-- A failure without a later production is outstanding. -/
theorem mem_outstanding {before after : List Entry} {number : Nat}
    (h : .produced number ∉ after) :
    number ∈ outstanding (before ++ .failed number :: after) := by
  induction after using List.reverseRecOn with
  | nil => simp
  | append_singleton after entry ih =>
    rw [List.mem_append, List.mem_singleton, not_or] at h
    have hmem := ih h.1
    rw [← List.cons_append, ← List.append_assoc]
    cases entry with
    | failed other =>
      rw [outstanding_failed]
      exact List.mem_append_left _ hmem
    | recorded other =>
      rw [outstanding_recorded]
      exact hmem
    | produced other =>
      have hne : number ≠ other := by
        rintro rfl
        exact h.2 rfl
      rw [outstanding_produced]
      exact List.mem_filter.mpr ⟨hmem, by simpa using hne⟩

/-- Between a failure and the record of a higher block lies a production of the failed one. -/
def NoSkip (history : List Entry) : Prop :=
  ∀ before between after failed recorded,
    history = before ++ .failed failed :: (between ++ .recorded recorded :: after) →
    failed < recorded → .produced failed ∈ between

theorem NoSkip.nil : NoSkip [] := by
  intro before between after failed recorded h
  simp at h

/-- An entry keeps the history free of skips unless it records over an outstanding failure. -/
theorem NoSkip.snoc {history : List Entry} {entry : Entry} (h : NoSkip history)
    (hentry : ∀ number, entry = .recorded number → ∀ failed ∈ outstanding history,
      number ≤ failed) : NoSkip (history ++ [entry]) := by
  intro before between after failed recorded heq hlt
  rcases List.eq_nil_or_concat after with rfl | ⟨after, last, rfl⟩
  · have heq' : history ++ [entry] =
        (before ++ .failed failed :: between) ++ [.recorded recorded] := by simp [heq]
    obtain ⟨rfl, he⟩ := List.append_inj' heq' rfl
    by_contra hnot
    have hle := hentry recorded (List.singleton_injective he) failed (mem_outstanding hnot)
    omega
  · have heq' : history ++ [entry] =
        (before ++ .failed failed :: (between ++ .recorded recorded :: after)) ++ [last] := by
      simp [heq]
    obtain ⟨hhistory, _⟩ := List.append_inj' heq' rfl
    exact h before between after failed recorded hhistory hlt

/-- The blocks that have been sent and may still be recorded. -/
def underway (s : State) : List ProducedBlock := s.sent ++ queued s

/-- No higher block is underway when a block fails, and none is produced before it is. -/
def KeepsOrder (s : State) : Event → Prop
  | .produced i none => ∀ block ∈ s.producing[i]?, ∀ failed ∈ outstanding s.history,
      block.number ≤ failed
  | .produced i (some _) => ∀ block ∈ s.producing[i]?, ∀ other ∈ underway s,
      other.number < block.number
  | _ => True

instance (s : State) (e : Event) : Decidable (KeepsOrder s e) := by
  unfold KeepsOrder
  split <;> infer_instance

/-- What is underway lies below every outstanding failure. -/
structure InOrder (s : State) : Prop where
  history : NoSkip s.history
  underway : ∀ failed ∈ outstanding s.history, ∀ block ∈ underway s, block.number < failed

/-- What is queued after an event was underway before it. -/
theorem queued_subset_underway {e : Event} (h : step cfg s e = some t) :
    queued t ⊆ underway s := by
  intro block hb
  rcases step_queued h hb with hold | ⟨_, _, sent, _, hsent, _⟩
  · exact List.mem_append_right _ hold
  · exact List.mem_append_left _ (by simp [hsent])

/-- How the history and the blocks underway move together. -/
theorem step_progress {e : Event} (h : step cfg s e = some t) :
    t.history = s.history ∧ underway t ⊆ underway s ∨
    (∃ block ∈ underway s, t.history = s.history ++ [.recorded block.number] ∧
      underway t ⊆ underway s) ∨
    (∃ i block, e = .produced i none ∧ s.producing[i]? = some block ∧
      t.history = s.history ++ [.produced block.number] ∧ underway t ⊆ block :: underway s) ∨
    ∃ i error block, e = .produced i (some error) ∧ s.producing[i]? = some block ∧
      t.history = s.history ++ [.failed block.number] ∧ underway t ⊆ underway s := by
  have hqueued := queued_subset_underway h
  have hsub : ∀ sent, t.sent = sent → sent ⊆ s.sent → underway t ⊆ underway s := by
    intro sent heq hsent
    refine List.append_subset.mpr ⟨?_, hqueued⟩
    exact heq ▸ List.subset_append_of_subset_left _ hsent
  cases step_effect h with
  | idle _ hsame _ => exact Or.inl ⟨hsame.history, hsub _ hsame.sent (List.Subset.refl _)⟩
  | forget => exact Or.inl ⟨rfl, hsub _ rfl (List.nil_subset _)⟩
  | unheard hsent => exact Or.inl ⟨rfl, hsub _ rfl (hsent ▸ List.subset_cons_self _ _)⟩
  | @report error partition block sent hsent =>
    have hsame := emitDelivered_sameRecord cfg (acknowledge s error block sent) block partition
      s.listeners
    exact Or.inl ⟨hsame.history, hsub _ hsame.sent (hsent ▸ List.subset_cons_self _ _)⟩
  | @attempt _ insertion _ _ =>
    have hsame := retry_sameRecord s insertion
    exact Or.inl ⟨hsame.history, hsub _ hsame.sent (List.Subset.refl _)⟩
  | @delete details _ _ =>
    have hsame := runQueue_sameRecord cfg { s with
      store := s.store.deleteMany cfg.maxReOrgDepth details }
    exact Or.inl ⟨hsame.history, hsub _ hsame.sent (List.Subset.refl _)⟩
  | create hi _ =>
    have hmem := mem_queued.mpr (Or.inr ⟨_, hi, rfl⟩)
    exact Or.inr (Or.inl ⟨_, List.mem_append_right _ hmem, rfl,
      hsub _ rfl (List.Subset.refl _)⟩)
  | @send i block hblock =>
    refine Or.inr (Or.inr (Or.inl ⟨i, block, rfl, hblock, rfl, ?_⟩))
    refine List.append_subset.mpr ⟨?_, fun _ hx => List.mem_cons_of_mem _ (hqueued hx)⟩
    intro other hother
    rcases List.mem_append.mp hother with hold | hnew
    · exact List.mem_cons_of_mem _ (List.mem_append_left _ hold)
    · exact List.mem_cons.mpr (Or.inl (List.mem_singleton.mp hnew))
  | fail hblock =>
    exact Or.inr (Or.inr (Or.inr ⟨_, _, _, rfl, hblock, rfl, hsub _ rfl (List.Subset.refl _)⟩))

/-- Every event in order keeps this. -/
theorem step_inOrder {e : Event} (hs : InOrder s) (hg : KeepsOrder s e)
    (h : step cfg s e = some t) : InOrder t := by
  rcases step_progress h with ⟨heq, hsub⟩ | ⟨block, hblock, heq, hsub⟩ |
    ⟨i, block, rfl, hblock, heq, hsub⟩ | ⟨i, error, block, rfl, hblock, heq, hsub⟩
  · refine ⟨heq ▸ hs.history, ?_⟩
    rw [heq]
    exact fun failed hf other ho => hs.underway failed hf other (hsub ho)
  · refine ⟨heq ▸ hs.history.snoc ?_, ?_⟩
    · intro number hnumber failed hfailed
      cases hnumber
      exact Nat.le_of_lt (hs.underway failed hfailed block hblock)
    · rw [heq, outstanding_recorded]
      exact fun failed hf other ho => hs.underway failed hf other (hsub ho)
  · refine ⟨heq ▸ hs.history.snoc nofun, ?_⟩
    rw [heq, outstanding_produced]
    intro failed hfailed other hother
    rw [List.mem_filter, decide_eq_true_eq] at hfailed
    rcases List.mem_cons.mp (hsub hother) with rfl | hold
    · have hle := hg other hblock failed hfailed.1
      omega
    · exact hs.underway failed hfailed.1 other hold
  · refine ⟨heq ▸ hs.history.snoc nofun, ?_⟩
    rw [heq, outstanding_failed]
    intro failed hfailed other hother
    rcases List.mem_append.mp hfailed with hfailed | hfailed
    · exact hs.underway failed hfailed other (hsub hother)
    · rw [List.mem_singleton.mp hfailed]
      exact hg block hblock other (hsub hother)

/-- A block that fails lies above everything stored, and not below the start block. -/
def FailsOnTop (cfg : Config) (s : State) : Event → Prop
  | .produced i (some _) => ∀ block ∈ s.producing[i]?, cfg.startBlock ≤ block.number ∧
      ∀ other ∈ s.store.blocks, other.number < block.number
  | _ => True

instance (s : State) (e : Event) : Decidable (FailsOnTop cfg s e) := by
  unfold FailsOnTop
  split <;> infer_instance

/-- What is stored lies below every outstanding failure, which is not below the start block. -/
def StoredBelow (cfg : Config) (s : State) : Prop :=
  ∀ failed ∈ outstanding s.history, cfg.startBlock ≤ failed ∧
    ∀ block ∈ s.store.blocks, block.number < failed

/-- As long as failures come on top, nothing is stored above a failed block. -/
theorem step_storedBelow {e : Event} (hs : InOrder s) (hb : StoredBelow cfg s)
    (hg : FailsOnTop cfg s e) (h : step cfg s e = some t) : StoredBelow cfg t := by
  have hold : ∀ failed ∈ outstanding s.history, cfg.startBlock ≤ failed ∧
      ∀ block ∈ t.store.blocks, block.number < failed := by
    intro failed hf
    refine ⟨(hb failed hf).1, fun block hblock => ?_⟩
    rcases step_stored h hblock with hstored | hqueued
    · exact (hb failed hf).2 block hstored
    · exact hs.underway failed hf block (List.mem_append_right _ hqueued)
  unfold StoredBelow
  rcases step_progress h with ⟨heq, _⟩ | ⟨block, _, heq, _⟩ | ⟨i, block, rfl, _, heq, _⟩ |
    ⟨i, error, block, rfl, hblock, heq, _⟩
  · rw [heq]
    exact hold
  · rw [heq, outstanding_recorded]
    exact hold
  · rw [heq, outstanding_produced]
    exact fun failed hf => hold failed (List.mem_filter.mp hf).1
  · rw [heq, outstanding_failed]
    intro failed hf
    rcases List.mem_append.mp hf with hf | hf
    · exact hold failed hf
    · rw [List.mem_singleton.mp hf]
      have hstore : t.store = s.store := by
        obtain ⟨other, _, rfl⟩ := Option.map_eq_some_iff.mp h
        rfl
      rw [hstore]
      exact hg block hblock

theorem InOrder.init (store : Store) : InOrder (State.init store) :=
  ⟨NoSkip.nil, nofun⟩

/-- Where production keeps the order of failures, no block is recorded over a failed one; where
moreover failures are above the store, the next start block is not above any of them. -/
theorem no_block_skipped {store : Store} {es : List Event}
    (h : (machine cfg).Run KeepsOrder (State.init store) es s) :
    NoSkip s.history ∧ ((machine cfg).Run (FailsOnTop cfg) (State.init store) es s →
      ∀ failed ∈ outstanding s.history, ∀ remote start,
        cfg.getStartBlock s.store remote = some start → start ≤ failed) := by
  have hinit := InOrder.init store
  have horder : InOrder s := h.invariant (fun _ _ _ hi hg hs => step_inOrder hi hg hs) hinit
  refine ⟨horder.history, fun htop => ?_⟩
  have hboth := Machine.Run.and_iff.mpr ⟨h, htop⟩
  have hbelow : InOrder s ∧ StoredBelow cfg s := by
    refine hboth.invariant (I := fun s => InOrder s ∧ StoredBelow cfg s) ?_ ⟨hinit, nofun⟩
    intro t e u hi hg hs
    exact ⟨step_inOrder hi.1 hg.1 hs, step_storedBelow hi.1 hi.2 hg.2 hs⟩
  intro failed hf remote start hstart
  obtain ⟨hle, hstore⟩ := hbelow.2 failed hf
  exact Config.getStartBlock_le hle hstore hstart

/-- Block 10 is refused by the schema, and block 11 follows it. -/
def refusedBlock : List Event :=
  [.listen, .emit ⟨10, "0xa"⟩, .emit ⟨11, "0xb"⟩,
    .produced 0 (some (.base (CoderError.verificationFailed "number: integer expected"))),
    .produced 0 none, .deliveryReport none (some 0), .created false, .deleted false]

/-- The failure is ignored, block 11 is recorded over it, and the next start is at 12. -/
theorem refusedBlock_skipped :
    ∃ s, (machine fromTen).Run Machine.Free (State.init Store.empty) refusedBlock s ∧
      s.reactions = [.ignored] ∧ s.history = [.failed 10, .produced 11, .recorded 11] ∧
      ¬ NoSkip s.history ∧ fromTen.getStartBlock s.store (fun _ => some "0xb") = some 12 := by
  obtain ⟨s, hr, hreactions, hhistory, hstart⟩ :
      ∃ s, (machine fromTen).Run Machine.Free (State.init Store.empty) refusedBlock s ∧
        s.reactions = [.ignored] ∧ s.history = [.failed 10, .produced 11, .recorded 11] ∧
        fromTen.getStartBlock s.store (fun _ => some "0xb") = some 12 :=
    Machine.exists_run_of_exec (by decide)
  refine ⟨s, hr, hreactions, hhistory, fun hno => ?_, hstart⟩
  have hmem := hno [] [.produced 11] [] 10 11 hhistory (by decide)
  simp at hmem

/-- Block 10 is stored before block 11 fails. -/
def failureOnTop : List Event :=
  [.listen, .emit ⟨10, "0xa"⟩, .produced 0 none, .deliveryReport none (some 0), .created false,
    .deleted false, .emit ⟨11, "0xb"⟩, .produced 0 (some (.unknown "queue full"))]

/-- The producer resumes no later than at the block that failed. -/
theorem failureOnTop_no_block_skipped :
    ∃ s, (machine fromTen).Run KeepsOrder (State.init Store.empty) failureOnTop s ∧
      NoSkip s.history ∧ outstanding s.history = [11] ∧ ∀ remote start,
        fromTen.getStartBlock s.store remote = some start → start ≤ 11 := by
  obtain ⟨s, hr, hout⟩ : ∃ s, (machine fromTen).Run
      (fun s e => KeepsOrder s e ∧ FailsOnTop fromTen s e) (State.init Store.empty) failureOnTop s ∧
      outstanding s.history = [11] := Machine.exists_run_of_exec (by decide)
  have horder := hr.mono (H := KeepsOrder) fun _ _ hg => hg.1
  have htop := hr.mono (H := FailsOnTop fromTen) fun _ _ hg => hg.2
  obtain ⟨hno, hstart⟩ := no_block_skipped horder
  refine ⟨s, horder, hno, hout, ?_⟩
  exact hstart htop 11 (by rw [hout]; exact List.mem_singleton_self 11)

end ChainIndexer.Producer
