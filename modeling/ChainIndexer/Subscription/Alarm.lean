import ChainIndexer.Subscription.Line

/-!
# Re-orgs that are reported without one

A report is justified when the block emitted last, by either loop, is below the
reported one and is not its parent. `backFillBlocks` leaves `lastEmittedBlock` as
it is, so a report can compare with a block that is not the last one any more.
Every report is justified as long as the check compares only after an emission of
`processQueue`. On a chain that never re-orgs there is then no report at all,
provided the line of `processQueue` has no gap.
-/

namespace ChainIndexer.Subscription

variable {cfg : Config} {s t : State}

/-- The block emitted last is below this one and not its parent. -/
def Contradicts (calls : List Call) (block : Block) : Prop :=
  ∃ last ∈ lastEmission calls,
    last.2.number < block.number ∧ last.2.hash ≠ block.parentHash

instance (calls : List Call) (block : Block) : Decidable (Contradicts calls block) :=
  inferInstanceAs (Decidable (∃ last ∈ _, _))

/-- A call that reports a re-org is justified. -/
def Justified (calls : List Call) (call : Call) : Prop :=
  ∀ block, call = .reorg block → Contradicts calls block

/-- The last emission came from `processQueue`. -/
def Processed (s : State) : Prop := ∃ last ∈ lastEmission s.calls, last.1 = .processQueue

instance (s : State) : Decidable (Processed s) := inferInstanceAs (Decidable (∃ last ∈ _, _))

/-- The check compares only when the last emission came from `processQueue`. -/
def ComparesLast (s : State) (e : Event) : Prop :=
  ∀ block ∈ e.block, ∀ last ∈ s.lastEmittedBlock, last.number < block.number → Processed s

instance (s : State) (e : Event) : Decidable (ComparesLast s e) :=
  inferInstanceAs (Decidable (∀ block ∈ _, _))

/-- The check finds a re-org only below a greater height and a different parent. -/
theorem isReOrgedMissed_eq_true {block : Block} :
    isReOrgedMissed s block = true ↔
      ∃ last ∈ s.lastEmittedBlock, last.number < block.number ∧ last.hash ≠ block.parentHash := by
  unfold isReOrgedMissed
  cases s.lastEmittedBlock with
  | none => simp
  | some last => simp

/-- After an emission of `processQueue` the check compares with that emission. -/
theorem contradicts_of_processed {block : Block} (hs : Recorded s) (hlast : Processed s)
    (hre : isReOrgedMissed s block = true) : Contradicts s.calls block := by
  obtain ⟨⟨source, last⟩, hlast, rfl⟩ := hlast
  obtain ⟨recorded, hrecorded, hlt, hne⟩ := isReOrgedMissed_eq_true.mp hre
  obtain rfl := Option.some.inj ((hs last hlast).symm.trans hrecorded)
  exact ⟨_, hlast, hlt, hne⟩

/-- The call for an answer is justified exactly when what the check finds is. -/
theorem justified_callFor {block : Block} :
    Justified s.calls (callFor s block) ↔
      (isReOrgedMissed s block = true → Contradicts s.calls block) := by
  unfold Justified callFor
  cases isReOrgedMissed s block <;> simp

/-- A check that compares with the block emitted last reports nothing unjustified. -/
theorem justified_of_comparesLast {e : Event} (hs : Consistent s) (hg : ComparesLast s e) :
    ∀ block ∈ e.block, Justified s.calls (callFor s block) := by
  intro block hblock
  rw [justified_callFor]
  intro hre
  obtain ⟨last, hlast, hlt, _⟩ := isReOrgedMissed_eq_true.mp hre
  exact contradicts_of_processed hs.recorded (hg block hblock last hlast hlt) hre

/-- A chain that never re-orgs. -/
structure StableChain where
  block : Nat → Block
  number : ∀ height, (block height).number = height
  linked : ∀ height, (block height).hash = (block (height + 1)).parentHash

/-- The workers answer with blocks of the chain. -/
def AnswersFrom (chain : StableChain) (e : Event) : Prop :=
  ∀ block ∈ e.block, block = chain.block block.number

instance (chain : StableChain) (e : Event) : Decidable (AnswersFrom chain e) :=
  inferInstanceAs (Decidable (∀ block ∈ _, _))

/-- The chain does not re-org, nothing breaks the line, and the check compares with the block
emitted last. -/
def Calm (chain : StableChain) (s : State) (e : Event) : Prop :=
  AnswersFrom chain e ∧ InLine s e ∧ ComparesLast s e

instance (chain : StableChain) (s : State) (e : Event) : Decidable (Calm chain s e) :=
  inferInstanceAs (Decidable (_ ∧ _))

/-- The invariant of the runs on a chain that never re-orgs. -/
structure Unalarmed (chain : StableChain) (s : State) : Prop where
  consistent : Consistent s
  climbing : ∃ bound, Climbing s bound
  canonical : ∀ block, lastEmission s.calls = some (.processQueue, block) →
    block = chain.block block.number
  silent : ∀ block, Call.reorg block ∉ s.calls

/-- On such a chain the check finds nothing. -/
theorem Unalarmed.check {chain : StableChain} {e : Event} {job : Job} {block : Block}
    (hs : Unalarmed chain s) (hg : Calm chain s e) (hp : s.processing = some job)
    (he : e.block = some block) : isReOrgedMissed s block = false := by
  obtain ⟨hanswer, ⟨_, _, _, hheight⟩, hcompares⟩ := hg
  by_contra hre
  rw [Bool.not_eq_false, isReOrgedMissed_eq_true] at hre
  obtain ⟨recorded, hrecorded, hlt, hne⟩ := hre
  obtain ⟨⟨source, last⟩, hlast, rfl⟩ := hcompares block he recorded hrecorded hlt
  obtain rfl := Option.some.inj ((hs.consistent.recorded last hlast).symm.trans hrecorded)
  obtain ⟨bound, hclimbing⟩ := hs.climbing
  have hbound := hclimbing.last last hlast
  have hawaited := hclimbing.awaited job hp
  have hn := Job.level_eq (hheight block he job hp)
  have hnext : block.number = last.number + 1 := by
    change last.number < block.number at hlt
    omega
  apply hne
  calc last.hash
    _ = (chain.block last.number).hash := congrArg Block.hash (hs.canonical last hlast)
    _ = (chain.block block.number).parentHash := by rw [hnext, chain.linked]
    _ = block.parentHash := (congrArg Block.parentHash (hanswer block he)).symm

/-- Every calm event keeps this. -/
theorem step_unalarmed {chain : StableChain} {e : Event} (hs : Unalarmed chain s)
    (hg : Calm chain s e) (h : step cfg s e = some t) : Unalarmed chain t := by
  suffices hcalls : (∀ block, lastEmission t.calls = some (.processQueue, block) →
      block = chain.block block.number) ∧ ∀ block, Call.reorg block ∉ t.calls from
    ⟨step_consistent hs.consistent h, step_climbing hs.consistent hs.climbing hg.2.1 h,
      hcalls.1, hcalls.2⟩
  rcases (step_effect hs.consistent.marked h).calls with
    ⟨job, block, hp, he, _, hcalls⟩ | ⟨_, _, more, hcalls, hmore, _⟩
  · have hcall : callFor s block = .next .processQueue block := by
      rw [callFor, hs.check hg hp he]
      rfl
    rw [hcalls, hcall, lastEmission_next]
    refine ⟨fun other hother => ?_, fun other hmem => ?_⟩
    · cases hother
      exact hg.1 block he
    · rcases List.mem_append.mp hmem with hold | hnew
      · exact hs.silent other hold
      · cases List.mem_singleton.mp hnew
  · rw [hcalls]
    refine ⟨fun other hother => ?_, fun other hmem => ?_⟩
    · exact hs.canonical other (lastEmission_append_of_answer hmore hother)
    · rcases List.mem_append.mp hmem with hold | hnew
      · exact hs.silent other hold
      · cases hmore _ hnew

/-- As long as the check compares only after an emission of `processQueue`, every report is
justified, and a run on a chain that never re-orgs, in which nothing breaks the line, has none. -/
theorem reports_justified {es : List Event}
    (h : (machine cfg).Run ComparesLast State.init es s) :
    Each Justified s.calls ∧
      ∀ chain : StableChain, (machine cfg).Run (Calm chain) State.init es s →
        ∀ block, Call.reorg block ∉ s.calls := by
  constructor
  · refine each_of_guarded (fun calls call hanswer => ?_)
      (fun _ _ ht hg => justified_of_comparesLast ht hg) h
    rintro block rfl
    cases hanswer
  · intro chain hcalm
    have hinit : Unalarmed chain State.init :=
      ⟨Consistent.init, ⟨1, Climbing.init⟩, nofun, nofun⟩
    exact (hcalm.invariant (fun _ _ _ hs hg ht => step_unalarmed hs hg ht) hinit).silent

/-- Block 5 is emitted live, block 6 by `backFillBlocks`, and then block 7 comes live. -/
def liveAfterBackFill : List Event :=
  [.subscribe 5, .finalized 0 (.ok 6), .latest 0 0 (.ok 6), .data 0 ⟨some "0xa5", some 5⟩,
    .answer 0, .processed (.ok ⟨5, "0xa5", "0xa4"⟩), .unsubscribe, .unsubscribed 0 (.ok ()),
    .subscribe 6, .finalized 0 (.ok 27), .latest 0 100 (.ok 30), .answer 1, .assigned 0,
    .backFilled 0 (.ok ⟨6, "0xa6", "0xa5"⟩), .unsubscribe, .unsubscribed 1 (.ok ()),
    .subscribe 7, .finalized 1 (.ok 27), .latest 1 200 (.ok 30), .data 1 ⟨some "0xa7", some 7⟩,
    .answer 3, .processed (.ok ⟨7, "0xa7", "0xa6"⟩)]

/-- Block 7 is the child of block 6 and is reported as a re-org. -/
theorem liveAfterBackFill_reported :
    ∃ s, (machine ⟨1, 0⟩).Run Machine.Free State.init liveAfterBackFill s ∧
      s.calls = [.next .processQueue ⟨5, "0xa5", "0xa4"⟩,
        .next .backFillBlocks ⟨6, "0xa6", "0xa5"⟩, .reorg ⟨7, "0xa7", "0xa6"⟩] ∧
      ¬ Each Justified s.calls := by
  obtain ⟨s, hr, hcalls⟩ :
      ∃ s, (machine ⟨1, 0⟩).Run Machine.Free State.init liveAfterBackFill s ∧
        s.calls = [.next .processQueue ⟨5, "0xa5", "0xa4"⟩,
          .next .backFillBlocks ⟨6, "0xa6", "0xa5"⟩, .reorg ⟨7, "0xa7", "0xa6"⟩] :=
    Machine.exists_run_of_exec (by decide)
  refine ⟨s, hr, hcalls, fun hjustified => ?_⟩
  have hcontradicts := hjustified [_, _] _ [] hcalls ⟨7, "0xa7", "0xa6"⟩ rfl
  revert hcontradicts
  decide

/-- A chain whose hashes grow with the height. -/
def growingChain : StableChain where
  block height := ⟨height, .ofList (.replicate (height + 1) 'f'), .ofList (.replicate height 'f')⟩
  number _ := rfl
  linked _ := rfl

/-- A live session of which a worker is late, and a second one that starts where it stopped. -/
def calmRestart : List Event :=
  [.subscribe 1, .finalized 0 (.ok 1), .latest 0 0 (.ok 1), .data 0 ⟨some "fff", some 2⟩,
    .answer 0, .processed (.ok (growingChain.block 1)), .unsubscribe, .unsubscribed 0 (.ok ()),
    .subscribe 2, .finalized 0 (.ok 1), .latest 0 0 (.ok 2), .answer 1,
    .processed (.ok (growingChain.block 2)), .data 1 ⟨some "ffff", some 3⟩, .answer 2, .answer 3,
    .processed (.ok (growingChain.block 2)), .processed (.ok (growingChain.block 3))]

/-- The second session repeats block 2, and no re-org is reported. -/
theorem calmRestart_silent :
    ∃ s, (machine ⟨1, 0⟩).Run (Calm growingChain) State.init calmRestart s ∧
      (emissions s.calls).map (fun emission => emission.2.number) = [1, 2, 2, 3] ∧
      Each Justified s.calls ∧ ∀ block, Call.reorg block ∉ s.calls := by
  obtain ⟨s, hcalm, hemissions⟩ :
      ∃ s, (machine ⟨1, 0⟩).Run (Calm growingChain) State.init calmRestart s ∧
        (emissions s.calls).map (fun emission => emission.2.number) = [1, 2, 2, 3] :=
    Machine.exists_run_of_exec (by decide)
  obtain ⟨hjustified, hsilent⟩ := reports_justified (hcalm.mono fun _ _ hg => hg.2.2)
  exact ⟨s, hcalm, hemissions, hjustified, hsilent growingChain hcalm⟩

end ChainIndexer.Subscription
