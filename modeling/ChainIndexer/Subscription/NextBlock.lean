import ChainIndexer.Core.Observe
import ChainIndexer.Subscription.Calls

/-!
# The next block and the last emission

A subscription starts again from `nextBlock`. The loop of `backFillBlocks` counts it up once the
observer has the block. `processQueue` sets it as soon as it has the answer, before it looks
for a re-org, so a block that is rejected counts as emitted.
-/

namespace ChainIndexer.Subscription

variable {cfg : Config} {s t : State}

/-- Where a session begins. -/
structure Origin where
  /-- The start block that `subscribe` is called with. -/
  startBlock : Nat := 0
  /-- How often the observer has been called before. -/
  calls : Nat := 0

/-- The start block of the session that an event begins. -/
def Event.begins (s : State) : Event → Option Nat
  | .finalized i (.ok _) => match s.tasks[i]? with
    | some (.finalized _ startBlock) => some startBlock
    | _ => none
  | .finalized _ (.error _) | .subscribe _ | .unsubscribe | .latest .. | .woken _
  | .unsubscribed .. | .timeout _ | .data .. | .failed .. | .answer _ | .processed _
  | .backFilled .. | .assigned _ => none

/-- The block that the loop of `backFillBlocks` passes on when an event happens. -/
def Event.filled (s : State) : Event → Option Block
  | .backFilled i (.ok block) => match s.tasks[i]? with
    | some (.backFill backFillingId _) =>
      if s.activeBackFillingId ≠ some backFillingId ∨ s.fatalError then none else some block
    | _ => none
  | .backFilled _ (.error _) | .subscribe _ | .unsubscribe | .finalized .. | .latest ..
  | .woken _ | .unsubscribed .. | .timeout _ | .data .. | .failed .. | .answer _ | .processed _
  | .assigned _ => none

def Origin.record (s : State) (e : Event) (_ : State) (o : Origin) : Origin :=
  match e.begins s with
  | some startBlock => ⟨startBlock, s.calls.length⟩
  | none => o

/-- A block subscription with the beginning of its session. -/
def resuming (cfg : Config) : Machine (State × Origin) Event := (machine cfg).observe Origin.record

/-- The start block, or the block after the last one passed on in the session. -/
def Origin.next (o : Origin) (calls : List Call) : Nat :=
  match lastEmission (calls.drop o.calls) with
  | none => o.startBlock
  | some (_, block) => block.number + 1

/-- The session goes on where the observer is. -/
def OnTime (p : State × Origin) : Prop := p.1.nextBlock = p.2.next p.1.calls

instance (p : State × Origin) : Decidable (OnTime p) := inferInstanceAs (Decidable (_ = _))

/-- `processQueue` rejects a block only if it comes right before the next one, and
`backFillBlocks` passes on only the next one. -/
def InTurn (p : State × Origin) (e : Event) : Prop :=
  (∀ block ∈ e.block, isReOrgedMissed p.1 block = true → block.number + 1 = p.1.nextBlock) ∧
    ∀ block ∈ e.filled p.1, block.number = p.1.nextBlock

instance (p : State × Origin) (e : Event) : Decidable (InTurn p e) :=
  inferInstanceAs (Decidable (_ ∧ _))

/-! ## What a step does to the next block -/

/-- How an event moves the next block and calls the observer. -/
inductive Advance (s : State) : Event → State → Prop
  | still {e t} (more : List Call) : e.begins s = none → e.block = none → e.filled s = none →
    t.nextBlock = s.nextBlock → t.calls = s.calls ++ more → emissions more = [] → Advance s e t
  /-- `subscribe` resets the object. -/
  | begins {e t} (startBlock : Nat) : e.begins s = some startBlock → e.block = none →
    e.filled s = none → t.nextBlock = startBlock → t.calls = s.calls → Advance s e t
  /-- `processQueue` passes a block on, or rejects it. -/
  | processed {e t} (block : Block) : e.begins s = none → e.block = some block →
    e.filled s = none → t.nextBlock = block.number + 1 → t.calls = s.calls ++ [callFor s block] →
    Advance s e t
  /-- `backFillBlocks` passes a block on. -/
  | filled {e t} (block : Block) : e.begins s = none → e.block = none →
    e.filled s = some block → t.nextBlock = s.nextBlock + 1 →
    t.calls = s.calls ++ [.next .backFillBlocks block] → Advance s e t

/-- The head of `backFillBlocks` moves nothing. -/
theorem runBackFill_nextBlock (s : State) (backFillingId : Nat) :
    (runBackFill s backFillingId).nextBlock = s.nextBlock := by
  unfold runBackFill
  split
  · split
    · rfl
    · rfl
  · rfl

theorem thrown_nextBlock (s : State) (caller : Caller) (error : BaseError) :
    (thrown s caller error).nextBlock = s.nextBlock := by
  cases caller with
  | client => rfl
  | backFillBlocks => rfl
  | checkIfLive => rfl

theorem closed_nextBlock (s : State) (subscription : Option Nat) :
    (closed s subscription).nextBlock = s.nextBlock := by
  unfold closed
  split
  · rfl
  · rfl

private theorem latest_nextBlock {i now : Nat} {result : Except Thrown Nat}
    (h : latest cfg s i now result = some t) : t.nextBlock = s.nextBlock := by
  unfold latest at h
  split at h
  · obtain rfl := Option.some.inj h
    cases result with
    | error error => exact thrown_nextBlock _ _ _
    | ok latestBlockNumber =>
      dsimp only
      split
      · rfl
      · split
        · obtain ⟨assignments, heq⟩ := assignments_eq now (List.range cfg.workers)
            { finish s i with activeBackFillingId := some now }
          rw [backFillBlocks, heq]
          exact runBackFill_nextBlock _ _
        · rfl
  · cases h

private theorem unsubscribed_nextBlock {i : Nat} {result : Except Thrown Unit}
    (h : unsubscribed s i result = some t) : t.nextBlock = s.nextBlock := by
  unfold unsubscribed at h
  split at h
  · obtain rfl := Option.some.inj h
    exact closed_nextBlock _ _
  · obtain rfl := Option.some.inj h
    rfl
  · obtain rfl := Option.some.inj h
    exact closed_nextBlock _ _
  · obtain rfl := Option.some.inj h
    exact thrown_nextBlock _ _ _
  · cases h

private theorem woken_nextBlock {i : Nat} (h : woken s i = some t) : t.nextBlock = s.nextBlock := by
  unfold woken at h
  split at h
  · obtain rfl := Option.some.inj h
    rfl
  · cases h

private theorem timeout_nextBlock {i : Nat} (h : timeout s i = some t) :
    t.nextBlock = s.nextBlock := by
  unfold timeout at h
  split at h
  · obtain rfl := Option.some.inj h
    dsimp only
    split
    · rfl
    · rfl
  · cases h

private theorem assigned_nextBlock {i : Nat} (h : assigned s i = some t) :
    t.nextBlock = s.nextBlock := by
  unfold assigned at h
  split at h
  · obtain rfl := Option.some.inj h
    split
    · rfl
    · rfl
  · obtain ⟨_, ht⟩ := Option.ite_none_right_eq_some.mp h
    obtain rfl := Option.some.inj ht
    dsimp only
    split
    · rfl
    · rfl
  · cases h

private theorem data_nextBlock {subscription : Nat} {log : Log} (hm : Marked s)
    (h : data s subscription log = some t) : t.nextBlock = s.nextBlock := by
  obtain ⟨_, ⟨rfl, _⟩ | ⟨_, _, _, _, _, hr⟩⟩ := data_cases hm h
  · rfl
  · rw [hr.frame]

variable {e : Event}

private theorem filled_eq_none (h : e.backFills = false) : e.filled s = none := by
  cases e with
  | backFilled i result => cases h
  | subscribe | unsubscribe | finalized | latest | woken | unsubscribed | timeout | data | failed
  | answer | processed | assigned => rfl

/-- A step in which no loop goes on. -/
theorem Advance.of_nextBlock (hm : Marked s) (h : step cfg s e = some t)
    (hbegins : e.begins s = none) (hblock : e.block = none) (hback : e.backFills = false)
    (hnext : t.nextBlock = s.nextBlock) : Advance s e t := by
  rcases (step_effect hm h).calls with ⟨_, _, _, he, _⟩ | ⟨_, _, more, hcalls, _, hmore⟩
  · cases hblock.symm.trans he
  · exact .still more hbegins hblock (filled_eq_none hback) hnext hcalls (hmore hback)

private theorem finalized_advance {i : Nat} {result : Except Thrown Nat} (hm : Marked s)
    (h : step cfg s (.finalized i result) = some t) : Advance s (.finalized i result) t := by
  have hs : finalized cfg s i result = some t := h
  unfold finalized at hs
  split at hs
  · rename_i caller startBlock hi
    obtain rfl := Option.some.inj hs
    cases result with
    | error error => exact .of_nextBlock hm h rfl rfl rfl (thrown_nextBlock _ _ _)
    | ok number => exact .begins startBlock (by simp only [Event.begins, hi]) rfl rfl rfl rfl
  · cases hs

private theorem processed_advance {result : Except Thrown Block} (hm : Marked s)
    (h : step cfg s (.processed result) = some t) : Advance s (.processed result) t := by
  obtain ⟨_, _, ⟨error, rfl, rfl⟩ | ⟨block, rfl, ⟨hre, rfl⟩ | ⟨hre, _, hr⟩⟩⟩ :=
    processed_cases hm h
  · exact .of_nextBlock hm h rfl rfl rfl rfl
  · apply Advance.processed block rfl rfl rfl rfl
    rw [callFor, hre]
    rfl
  · apply Advance.processed block rfl rfl rfl
    · rw [hr.frame]
    · rw [callFor, hre, hr.frame]
      rfl

private theorem backFilled_advance {i : Nat} {result : Except Thrown Block}
    (h : backFilled s i result = some t) : Advance s (.backFilled i result) t := by
  unfold backFilled at h
  split at h
  · rename_i backFillingId job hi
    obtain ⟨_, ht⟩ := Option.ite_none_right_eq_some.mp h
    obtain rfl := Option.some.inj ht
    cases result with
    | error error => exact .still [.error _] rfl rfl rfl rfl rfl (emissions_error _)
    | ok block =>
      by_cases hleft : s.activeBackFillingId ≠ some backFillingId ∨ s.fatalError = true
      · have hfilled : (Event.backFilled i (.ok block)).filled s = none := by
          simp only [Event.filled, hi, if_pos hleft]
        dsimp only
        rw [if_pos hleft]
        exact .still [] rfl rfl hfilled rfl (List.append_nil _).symm rfl
      · have hfilled : (Event.backFilled i (.ok block)).filled s = some block := by
          simp only [Event.filled, hi, if_neg hleft]
        dsimp only
        rw [if_neg hleft]
        exact .filled block rfl rfl hfilled (runBackFill_nextBlock _ _) (runBackFill_calls _ _)
  · cases h

/-- Every event advances the next block in one of these ways. -/
theorem step_advance (hm : Marked s) (h : step cfg s e = some t) : Advance s e t := by
  cases e with
  | subscribe startBlock =>
    obtain rfl := Option.some.inj h
    exact .of_nextBlock hm h rfl rfl rfl rfl
  | unsubscribe =>
    obtain rfl := Option.some.inj h
    exact .of_nextBlock hm h rfl rfl rfl rfl
  | finalized i result => exact finalized_advance hm h
  | latest i now result => exact .of_nextBlock hm h rfl rfl rfl (latest_nextBlock h)
  | woken i => exact .of_nextBlock hm h rfl rfl rfl (woken_nextBlock h)
  | unsubscribed i result => exact .of_nextBlock hm h rfl rfl rfl (unsubscribed_nextBlock h)
  | timeout i => exact .of_nextBlock hm h rfl rfl rfl (timeout_nextBlock h)
  | data subscription log => exact .of_nextBlock hm h rfl rfl rfl (data_nextBlock hm h)
  | failed subscription error =>
    obtain ⟨_, ht⟩ := Option.ite_none_right_eq_some.mp h
    obtain rfl := Option.some.inj ht
    exact .of_nextBlock hm h rfl rfl rfl rfl
  | answer job =>
    obtain ⟨_, ht⟩ := Option.ite_none_right_eq_some.mp h
    obtain rfl := Option.some.inj ht
    exact .of_nextBlock hm h rfl rfl rfl rfl
  | processed result => exact processed_advance hm h
  | backFilled i result => exact backFilled_advance h
  | assigned i => exact .of_nextBlock hm h rfl rfl rfl (assigned_nextBlock h)

/-! ## The session -/

variable {o : Origin} {calls more : List Call}

/-- Calls that emit nothing leave the next block. -/
theorem Origin.next_append_of_nil (hle : o.calls ≤ calls.length) (h : emissions more = []) :
    o.next (calls ++ more) = o.next calls := by
  rw [next, List.drop_append_of_le_length hle, lastEmission_append_of_nil h, next]

/-- An emission makes the block after it the next one. -/
theorem Origin.next_emitted (hle : o.calls ≤ calls.length) (source : Source) (block : Block) :
    o.next (calls ++ [.next source block]) = block.number + 1 := by
  rw [next, List.drop_append_of_le_length hle, lastEmission_next]

/-- A session that has just begun waits for its start block. -/
theorem Origin.next_begun (startBlock : Nat) (calls : List Call) :
    Origin.next ⟨startBlock, calls.length⟩ calls = startBlock := by
  rw [next, List.drop_length]
  rfl

/-- An event that begins no session keeps the origin. -/
theorem Origin.record_of_none (h : e.begins s = none) : o.record s e t = o := by
  rw [record, h]

/-- What a history keeps whose steps take the blocks in turn. -/
structure Resumable (p : State × Origin) : Prop where
  marked : Marked p.1
  calls : p.2.calls ≤ p.1.calls.length
  onTime : OnTime p

theorem Resumable.init : Resumable (State.init, {}) := ⟨rfl, Nat.le_refl _, rfl⟩

/-- The session begins before the calls made so far. -/
theorem Resumable.calls_le (h : Resumable (s, o)) (hs : Advance s e t) :
    (o.record s e t).calls ≤ t.calls.length := by
  have hold : ∀ more : List Call, e.begins s = none → t.calls = s.calls ++ more →
      (o.record s e t).calls ≤ t.calls.length := by
    intro more hbegins hcalls
    rw [o.record_of_none hbegins, hcalls, List.length_append]
    exact Nat.le_add_right_of_le h.calls
  cases hs with
  | still more hbegins _ _ _ hcalls _ => exact hold more hbegins hcalls
  | begins startBlock hbegins _ _ _ hcalls =>
    have hnow : (o.record s e t).calls = s.calls.length := by simp only [Origin.record, hbegins]
    exact Nat.le_of_eq (hnow.trans (congrArg List.length hcalls).symm)
  | processed block hbegins _ _ _ hcalls => exact hold _ hbegins hcalls
  | filled block hbegins _ _ _ hcalls => exact hold _ hbegins hcalls

/-- A step ends on time exactly when it takes its block in turn. -/
theorem Resumable.onTime_iff (h : Resumable (s, o)) (hs : Advance s e t) :
    OnTime (t, o.record s e t) ↔ InTurn (s, o) e := by
  have hbefore : s.nextBlock = o.next s.calls := h.onTime
  cases hs with
  | still more hbegins hblock hfilled hnext hcalls hmore =>
    have hturn : InTurn (s, o) e := ⟨by simp [hblock], by simp [hfilled]⟩
    refine iff_of_true ?_ hturn
    simp only [OnTime, o.record_of_none hbegins, hnext, hcalls]
    rw [Origin.next_append_of_nil h.calls hmore, hbefore]
  | begins startBlock hbegins hblock hfilled hnext hcalls =>
    have hturn : InTurn (s, o) e := ⟨by simp [hblock], by simp [hfilled]⟩
    refine iff_of_true ?_ hturn
    simp only [OnTime, Origin.record, hbegins, hnext, hcalls]
    rw [Origin.next_begun]
  | processed block hbegins hblock hfilled hnext hcalls =>
    have hturn : InTurn (s, o) e ↔
        (isReOrgedMissed s block = true → block.number + 1 = s.nextBlock) := by
      simp [InTurn, hblock, hfilled]
    rw [hturn]
    simp only [OnTime, o.record_of_none hbegins, hnext, hcalls, callFor]
    by_cases hre : isReOrgedMissed s block = true
    · -- a rejected block moves the next block all the same
      rw [if_pos hre, Origin.next_append_of_nil h.calls (emissions_reorg block), hbefore]
      exact ⟨fun hnext _ => hnext, fun hturn => hturn hre⟩
    · rw [if_neg hre, Origin.next_emitted h.calls]
      exact iff_of_true rfl fun hrejected => absurd hrejected hre
  | filled block hbegins hblock hfilled hnext hcalls =>
    have hturn : InTurn (s, o) e ↔ block.number = s.nextBlock := by
      simp [InTurn, hblock, hfilled]
    rw [hturn]
    simp only [OnTime, o.record_of_none hbegins, hnext, hcalls]
    rw [Origin.next_emitted h.calls, Nat.add_right_cancel_iff]
    exact eq_comm

/-- The session stays on time exactly if the event takes its block in turn. -/
theorem Resumable.step (h : Resumable (s, o)) (hs : step cfg s e = some t) :
    (OnTime (t, o.record s e t) ↔ InTurn (s, o) e) ∧
      (InTurn (s, o) e → Resumable (t, o.record s e t)) := by
  have hm : Marked t := (step_effect h.marked hs).marked h.marked
  have hadvance := step_advance h.marked hs
  have hiff := h.onTime_iff hadvance
  exact ⟨hiff, fun hturn => ⟨hm, h.calls_le hadvance, hiff.mpr hturn⟩⟩

variable {p : State × Origin} {es : List Event}

/-- In a history the next block is always the one after the last emission of the session, or the
start block, exactly when the loops take the blocks in turn. -/
theorem onTime_iff_inTurn (h : (resuming cfg).Run Machine.Free (State.init, {}) es p) :
    (∀ fs q, fs <+: es → (resuming cfg).Run Machine.Free (State.init, {}) fs q → OnTime q) ↔
      (resuming cfg).Run InTurn (State.init, {}) es p := by
  have hstep : ∀ q e r, Resumable q → (resuming cfg).step q e = some r →
      (OnTime r ↔ InTurn q e) ∧ (InTurn q e → Resumable r) := by
    rintro ⟨s, o⟩ e ⟨t, o'⟩ hq hs
    obtain ⟨hstep, rfl⟩ := Machine.observe_step.mp hs
    exact hq.step hstep
  exact h.always_iff_guarded (fun _ hq => hq.onTime) hstep Resumable.init

/-- A block with another parent comes after the first one, and no log event after it. -/
def rejectedSix : List Event :=
  [.subscribe 5, .finalized 0 (.ok 6), .latest 0 0 (.ok 6), .data 0 ⟨some "0xa5", some 5⟩,
    .answer 0, .processed (.ok ⟨5, "0xa5", "0xa4"⟩), .data 0 ⟨some "0xb6", some 6⟩, .answer 1,
    .processed (.ok ⟨6, "0xb6", "0xb5"⟩), .timeout 0, .timeout 0, .unsubscribed 0 (.ok ())]

/-- The block is skipped by the restart. -/
theorem rejectedSix_skipped :
    ∃ p, (resuming ⟨1, 0⟩).Run Machine.Free (State.init, {}) rejectedSix p ∧
      p.1.tasks = [.finalized .checkIfLive 7] ∧
      emissions p.1.calls = [(.processQueue, ⟨5, "0xa5", "0xa4"⟩)] ∧ ¬ OnTime p :=
  Machine.exists_run_of_exec (by decide)

/-- The block has the parent that was emitted. -/
def acceptedSix : List Event :=
  [.subscribe 5, .finalized 0 (.ok 6), .latest 0 0 (.ok 6), .data 0 ⟨some "0xa5", some 5⟩,
    .answer 0, .processed (.ok ⟨5, "0xa5", "0xa4"⟩), .data 0 ⟨some "0xa6", some 6⟩, .answer 1,
    .processed (.ok ⟨6, "0xa6", "0xa5"⟩), .timeout 0, .timeout 0, .unsubscribed 0 (.ok ())]

/-- The session is on time after every event, also when it restarts. -/
theorem acceptedSix_onTime :
    ∃ p, (resuming ⟨1, 0⟩).Run Machine.Free (State.init, {}) acceptedSix p ∧
      p.1.tasks = [.finalized .checkIfLive 7] ∧
      ∀ fs q, fs <+: acceptedSix →
        (resuming ⟨1, 0⟩).Run Machine.Free (State.init, {}) fs q → OnTime q := by
  obtain ⟨p, hr, htasks⟩ : ∃ p, (resuming ⟨1, 0⟩).Run InTurn (State.init, {}) acceptedSix p ∧
      p.1.tasks = [.finalized .checkIfLive 7] := Machine.exists_run_of_exec (by decide)
  have hfree := hr.mono (H := Machine.Free) fun _ _ _ => trivial
  exact ⟨p, hfree, htasks, (onTime_iff_inTurn hfree).mpr hr⟩

end ChainIndexer.Subscription
