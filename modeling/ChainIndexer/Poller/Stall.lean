import ChainIndexer.Poller.Effect
import Mathlib.Data.Nat.Basic

/-!
# When the poller stalls

A full queue keeps the activations of `startBlockPolling` waiting, and only a new job wakes
`processQueue` again. So if a job fails while the queue is full, neither goes on, and nothing that
the client does later takes a job from the queue: a new session waits like the one before it. In
every other state the observer of some session can still get a block.
-/

namespace ChainIndexer.Poller

variable {cfg : Config} {s t : State}

/-- The queue is full, and nothing takes a job from it. -/
def Stuck (cfg : Config) (s : State) : Prop :=
  s.processing = none ∧ s.queue.length = cfg.workers * 100

instance (cfg : Config) (s : State) : Decidable (Stuck cfg s) := inferInstanceAs (Decidable (_ ∧ _))

/-- A run may go on from here in which an observer gets a block. -/
def Serves (cfg : Config) (s : State) : Prop :=
  ∃ t u e answer, (machine cfg).Reach Machine.Free s t ∧ step cfg t e = some u ∧
    u.emitted = t.emitted ++ [answer]

/-- What holds in every state. -/
structure Kept (cfg : Config) (s : State) : Prop where
  marked : Marked s
  bounded : s.queue.length ≤ cfg.workers * 100
  /-- The saved hash is in lower case. -/
  saved : ∀ hash, s.lastSavedBlockHash = some hash → ∃ original, hash = toLowerCase original
  /-- Without workers no job is ever awaited. -/
  idle : cfg.workers = 0 → s.processing = none

theorem Kept.init : Kept cfg State.init where
  marked := rfl
  bounded := Nat.zero_le _
  saved := nofun
  idle _ := rfl

theorem runQueue_queue_le (s : State) : (runQueue s).queue.length ≤ s.queue.length := by
  unfold runQueue
  split
  · rename_i height rest hq
    split
    · rw [hq]
      exact Nat.le_succ _
    · exact Nat.le_refl _
  · exact Nat.le_refl _

private theorem request_queue_le (s : State) (height : Nat) :
    (request s height).queue.length ≤ s.queue.length + 1 := by
  have hlength : (s.queue ++ [height]).length = s.queue.length + 1 := by simp
  unfold request
  dsimp only
  split
  · exact Nat.le_of_eq hlength
  · exact Nat.le_trans (runQueue_queue_le _) (Nat.le_of_eq hlength)

/-- The inner loop stops at a full queue. -/
theorem fill_queue_le (heights next : Nat) (h : s.queue.length ≤ cfg.workers * 100) :
    (fill cfg heights s next).1.queue.length ≤ cfg.workers * 100 := by
  induction heights generalizing s next with
  | zero => exact h
  | succ heights ih =>
    rw [fill]
    split
    · exact h
    · exact ih (next + 1) (by have := request_queue_le s next; omega)

/-- At a full queue the inner loop does nothing. -/
theorem fill_full (heights next : Nat) (h : cfg.workers * 100 ≤ s.queue.length) :
    (fill cfg heights s next).1 = s := by
  cases heights with
  | zero => rfl
  | succ heights => rw [fill, if_pos h]

/-- A loop that goes on keeps the bound. -/
theorem proceed_kept {i : Nat} {loop : Loop} {latestBlockNumber : Nat} (h : Kept cfg s) :
    Kept cfg (proceed cfg s i loop latestBlockNumber) := by
  obtain ⟨n, -, hr⟩ := fill_requested cfg (latestBlockNumber + 1 - loop.next) loop.next h.marked
  refine ⟨hr.marked, fill_queue_le _ _ h.bounded, fun hash hsaved => ?_, fun hzero => ?_⟩
  · change (fill cfg _ s loop.next).1.lastSavedBlockHash = some hash at hsaved
    rw [hr.frame] at hsaved
    exact h.saved hash hsaved
  · change (fill cfg _ s loop.next).1.processing = none
    rw [fill_full _ _ (by rw [hzero, Nat.zero_mul]; exact Nat.zero_le _)]
    exact h.idle hzero

/-- So does one that ends. -/
theorem finish_kept (h : Kept cfg s) (i : Nat) (errors : List Raised) :
    Kept cfg { finish s i with errors := errors } := ⟨h.marked, h.bounded, h.saved, h.idle⟩

private theorem latest_kept {i : Nat} {result : Except Thrown Nat} (h : Kept cfg s)
    (hs : latest cfg s i result = some t) : Kept cfg t := by
  unfold latest at hs
  split at hs
  · obtain rfl := Option.some.inj hs
    cases result with
    | error error => exact finish_kept h i _
    | ok latestBlockNumber =>
      dsimp only
      split
      · exact ⟨h.marked, h.bounded, h.saved, h.idle⟩
      · split
        · exact proceed_kept h
        · exact finish_kept h i s.errors
  · cases hs

private theorem woken_kept {i : Nat} (h : Kept cfg s) (hs : woken cfg s i = some t) :
    Kept cfg t := by
  unfold woken at hs
  split at hs
  · obtain rfl := Option.some.inj hs
    split
    · exact ⟨h.marked, h.bounded, h.saved, h.idle⟩
    · exact finish_kept h i s.errors
  · obtain rfl := Option.some.inj hs
    split
    · exact h
    · split
      · exact proceed_kept h
      · exact finish_kept h i s.errors
  · cases hs

/-- So does an awaited job. -/
theorem settled_kept {result : Except Thrown Block} (h : Kept cfg s)
    (hs : settled s result = some t) : Kept cfg t := by
  unfold settled at hs
  split at hs
  · rename_i height hp
    obtain rfl := Option.some.inj hs
    have hworkers : cfg.workers ≠ 0 := fun hzero => by simp [h.idle hzero] at hp
    have hflag : s.processingQueue = true := by rw [h.marked, hp]; rfl
    cases result with
    | error error => exact ⟨rfl, h.bounded, h.saved, fun _ => rfl⟩
    | ok block =>
      dsimp only
      split
      · exact ⟨hflag, h.bounded, nofun, fun hzero => absurd hzero hworkers⟩
      · have hrun := runQueue_requested { s with
          answered := s.answered ++ [⟨height, block⟩]
          lastSavedBlockHash := some (toLowerCase block.hash)
          emitted := s.emitted ++ [⟨height, block⟩] } hflag
        refine ⟨hrun.marked, Nat.le_trans (runQueue_queue_le _) h.bounded, fun hash hsaved => ?_,
          fun hzero => absurd hzero hworkers⟩
        rw [hrun.frame] at hsaved
        exact ⟨block.hash, (Option.some.inj hsaved).symm⟩
  · cases hs

/-- Every event keeps the bound. -/
theorem step_kept {e : Event} (h : Kept cfg s) (hs : step cfg s e = some t) : Kept cfg t := by
  cases e with
  | subscribe pollingId start =>
    obtain rfl := Option.some.inj hs
    exact ⟨h.marked, h.bounded, h.saved, h.idle⟩
  | unsubscribe =>
    obtain rfl := Option.some.inj hs
    exact ⟨h.marked, h.bounded, h.saved, h.idle⟩
  | latest i result => exact latest_kept h hs
  | woken i => exact woken_kept h hs
  | settled result => exact settled_kept h hs
  | unsubscribed =>
    obtain ⟨-, ht⟩ := Option.ite_none_right_eq_some.mp hs
    obtain rfl := Option.some.inj ht
    exact ⟨rfl, Nat.zero_le _, h.saved, fun _ => rfl⟩

/-! ## A stuck poller -/

/-- A full queue takes no job, so the loop passes nothing on. -/
theorem Stuck.proceed {i : Nat} {loop : Loop} {latestBlockNumber : Nat} (h : Stuck cfg s) :
    Stuck cfg (proceed cfg s i loop latestBlockNumber) ∧
      (proceed cfg s i loop latestBlockNumber).emitted = s.emitted := by
  have hfill := fill_full (latestBlockNumber + 1 - loop.next) loop.next (Nat.le_of_eq h.2.symm)
  unfold Poller.proceed
  dsimp only
  rw [hfill]
  exact ⟨h, rfl⟩

/-- Nor does a poll of the latest block. -/
theorem Stuck.latest {i : Nat} {result : Except Thrown Nat} (h : Stuck cfg s)
    (hs : latest cfg s i result = some t) : Stuck cfg t ∧ t.emitted = s.emitted := by
  unfold Poller.latest at hs
  split at hs
  · obtain rfl := Option.some.inj hs
    cases result with
    | error error => exact ⟨h, rfl⟩
    | ok latestBlockNumber =>
      dsimp only
      split
      · exact ⟨h, rfl⟩
      · split
        · exact h.proceed
        · exact ⟨h, rfl⟩
  · cases hs

/-- An activation that waits at the full queue goes on waiting. -/
theorem Stuck.woken {i : Nat} (h : Stuck cfg s) (hs : woken cfg s i = some t) :
    Stuck cfg t ∧ t.emitted = s.emitted := by
  unfold Poller.woken at hs
  split at hs
  · obtain rfl := Option.some.inj hs
    split
    · exact ⟨h, rfl⟩
    · exact ⟨h, rfl⟩
  · obtain rfl := Option.some.inj hs
    rw [if_pos (Nat.le_of_eq h.2.symm)]
    exact ⟨h, rfl⟩
  · cases hs

/-- Whatever happens, it stays stuck, and no block is passed on. -/
theorem Stuck.step {e : Event} (h : Stuck cfg s) (hs : step cfg s e = some t) :
    Stuck cfg t ∧ (t.emitted = s.emitted ∨ t.emitted = []) := by
  cases e with
  | subscribe pollingId start =>
    obtain rfl := Option.some.inj hs
    exact ⟨h, Or.inr rfl⟩
  | unsubscribe =>
    obtain rfl := Option.some.inj hs
    exact ⟨h, Or.inl rfl⟩
  | latest i result => exact (h.latest hs).imp_right Or.inl
  | woken i => exact (h.woken hs).imp_right Or.inl
  | settled result =>
    rw [Poller.step, settled, h.1] at hs
    cases hs
  | unsubscribed =>
    rw [Poller.step, unsubscribed, if_neg (by rw [h.1]; nofun)] at hs
    cases hs

/-- What can be served after an event can be served before it. -/
theorem Serves.of_step {e : Event} (h : Serves cfg t) (hs : step cfg s e = some t) :
    Serves cfg s := by
  obtain ⟨v, u, last, answer, hreach, hlast, hemitted⟩ := h
  exact ⟨v, u, last, answer, (Machine.Reach.single trivial hs).trans hreach, hlast, hemitted⟩

end ChainIndexer.Poller
