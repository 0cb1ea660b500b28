import ChainIndexer.Consumer.Closed
import ChainIndexer.Consumer.Removal

/-!
# What a step reports and commits

Errors are only added to those the observer has been told. A call of `observer.next` that
resolves is committed unless `commitMessage` fails for good, and that is reported; nothing
else commits.
-/

namespace ChainIndexer.Consumer

variable {β γ : Type} {cfg : Config} {s t u : State β γ} {a : Activation γ}

/-! ## Errors -/

/-- An error is reported to the observer that is there. -/
theorem onError_errors (s : State β γ) (error : BaseError) :
    (onError s error).errors = if s.observer then s.errors ++ [error] else s.errors := by
  unfold onError
  cases error.isFatal
  · rfl
  · rfl

/-- The head of the loop reports nothing. -/
@[simp] theorem runQueue_errors (s : State β γ) (errorCount : Nat) :
    (runQueue s errorCount).errors = s.errors := by
  unfold runQueue
  split
  · rfl
  · rfl

/-- The catch block reports what it gives up on. -/
theorem caught_errors (s : State β γ) (a : Activation γ) (error : Thrown) :
    (caught cfg s a error).errors = if givesUp cfg a error = true ∧ s.observer = true
      then s.errors ++ [KafkaError.createUnknown error false] else s.errors := by
  unfold caught
  cases hgives : givesUp cfg a error with
  | true => simpa using onError_errors s _
  | false => simp

/-- The observer is never taken away, and no error it has been told is forgotten. -/
structure Tells (s t : State β γ) : Prop where
  observer : s.observer = true → t.observer = true
  errors : s.errors.length ≤ t.errors.length

theorem Tells.refl (s : State β γ) : Tells s s := ⟨id, Nat.le_refl _⟩

theorem Tells.trans (h : Tells s t) (k : Tells t u) : Tells s u :=
  ⟨fun ho => k.observer (h.observer ho), Nat.le_trans h.errors k.errors⟩

theorem onError_tells (s : State β γ) (error : BaseError) : Tells s (onError s error) where
  observer := (onError_quiet s error).observer
  errors := by
    rw [onError_errors]
    split
    · simp
    · exact Nat.le_refl _

theorem onDisconnect_tells (s : State β γ) : Tells s (onDisconnect s) :=
  ⟨(onDisconnect_quiet s).observer, Nat.le_of_eq (by rw [onDisconnect_errors])⟩

theorem runQueue_tells (s : State β γ) (errorCount : Nat) : Tells s (runQueue s errorCount) := by
  unfold runQueue
  split
  · exact ⟨id, Nat.le_refl _⟩
  · exact ⟨id, Nat.le_refl _⟩

private theorem processQueue_tells (s : State β γ) : Tells s (processQueue s) := by
  unfold processQueue
  split
  · have h := runQueue_tells { s with queueIsProcessing := true } 0
    exact ⟨h.observer, h.errors⟩
  · exact .refl s

theorem caught_tells (s : State β γ) (a : Activation γ) (error : Thrown) :
    Tells s (caught cfg s a error) := by
  unfold caught
  split
  · have h := onError_tells s (KafkaError.createUnknown error false)
    exact ⟨h.observer, h.errors⟩
  · exact runQueue_tells s _

private theorem push_tells (cfg : Config) (s : State β γ) (m : Message γ) :
    Tells s (push cfg s m) := by
  obtain ⟨_, _, _, _, h⟩ := push_eq cfg s m
  rw [h]
  exact ⟨id, Nat.le_refl _⟩

/-- Pausing and resuming only tell more errors. -/
theorem Throttled.tells (h : Throttled s t) : Tells s t := by
  obtain ⟨_, _, rfl⟩ := h
  exact ⟨id, Nat.le_refl _⟩

theorem succeed_tells (cfg : Config) (s : State β γ) (a : Activation γ)
    (commits : List (Option Thrown)) : Tells s (succeed cfg s a commits) := by
  have hcommit : Tells s (safeCommitMessage cfg (resolve s a) a.element.position commits 0) := by
    obtain h | ⟨error, h⟩ := safeCommitMessage_eq cfg (resolve s a) a.element.position commits 0
    · rw [h]
      exact ⟨id, Nat.le_refl _⟩
    · rw [h]
      have herror := onError_tells (resolve s a) error
      exact ⟨herror.observer, herror.errors⟩
  exact ⟨hcommit.observer, hcommit.errors⟩

/-- Errors are only ever added. -/
theorem step_tells {e : Event β γ} (h : step cfg s e = some t) : Tells s t := by
  have hpush : ∀ i m, Tells s (push cfg (decoded s i) m) := by
    intro i m
    have h := push_tells cfg (decoded s i) m
    exact ⟨h.observer, h.errors⟩
  have hsucceed : ∀ {a commits u}, Throttled (succeed cfg s a commits) u → Tells s u :=
    fun hu => (succeed_tells cfg s _ _).trans hu.tells
  cases step_transition h with
  | start => exact ⟨fun _ => rfl, Nat.le_refl _⟩
  | stop | connected | refused | below | seek | arrive | seeked | resolve | renounce | retry =>
    exact ⟨id, Nat.le_refl _⟩
  | @seekFailed i error =>
    have h := onError_tells (sought s i) (KafkaError.createUnknown error false)
    exact ⟨h.observer, h.errors⟩
  | @reject i m error _ _ =>
    have h := onError_tells { decoded s i with dropped := s.dropped ++ [m.position] }
      (KafkaError.createUnknown error false)
    exact ⟨h.observer, h.errors⟩
  | @enter i m value u _ hu =>
    exact ((hpush _ _).trans (handleBackpressure_eq hu).2.tells).trans (processQueue_tells u)
  | overflow _ hu =>
    exact ((hpush _ _).trans (handleBackpressure_eq hu).2.tells).trans (onError_tells _ _)
  | fail => exact caught_tells s _ _
  | succeed _ _ hu => exact (hsucceed (handleBackpressure_eq hu).2).trans (runQueue_tells _ 0)
  | underflow _ _ hu => exact (hsucceed (handleBackpressure_eq hu).2).trans (caught_tells _ _ _)
  | clientError => exact onError_tells s _
  | disconnected => exact onDisconnect_tells s
  | disconnectCallback =>
    have h := onDisconnect_tells (calledBack s)
    exact ⟨h.observer, h.errors⟩

/-- `processQueue` runs only for an observer. -/
theorem step_observed {e : Event β γ} (h : s.processing.isSome = true → s.observer = true)
    (hs : step cfg s e = some t) (ht : t.processing.isSome = true) : t.observer = true := by
  cases hp : s.processing with
  | some a => exact (step_tells hs).observer (h (by simp [hp]))
  | none =>
    have hnone : ∀ {u : State β γ}, SameLoop s u → u.processing.isSome = false := by
      intro u hu
      simp [hu.processing, hp]
    cases step_effect hs with
    | quiet _ hq => simp [hnone hq.sameLoop] at ht
    | arrive | retry | resolve => simp [hp] at ht
    | reject _ hq => simp [hnone ⟨hq.queueIsProcessing, hq.processing⟩] at ht
    | overflow _ hq =>
      simp [hnone ((push_decoded_sameLoop cfg s _ _).trans hq.sameLoop)] at ht
    | fail ha | succeed ha | underflow ha => simp [hp] at ha
    | @enter i m value u _ hu =>
      have hloop := hnone ((push_decoded_sameLoop cfg s _ _).trans hu.quiet.sameLoop)
      unfold processQueue at ht ⊢
      split
      · rename_i hguard
        rw [Bool.and_eq_true] at hguard
        exact (runQueue_tells _ 0).observer hguard.1
      · rename_i hguard
        rw [if_neg hguard, hloop] at ht
        cases ht

/-! ## Commits -/

/-- Only an iteration of `processQueue` whose await resolves commits. -/
theorem step_committed {e : Event β γ} (hs : step cfg s e = some t)
    (he : ∀ commits flow, e ≠ .settled none commits flow) : t.committed = s.committed := by
  have hpush : ∀ i m, (push cfg (decoded s i) m).committed = s.committed := by
    intro i m
    obtain ⟨_, _, _, _, h⟩ := push_eq cfg (decoded s i) m
    rw [h]
    rfl
  cases step_effect hs with
  | quiet _ hq => exact hq.committed
  | arrive | retry | resolve => rfl
  | reject _ hq => exact hq.committed
  | overflow _ hq => exact hq.committed.trans (hpush _ _)
  | fail _ => exact (caught_sameResults s _ _).1
  | succeed | underflow => exact absurd rfl (he _ _)
  | @enter i m value u _ hu =>
    have hu := hu.quiet.committed.trans (hpush _ _)
    unfold processQueue
    split
    · exact (runQueue_sameResults _ 0).1.trans hu
    · exact hu

/-- The rest of an iteration of `processQueue` reports an error. -/
def reportsError (cfg : Config) (a : Activation γ) (commits : List (Option Thrown))
    (flow : Option Thrown) : Bool :=
  (commitFailure cfg commits 0).isSome || flow.any (givesUp cfg a)

/-- An iteration whose await resolves commits its message unless the commit fails for good. -/
theorem settled_committed {commits : List (Option Thrown)} {flow : Option Thrown}
    (ha : s.processing = some a) (hs : settled cfg s none commits flow = some t) :
    t.committed =
      if (commitFailure cfg commits 0).isNone then s.committed ++ [a.element.position]
      else s.committed := by
  have h := (settled_results ha hs).1.1
  rw [committing, safeCommitMessage_commitFailure] at h
  rw [h]
  cases commitFailure cfg commits 0 with
  | none => rfl
  | some error => exact (onError_quiet (resolve s a) _).committed

/-- A commit that fails for good is reported. -/
theorem succeed_errors (cfg : Config) (ho : s.observer = true) (a : Activation γ)
    (commits : List (Option Thrown)) : (succeed cfg s a commits).errors.length =
      s.errors.length + (commitFailure cfg commits 0).toList.length := by
  simp only [succeed, safeCommitMessage_commitFailure]
  cases commitFailure cfg commits 0 with
  | none => rfl
  | some error => simp [onError_errors, resolve, ho]

/-- When a call resolves, an error is reported if the commits or the flow control fail. -/
theorem settled_errors {commits : List (Option Thrown)} {flow : Option Thrown}
    (ha : s.processing = some a) (ho : s.observer = true)
    (hs : settled cfg s none commits flow = some t) :
    s.errors.length < t.errors.length ↔ reportsError cfg a commits flow = true := by
  have herrors := succeed_errors cfg ho a commits
  have hobserver := (succeed_tells cfg s a commits).observer ho
  cases settled_effect hs with
  | quiet he _ => exact he.elim
  | succeed hb _ hu =>
    obtain rfl := Option.some.inj (ha.symm.trans hb)
    obtain ⟨_, _, rfl⟩ := hu
    rw [runQueue_errors, reportsError]
    change s.errors.length < (succeed cfg s a commits).errors.length ↔ _
    rw [herrors]
    cases commitFailure cfg commits 0 <;> simp
  | @underflow b _ error _ hb _ hu =>
    obtain rfl := Option.some.inj (ha.symm.trans hb)
    obtain ⟨_, _, rfl⟩ := hu
    rw [caught_errors, reportsError]
    simp only [hobserver, and_true, Option.any_some, Bool.or_eq_true]
    cases givesUp cfg a error with
    | true =>
      simp only [if_true, List.length_append, List.length_singleton, herrors, or_true, iff_true]
      omega
    | false =>
      simp only [Bool.false_eq_true, if_false, or_false, herrors]
      cases commitFailure cfg commits 0 <;> simp

end ChainIndexer.Consumer
