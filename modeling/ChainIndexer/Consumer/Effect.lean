import ChainIndexer.Consumer.Transition

/-!
# What a step of the consumer can do

Most events touch neither the buffer nor the loop of `processQueue`, except that
an error or a disconnect may clear the queue. The others move a message along:
it arrives, is decoded or fails to decode, is retried, settles, or is taken from
the queue. Every invariant of the consumer is a case analysis of this list.
-/

namespace ChainIndexer.Consumer

variable {β γ : Type} {cfg : Config} {s t u : State β γ}

/-- Nothing but a clearing of the queue has happened to the messages. -/
structure Quiet (s t : State β γ) : Prop where
  queueIsProcessing : t.queueIsProcessing = s.queueIsProcessing := by rfl
  processing : t.processing = s.processing := by rfl
  arriving : t.arriving = s.arriving := by rfl
  promises : t.promises = s.promises := by rfl
  delivered : t.delivered = s.delivered := by rfl
  entered : t.entered = s.entered := by rfl
  awaited : t.awaited = s.awaited := by rfl
  nextCalls : t.nextCalls = s.nextCalls := by rfl
  resolved : t.resolved = s.resolved := by rfl
  handled : t.handled = s.handled := by rfl
  committed : t.committed = s.committed := by rfl
  observer : s.observer = true → t.observer = true := by exact id
  listening : t.listening = true → s.listening = true ∨ t.observer = true := by exact Or.inl
  queue : t.queue = s.queue ∧ t.dropped = s.dropped ∨
    t.queue = [] ∧ t.dropped = s.dropped ++ s.queue.map (·.position) := by exact Or.inl ⟨rfl, rfl⟩

theorem Quiet.trans (h : Quiet s t) (k : Quiet t u) : Quiet s u where
  queueIsProcessing := k.queueIsProcessing.trans h.queueIsProcessing
  processing := k.processing.trans h.processing
  arriving := k.arriving.trans h.arriving
  promises := k.promises.trans h.promises
  delivered := k.delivered.trans h.delivered
  entered := k.entered.trans h.entered
  awaited := k.awaited.trans h.awaited
  nextCalls := k.nextCalls.trans h.nextCalls
  resolved := k.resolved.trans h.resolved
  handled := k.handled.trans h.handled
  committed := k.committed.trans h.committed
  observer := fun ho => k.observer (h.observer ho)
  listening := fun hl => (k.listening hl).elim
    (fun hl => (h.listening hl).imp_right k.observer) Or.inr
  queue := by
    obtain ⟨hq, hd⟩ | ⟨hq, hd⟩ := h.queue
    · rw [← hq, ← hd]
      exact k.queue
    · obtain ⟨kq, kd⟩ | ⟨kq, kd⟩ := k.queue
      · exact Or.inr ⟨kq.trans hq, kd.trans hd⟩
      · exact Or.inr ⟨kq, by rw [kd, hd, hq]; simp⟩

/-- Nothing that the buffer or the loop reads has changed. -/
theorem Quiet.refl (s : State β γ) : Quiet s s := {}

/-- An error clears the queue at most. -/
theorem onError_quiet (s : State β γ) (error : BaseError) : Quiet s (onError s error) := by
  unfold onError
  cases error.isFatal
  · exact {}
  · exact { queue := Or.inr ⟨rfl, rfl⟩ }

/-- So does a disconnection. -/
theorem onDisconnect_quiet (s : State β γ) : Quiet s (onDisconnect s) := by
  unfold onDisconnect
  split
  · exact { listening := nofun, queue := Or.inr ⟨rfl, rfl⟩ }
  · exact Quiet.refl s

/-- A disconnection reports no error. -/
theorem onDisconnect_errors (s : State β γ) : (onDisconnect s).errors = s.errors := by
  unfold onDisconnect
  split
  · rfl
  · rfl

/-- Pausing and resuming move no message. -/
theorem Throttled.quiet (h : Throttled s t) : Quiet s t := by
  obtain ⟨consumerPaused, paused, rfl⟩ := h
  exact {}

/-- The events that move no message along. -/
def Event.Quiet : Event β γ → Prop
  | .deserialized .. | .settled .. => False
  | _ => True

/-- All that an event can do to the messages. -/
inductive Effect (cfg : Config) (s : State β γ) : Event β γ → State β γ → Prop
  | quiet {e t} : e.Quiet → Quiet s t → Effect cfg s e t
  | arrive {m} : s.listening = true → Effect cfg s (.data m) { s with
      arriving := s.arriving ++ [m], delivered := s.delivered ++ [m.position] }
  | retry {i failure m errorCount errorCount' settlement nextCalls} :
      s.promises[i]? = some ⟨m, errorCount, .pending⟩ → settlement ≠ .fulfilled →
      Effect cfg s (.retried i failure) { s with
        promises := s.promises.set i ⟨m, errorCount', settlement⟩, nextCalls := nextCalls }
  | resolve {i m errorCount} : s.promises[i]? = some ⟨m, errorCount, .pending⟩ →
      Effect cfg s (.retried i none) { s with
        promises := s.promises.set i ⟨m, errorCount, .fulfilled⟩
        resolved := s.resolved ++ [m.position] }
  | reject {i m error flow t} : s.arriving[i]? = some m →
      Quiet { decoded s i with dropped := s.dropped ++ [m.position] } t →
      Effect cfg s (.deserialized i (.error error) flow) t
  | enter {i m value u} : s.arriving[i]? = some m →
      Throttled (push cfg (decoded s i) ⟨m.position, value⟩) u →
      Effect cfg s (.deserialized i (.ok value) none) (processQueue u)
  | overflow {i m value error t} : s.arriving[i]? = some m →
      Quiet (push cfg (decoded s i) ⟨m.position, value⟩) t →
      Effect cfg s (.deserialized i (.ok value) (some error)) t
  | fail {a error commits flow} : s.processing = some a →
      Effect cfg s (.settled (some error) commits flow) (caught cfg s a error)
  | succeed {a commits u} : s.processing = some a → outcomeOf s a.element none = true →
      Throttled (succeed cfg s a commits) u →
      Effect cfg s (.settled none commits none) (runQueue u 0)
  | underflow {a commits error u} : s.processing = some a → outcomeOf s a.element none = true →
      Throttled (succeed cfg s a commits) u →
      Effect cfg s (.settled none commits (some error)) (caught cfg u a error)

/-- Committing records the commit or reports an error. -/
theorem safeCommitMessage_quiet (cfg : Config) (s : State β γ) (p : Position)
    (attempts : List (Option Thrown)) (errorCount : Nat) :
    ∃ committed, (committed = s.committed ++ [p] ∨ committed = s.committed) ∧
      Quiet { s with committed := committed }
        (safeCommitMessage cfg s p attempts errorCount) := by
  obtain h | ⟨error, h⟩ := safeCommitMessage_eq cfg s p attempts errorCount
  · rw [h]
    exact ⟨_, Or.inl rfl, Quiet.refl _⟩
  · rw [h]
    exact ⟨_, Or.inr rfl, onError_quiet s error⟩

private theorem sought_quiet (s : State β γ) (i : Nat) : Quiet s (sought s i) := {}

/-- The callback of a disconnection moves no message. -/
theorem calledBack_quiet (s : State β γ) : Quiet s (calledBack s) := {}

/-- Every step has one of the effects. -/
theorem step_effect {e : Event β γ} (h : step cfg s e = some t) : Effect cfg s e t := by
  cases step_transition h with
  | start =>
    exact .quiet trivial { observer := fun _ => rfl, listening := fun _ => Or.inr rfl }
  | stop | connected | refused | seek | seeked => exact .quiet trivial {}
  | below => exact .quiet trivial (Quiet.refl s)
  | arrive hl => exact .arrive hl
  | @seekFailed i error => exact .quiet trivial ((sought_quiet s i).trans (onError_quiet _ _))
  | reject hm => exact .reject hm (onError_quiet _ _)
  | enter hm hu => exact .enter hm (handleBackpressure_eq hu).2
  | overflow hm hu =>
    exact .overflow hm ((handleBackpressure_eq hu).2.quiet.trans (onError_quiet _ _))
  | resolve hp => exact .resolve hp
  | renounce hp => exact .retry hp (by simp)
  | retry hp => exact .retry hp (by simp)
  | fail ha => exact .fail ha
  | succeed ha hout hu => exact .succeed ha hout (handleBackpressure_eq hu).2
  | underflow ha hout hu => exact .underflow ha hout (handleBackpressure_eq hu).2
  | clientError => exact .quiet trivial (onError_quiet s _)
  | disconnected => exact .quiet trivial (onDisconnect_quiet s)
  | disconnectCallback =>
    exact .quiet trivial ((calledBack_quiet s).trans (onDisconnect_quiet _))

/-- What a decoded message does is one of the effects. -/
theorem deserialized_effect {i : Nat} {result : Except Thrown (Option γ)} {flow : Option Thrown}
    (h : deserialized cfg s i result flow = some t) :
    Effect cfg s (.deserialized i result flow) t :=
  step_effect (e := .deserialized i result flow) h

/-- What a call of `next` that settles does is one of the effects. -/
theorem settled_effect {failure : Option Thrown} {commits : List (Option Thrown)}
    {flow : Option Thrown} (h : settled cfg s failure commits flow = some t) :
    Effect cfg s (.settled failure commits flow) t :=
  step_effect (e := .settled failure commits flow) h

end ChainIndexer.Consumer
