import ChainIndexer.Consumer.Step

/-!
# Every step of the consumer

One constructor for each way an event can be answered, with the next state as the
functions of the source build it. What a step preserves is proved by cases on this list.
-/

namespace ChainIndexer.Consumer

variable {β γ : Type} {cfg : Config} {s t : State β γ}

/-- The state in which `onDisconnect` is called by the callback of `disconnect`. -/
def calledBack (s : State β γ) : State β γ := { s with disconnects := s.disconnects - 1 }

/-- The activation of `onData` suspended at `seek` is over. -/
def sought (s : State β γ) (i : Nat) : State β γ := { s with seeking := s.seeking.eraseIdx i }

/-- All the ways in which an event can be answered. -/
inductive Transition (cfg : Config) (s : State β γ) : Event β γ → State β γ → Prop
  | start : Transition cfg s .start (start s)
  | stop : Transition cfg s .stop (Consumer.stop s)
  | connected : s.consumerConnecting = true → Transition cfg s (.connected true) { s with
      consumerConnecting := false, consumerConnected := true, brokerMetadata := true, paused := [] }
  | refused : s.consumerConnecting = true →
      Transition cfg s (.connected false) { s with consumerConnecting := false }
  | below {m} : s.listening = true → Transition cfg s (.data m) s
  | seek {m} : s.listening = true →
      Transition cfg s (.data m) { s with seeking := s.seeking ++ [m] }
  | arrive {m} : s.listening = true → Transition cfg s (.data m) { s with
      arriving := s.arriving ++ [m], delivered := s.delivered ++ [m.position] }
  | seeked {i} : Transition cfg s (.seeked i none) { sought s i with seekCalled := true }
  | seekFailed {i error} : Transition cfg s (.seeked i (some error))
      (onError (sought s i) (KafkaError.createUnknown error false))
  | reject {i m error flow} : s.arriving[i]? = some m →
      Transition cfg s (.deserialized i (.error error) flow)
        (onError { decoded s i with dropped := s.dropped ++ [m.position] }
          (KafkaError.createUnknown error false))
  | enter {i m value u} : s.arriving[i]? = some m →
      handleBackpressure cfg (push cfg (decoded s i) ⟨m.position, value⟩) m.position none =
        some (u, none) → Transition cfg s (.deserialized i (.ok value) none) (processQueue u)
  | overflow {i m value error u} : s.arriving[i]? = some m →
      handleBackpressure cfg (push cfg (decoded s i) ⟨m.position, value⟩) m.position
        (some error) = some (u, some error) →
      Transition cfg s (.deserialized i (.ok value) (some error))
        (onError u (KafkaError.createUnknown error false))
  | resolve {i m errorCount} : s.promises[i]? = some ⟨m, errorCount, .pending⟩ →
      Transition cfg s (.retried i none) { setPromise s i m errorCount .fulfilled with
        resolved := s.resolved ++ [m.position] }
  | renounce {i m errorCount error} : s.promises[i]? = some ⟨m, errorCount, .pending⟩ →
      Transition cfg s (.retried i (some error))
        (setPromise s i m errorCount (.rejected (KafkaError.createUnknown error false)))
  | retry {i m errorCount error} : s.promises[i]? = some ⟨m, errorCount, .pending⟩ →
      Transition cfg s (.retried i (some error)) { setPromise s i m (errorCount + 1) .pending with
        nextCalls := s.nextCalls ++ [m.position] }
  | fail {a error commits flow} : s.processing = some a →
      Transition cfg s (.settled (some error) commits flow) (caught cfg s a error)
  | succeed {a commits u} : s.processing = some a → outcomeOf s a.element none = true →
      handleBackpressure cfg (succeed cfg s a commits) a.element.position none = some (u, none) →
      Transition cfg s (.settled none commits none) (runQueue u 0)
  | underflow {a commits error u} : s.processing = some a → outcomeOf s a.element none = true →
      handleBackpressure cfg (succeed cfg s a commits) a.element.position (some error) =
        some (u, some error) →
      Transition cfg s (.settled none commits (some error)) (caught cfg u a error)
  | clientError {error} : s.listening = true → Transition cfg s (.clientError error)
      (onError s (KafkaError.convertLibError error false))
  | disconnected : s.listening = true → Transition cfg s .disconnected (onDisconnect s)
  | disconnectCallback : Transition cfg s .disconnectCallback (onDisconnect (calledBack s))

private theorem retried_transition {i : Nat} {failure : Option Thrown}
    (h : retried cfg s i failure = some t) : Transition cfg s (.retried i failure) t := by
  unfold retried at h
  split at h
  · rename_i m errorCount hp
    cases failure with
    | none =>
      cases h
      exact .resolve hp
    | some error =>
      dsimp only at h
      split at h
      · cases h
        exact .renounce hp
      · cases h
        exact .retry hp
  · cases h

/-- Only a throw of back-pressure keeps `onData` from calling `processQueue`. -/
theorem deserialized_transition {i : Nat} {result : Except Thrown (Option γ)}
    {flow : Option Thrown} (h : deserialized cfg s i result flow = some t) :
    Transition cfg s (.deserialized i result flow) t := by
  unfold deserialized at h
  split at h
  · cases h
  · rename_i m hm
    split at h
    · cases result with
      | error error =>
        cases h
        exact .reject hm
      | ok value =>
        dsimp only at h
        split at h
        · cases h
        · rename_i u hu
          cases h
          obtain rfl := (handleBackpressure_eq hu).1
          exact .enter hm hu
        · rename_i u error hu
          cases h
          obtain rfl := (handleBackpressure_eq hu).1
          exact .overflow hm hu
    · cases h

/-- An iteration of `processQueue` ends in the catch block or at the head of the loop. -/
theorem settled_transition {failure : Option Thrown} {commits : List (Option Thrown)}
    {flow : Option Thrown} (h : settled cfg s failure commits flow = some t) :
    Transition cfg s (.settled failure commits flow) t := by
  unfold settled at h
  split at h
  · cases h
  · rename_i a ha
    split at h
    · rename_i hout
      cases failure with
      | some error =>
        cases h
        exact .fail ha
      | none =>
        dsimp only at h
        split at h
        · cases h
        · rename_i u hu
          cases h
          obtain rfl := (handleBackpressure_eq hu).1
          exact .succeed ha hout hu
        · rename_i u error hu
          cases h
          obtain rfl := (handleBackpressure_eq hu).1
          exact .underflow ha hout hu
    · cases h

/-- Every step is one of them. -/
theorem step_transition {e : Event β γ} (h : step cfg s e = some t) : Transition cfg s e t := by
  cases e with
  | settled failure commits flow => exact settled_transition h
  | deserialized i result flow => exact deserialized_transition h
  | retried i failure => exact retried_transition h
  | start =>
    cases h
    exact .start
  | stop =>
    cases h
    exact .stop
  | connected ok =>
    simp only [step, connected] at h
    split at h
    · rename_i hconnecting
      cases ok with
      | true =>
        cases h
        exact .connected hconnecting
      | false =>
        cases h
        exact .refused hconnecting
    · cases h
  | data m =>
    simp only [step, onData] at h
    split at h
    · rename_i hlistening
      split at h
      · cases h
        split
        · exact .below hlistening
        · exact .seek hlistening
      · cases h
        exact .arrive hlistening
    · cases h
  | seeked i failure =>
    simp only [step, seeked] at h
    split at h
    · cases h
    · cases failure with
      | none =>
        cases h
        exact .seeked
      | some error =>
        cases h
        exact .seekFailed
  | clientError error =>
    simp only [step] at h
    split at h
    · rename_i hlistening
      cases h
      exact .clientError hlistening
    · cases h
  | disconnected =>
    simp only [step] at h
    split at h
    · rename_i hlistening
      cases h
      exact .disconnected hlistening
    · cases h
  | disconnectCallback =>
    simp only [step, disconnectCallback] at h
    split at h
    · cases h
    · cases h
      exact .disconnectCallback

end ChainIndexer.Consumer
