import ChainIndexer.Consumer.Order

/-!
# Silence after `observer.closed`

`onDisconnect` clears the queue, removes the listeners and calls `observer.closed`. It
does not reach the activations of `onData` that are still decoding, nor a connection that
is still being made. Where there are neither, all that can still happen before the next
`start` is that `observer.next` is retried for a message it was called with before.
-/

namespace ChainIndexer.Consumer

variable {β γ : Type} {cfg : Config} {s t u : State β γ}

/-- The client calls `start`. -/
def Event.starts : Event β γ → Bool
  | .start => true
  | _ => false

/-- `retryPromise` is at work on a message at this position. -/
def Retrying (s : State β γ) (p : Position) : Prop :=
  ∃ promise ∈ s.promises, promise.settlement = .pending ∧ promise.message.position = p

/-- From one state to another, the observer has heard no more than retries. -/
structure Silent (s t : State β γ) : Prop where
  entered : t.entered = s.entered
  closed : t.closed = s.closed
  nextCalls : ∃ calls, t.nextCalls = s.nextCalls ++ calls ∧ ∀ p ∈ calls, Retrying s p

/-- The consumer is disconnected and nothing is on its way into the queue. -/
structure Resting (s : State β γ) : Prop where
  queue : s.queue = []
  arriving : s.arriving = []
  consumerConnecting : s.consumerConnecting = false
  consumerConnected : s.consumerConnected = false
  brokerMetadata : s.brokerMetadata = false
  listening : s.listening = false

/-! ## A step of a resting consumer -/

/-- Nothing that `Resting` or `Silent` read has changed. -/
structure Dormant (s t : State β γ) : Prop where
  queue : t.queue = s.queue
  arriving : t.arriving = s.arriving
  consumerConnecting : t.consumerConnecting = s.consumerConnecting
  consumerConnected : t.consumerConnected = s.consumerConnected
  brokerMetadata : t.brokerMetadata = s.brokerMetadata
  listening : t.listening = s.listening
  entered : t.entered = s.entered
  closed : t.closed = s.closed
  nextCalls : t.nextCalls = s.nextCalls
  promises : t.promises = s.promises

theorem Dormant.refl (s : State β γ) : Dormant s s :=
  ⟨rfl, rfl, rfl, rfl, rfl, rfl, rfl, rfl, rfl, rfl⟩

theorem Dormant.trans (h : Dormant s t) (k : Dormant t u) : Dormant s u where
  queue := k.queue.trans h.queue
  arriving := k.arriving.trans h.arriving
  consumerConnecting := k.consumerConnecting.trans h.consumerConnecting
  consumerConnected := k.consumerConnected.trans h.consumerConnected
  brokerMetadata := k.brokerMetadata.trans h.brokerMetadata
  listening := k.listening.trans h.listening
  entered := k.entered.trans h.entered
  closed := k.closed.trans h.closed
  nextCalls := k.nextCalls.trans h.nextCalls
  promises := k.promises.trans h.promises

/-- A resting consumer of which nothing has changed rests on. -/
theorem Dormant.resting (h : Dormant s t) (hs : Resting s) : Resting t where
  queue := h.queue.trans hs.queue
  arriving := h.arriving.trans hs.arriving
  consumerConnecting := h.consumerConnecting.trans hs.consumerConnecting
  consumerConnected := h.consumerConnected.trans hs.consumerConnected
  brokerMetadata := h.brokerMetadata.trans hs.brokerMetadata
  listening := h.listening.trans hs.listening

theorem onError_dormant (hq : s.queue = []) (error : BaseError) : Dormant s (onError s error) := by
  unfold onError
  cases error.isFatal
  · exact ⟨rfl, rfl, rfl, rfl, rfl, rfl, rfl, rfl, rfl, rfl⟩
  · exact ⟨hq.symm, rfl, rfl, rfl, rfl, rfl, rfl, rfl, rfl, rfl⟩

private theorem onDisconnect_dormant (h : Resting s) : Dormant s (onDisconnect s) := by
  have hno : ¬ (s.consumerConnected || s.brokerMetadata || !s.queue.isEmpty) = true := by
    simp [h.consumerConnected, h.brokerMetadata, h.queue]
  rw [onDisconnect, if_neg hno]
  exact .refl s

theorem runQueue_dormant (hq : s.queue = []) (errorCount : Nat) :
    Dormant s (runQueue s errorCount) := by
  rw [runQueue_nil hq]
  exact ⟨rfl, rfl, rfl, rfl, rfl, rfl, rfl, rfl, rfl, rfl⟩

theorem caught_dormant (hq : s.queue = []) (a : Activation γ) (error : Thrown) :
    Dormant s (caught cfg s a error) := by
  unfold caught
  split
  · have h := onError_dormant hq (KafkaError.createUnknown error false)
    exact ⟨h.queue, h.arriving, h.consumerConnecting, h.consumerConnected, h.brokerMetadata,
      h.listening, h.entered, h.closed, h.nextCalls, h.promises⟩
  · exact runQueue_dormant hq _

theorem Throttled.dormant (h : Throttled s t) : Dormant s t := by
  obtain ⟨_, _, rfl⟩ := h
  exact ⟨rfl, rfl, rfl, rfl, rfl, rfl, rfl, rfl, rfl, rfl⟩

/-- Committing the element of a suspended iteration and shifting finds the queue empty. -/
theorem succeed_dormant (hq : s.queue = []) (a : Activation γ) (commits : List (Option Thrown)) :
    Dormant s (succeed cfg s a commits) := by
  have hresolve : Dormant s (resolve s a) := ⟨rfl, rfl, rfl, rfl, rfl, rfl, rfl, rfl, rfl, rfl⟩
  have hcommit : Dormant (resolve s a)
      (safeCommitMessage cfg (resolve s a) a.element.position commits 0) := by
    obtain h | ⟨error, h⟩ := safeCommitMessage_eq cfg (resolve s a) a.element.position commits 0
    · rw [h]
      exact ⟨rfl, rfl, rfl, rfl, rfl, rfl, rfl, rfl, rfl, rfl⟩
    · rw [h]
      exact onError_dormant (s := resolve s a) hq error
  have h := hresolve.trans hcommit
  refine ⟨?_, h.arriving, h.consumerConnecting, h.consumerConnected, h.brokerMetadata,
    h.listening, h.entered, h.closed, h.nextCalls, h.promises⟩
  simp [succeed, h.queue, hq]

/-- What a resting consumer keeps: it rests on, it is silent, and nothing new is retried. -/
structure Rests (s t : State β γ) : Prop where
  resting : Resting t
  silent : Silent s t
  retrying : ∀ p, Retrying t p → Retrying s p

/-- Such a step is a step of a resting consumer. -/
theorem Dormant.rests (h : Dormant s t) (hs : Resting s) : Rests s t where
  resting := h.resting hs
  silent := ⟨h.entered, h.closed, [], by simp [h.nextCalls], by simp⟩
  retrying p hp := by
    unfold Retrying at hp ⊢
    rw [← h.promises]
    exact hp

/-- A failed call is repeated for its own message, or its promise is settled. -/
theorem Resting.setPromise {i errorCount : Nat} {m : Message γ} (h : Resting s)
    (hp : s.promises[i]? = some ⟨m, errorCount, .pending⟩) (promise : RetryPromise γ)
    (hm : promise.message = m) (resolved : List Position) {nextCalls calls : List Position}
    (hnext : nextCalls = s.nextCalls ++ calls) (hcalls : ∀ p ∈ calls, p = m.position) :
    Rests s { s with
      promises := s.promises.set i promise, resolved := resolved, nextCalls := nextCalls } := by
  have hretrying : Retrying s m.position := ⟨_, List.mem_of_getElem? hp, rfl, rfl⟩
  refine ⟨⟨h.queue, h.arriving, h.consumerConnecting, h.consumerConnected, h.brokerMetadata,
    h.listening⟩, ⟨rfl, rfl, calls, hnext, fun p hp => hcalls p hp ▸ hretrying⟩, ?_⟩
  rintro p ⟨other, hmem, hpending, hposition⟩
  obtain hold | rfl := List.mem_or_eq_of_mem_set hmem
  · exact ⟨other, hold, hpending, hposition⟩
  · exact hposition ▸ hm ▸ hretrying

/-- Until `start` is called, a resting consumer rests. -/
theorem step_rests {e : Event β γ} (h : Resting s) (he : e.starts = false)
    (hs : step cfg s e = some t) : Rests s t := by
  have hsought : ∀ i, Dormant s (sought s i) :=
    fun i => ⟨rfl, rfl, rfl, rfl, rfl, rfl, rfl, rfl, rfl, rfl⟩
  have hcalledBack : Dormant s (calledBack s) :=
    ⟨rfl, rfl, rfl, rfl, rfl, rfl, rfl, rfl, rfl, rfl⟩
  have hidle : ∀ {i : Nat} {m}, s.arriving[i]? ≠ some m := by
    intro i m
    simp [h.arriving]
  have hsucceed : ∀ {a commits u}, Throttled (succeed cfg s a commits) u →
      Dormant s u ∧ u.queue = [] := by
    intro a commits u hu
    have hdormant := (succeed_dormant h.queue a commits).trans hu.dormant
    exact ⟨hdormant, hdormant.queue.trans h.queue⟩
  cases step_transition hs with
  | start => cases he
  | connected hconnecting | refused hconnecting => simp [h.consumerConnecting] at hconnecting
  | below hl | seek hl | arrive hl | clientError hl | disconnected hl => simp [h.listening] at hl
  | reject hm | enter hm | overflow hm => exact absurd hm hidle
  | stop | seeked => exact Dormant.rests ⟨rfl, rfl, rfl, rfl, rfl, rfl, rfl, rfl, rfl, rfl⟩ h
  | @seekFailed i error =>
    exact ((hsought i).trans (onError_dormant ((hsought i).resting h).queue _)).rests h
  | disconnectCallback =>
    exact (hcalledBack.trans (onDisconnect_dormant (hcalledBack.resting h))).rests h
  | resolve hp => exact h.setPromise hp ⟨_, _, _⟩ rfl _ (List.append_nil _).symm (by simp)
  | renounce hp => exact h.setPromise hp ⟨_, _, _⟩ rfl _ (List.append_nil _).symm (by simp)
  | @retry i m errorCount error hp =>
    have hcalls : ∀ p ∈ [m.position], p = m.position := fun p => List.mem_singleton.mp
    exact h.setPromise hp ⟨_, _, _⟩ rfl _ rfl hcalls
  | fail => exact (caught_dormant h.queue _ _).rests h
  | succeed _ _ hu =>
    obtain ⟨hdormant, hqueue⟩ := hsucceed (handleBackpressure_eq hu).2
    exact (hdormant.trans (runQueue_dormant hqueue 0)).rests h
  | underflow _ _ hu =>
    obtain ⟨hdormant, hqueue⟩ := hsucceed (handleBackpressure_eq hu).2
    exact (hdormant.trans (caught_dormant hqueue _ _)).rests h

theorem Rests.refl (h : Resting s) : Rests s s := (Dormant.refl s).rests h

theorem Rests.trans (h : Rests s t) (k : Rests t u) : Rests s u where
  resting := k.resting
  silent := by
    obtain ⟨before, hbefore, hretried⟩ := h.silent.nextCalls
    obtain ⟨after, hafter, hlater⟩ := k.silent.nextCalls
    refine ⟨k.silent.entered.trans h.silent.entered, k.silent.closed.trans h.silent.closed,
      before ++ after, by rw [hafter, hbefore, List.append_assoc], fun p hp => ?_⟩
    rcases List.mem_append.mp hp with hp | hp
    · exact hretried p hp
    · exact h.retrying p (hlater p hp)
  retrying p hp := h.retrying p (k.retrying p hp)

/-- So does a whole run without `start`. -/
theorem Resting.run {es : List (Event β γ)} (h : Resting s)
    (hr : (machine cfg).Run (fun _ e => e.starts = false) s es t) : Rests s t :=
  hr.invariant (I := Rests s)
    (fun _ _ _ hu he hs => hu.trans (step_rests hu.resting he hs)) (.refl h)

/-! ## The step that closes -/

/-- An error is no call of `closed`. -/
@[simp] theorem onError_closed (s : State β γ) (error : BaseError) :
    (onError s error).closed = s.closed := by
  unfold onError
  cases error.isFatal
  · rfl
  · rfl

/-- The loop does not call `closed`. -/
@[simp] theorem runQueue_closed (s : State β γ) (errorCount : Nat) :
    (runQueue s errorCount).closed = s.closed := by
  unfold runQueue
  split
  · rfl
  · rfl

@[simp] theorem processQueue_closed (s : State β γ) : (processQueue s).closed = s.closed := by
  unfold processQueue
  split
  · exact runQueue_closed _ 0
  · rfl

@[simp] theorem caught_closed (s : State β γ) (a : Activation γ) (error : Thrown) :
    (caught cfg s a error).closed = s.closed := by
  unfold caught
  split
  · exact onError_closed s _
  · exact runQueue_closed s _

/-- Pausing and resuming do not call `closed`. -/
theorem Throttled.closed (h : Throttled s t) : t.closed = s.closed := h.dormant.closed

@[simp] theorem push_closed (s : State β γ) (m : Message γ) :
    (push cfg s m).closed = s.closed := by
  obtain ⟨_, _, _, _, h⟩ := push_eq cfg s m
  rw [h]

@[simp] theorem succeed_closed (s : State β γ) (a : Activation γ)
    (commits : List (Option Thrown)) : (succeed cfg s a commits).closed = s.closed := by
  have hcommit : (safeCommitMessage cfg (resolve s a) a.element.position commits 0).closed =
      s.closed := by
    obtain h | ⟨error, h⟩ := safeCommitMessage_eq cfg (resolve s a) a.element.position commits 0
    · rw [h]
      rfl
    · rw [h, onError_closed]
      rfl
  exact hcommit

/-- `observer.closed` is only called by `onDisconnect`. -/
theorem step_closed {e : Event β γ} (hs : step cfg s e = some t) (hd : e ≠ .disconnected)
    (hc : e ≠ .disconnectCallback) : t.closed = s.closed := by
  have hpush : ∀ i m, (push cfg (decoded s i) m).closed = s.closed :=
    fun i m => push_closed (decoded s i) m
  have hsucceed : ∀ {a commits u}, Throttled (succeed cfg s a commits) u →
      u.closed = s.closed := fun hu => hu.closed.trans (succeed_closed s _ _)
  cases step_transition hs with
  | disconnected => exact absurd rfl hd
  | disconnectCallback => exact absurd rfl hc
  | start | stop | connected | refused | below | seek | arrive | seeked | resolve | renounce
  | retry => rfl
  | seekFailed | reject | clientError => exact onError_closed _ _
  | enter _ hu => rw [processQueue_closed, (handleBackpressure_eq hu).2.closed, hpush]
  | overflow _ hu => rw [onError_closed, (handleBackpressure_eq hu).2.closed, hpush]
  | fail => exact caught_closed s _ _
  | succeed _ _ hu => rw [runQueue_closed, hsucceed (handleBackpressure_eq hu).2]
  | underflow _ _ hu => rw [caught_closed, hsucceed (handleBackpressure_eq hu).2]

/-- What is left behind by `onDisconnect`, given the state it was called in. -/
structure Closing (s t : State β γ) : Prop where
  queue : t.queue = []
  consumerConnected : t.consumerConnected = false
  brokerMetadata : t.brokerMetadata = false
  listening : t.listening = false
  observer : t.observer = true
  arriving : t.arriving = s.arriving
  consumerConnecting : t.consumerConnecting = s.consumerConnecting

theorem onDisconnect_closing (h : (onDisconnect s).closed ≠ s.closed) :
    Closing s (onDisconnect s) := by
  unfold onDisconnect at h ⊢
  split
  · rename_i hguard
    rw [if_pos hguard] at h
    cases ho : s.observer with
    | true => exact ⟨rfl, rfl, rfl, rfl, ho, rfl, rfl⟩
    | false => simp [ho] at h
  · rename_i hguard
    simp [hguard] at h

/-- The step that calls `observer.closed` leaves the consumer disconnected. -/
theorem step_closing {e : Event β γ} (hs : step cfg s e = some t) (hc : t.closed ≠ s.closed) :
    Closing s t := by
  by_cases hd : e = .disconnected
  · subst hd
    cases step_transition hs with
    | disconnected => exact onDisconnect_closing hc
  · by_cases hcallback : e = .disconnectCallback
    · subst hcallback
      cases step_transition hs with
      | disconnectCallback =>
        have h := onDisconnect_closing (s := calledBack s) hc
        exact ⟨h.queue, h.consumerConnected, h.brokerMetadata, h.listening, h.observer,
          h.arriving, h.consumerConnecting⟩
    · exact absurd (step_closed hs hd hcallback) hc

/-! ## Whether the consumer stays silent -/

private theorem processQueue_entered (s : State β γ) : (processQueue s).entered = s.entered := by
  unfold processQueue runQueue
  split
  · split
    · rfl
    · rfl
  · rfl

/-- A message that is still being decoded when the consumer is closed is queued when that is
done. -/
theorem enters_of_arriving [Inhabited γ] {m : Message β} {rest : List (Message β)}
    (h : t.arriving = m :: rest) :
    ∃ u, (machine cfg).Run (fun _ e => Event.starts e = false) t
      [.deserialized 0 (.ok (m.value.map fun _ => default)) none] u ∧
      u.entered = t.entered ++ [m.position] := by
  have hm : t.arriving[0]? = some m := by rw [h]; rfl
  have hadmits : admits m (.ok (m.value.map fun _ => (default : γ))) = true := by
    cases hvalue : m.value <;> simp [admits, hvalue]
  obtain ⟨u, hu⟩ := handleBackpressure_none cfg
    (push cfg (decoded t 0) ⟨m.position, m.value.map fun _ => default⟩) m.position
  have hstep : step cfg t (.deserialized 0 (.ok (m.value.map fun _ => default)) none) =
      some (processQueue u) := by
    simp only [step, deserialized, hm, hadmits, if_true, hu]
  refine ⟨_, Machine.Run.snoc .nil rfl hstep, ?_⟩
  obtain ⟨_, _, _, _, hpush⟩ := push_eq cfg (decoded t 0)
    ⟨m.position, m.value.map fun _ => (default : γ)⟩
  obtain ⟨_, _, rfl⟩ := (handleBackpressure_eq hu).2
  rw [processQueue_entered, hpush]
  rfl

/-- A connected consumer tells its observer that it is closed. -/
theorem onDisconnect_closed (h : s.consumerConnected = true) (ho : s.observer = true) :
    (onDisconnect s).closed = s.closed + 1 := by
  simp [onDisconnect, h, ho]

/-- A connection that was still being made is closed once more when the client stops it. -/
theorem closes_of_connecting (ho : t.observer = true) (h : t.consumerConnecting = true) :
    ∃ u, (machine cfg).Run (fun _ e => Event.starts e = false) t
      [.connected true, .stop, .disconnectCallback] u ∧ u.closed = t.closed + 1 := by
  have hconnected : step cfg t (.connected true) = some { t with
      consumerConnecting := false
      consumerConnected := true
      brokerMetadata := true
      paused := [] } := by
    simp [step, connected, h]
  refine ⟨_, .cons rfl hconnected (.cons rfl rfl (.cons rfl rfl .nil)), ?_⟩
  exact onDisconnect_closed rfl ho

/-- After a call of `observer.closed`, nothing but retries of calls that were under way reaches
the observer until `start` is called, exactly when no message was being decoded and no connection
was being made. -/
theorem silent_after_closed_iff [Inhabited γ] {e : Event β γ} (hs : step cfg s e = some t)
    (hc : t.closed ≠ s.closed) :
    (∀ es u, (machine cfg).Run (fun _ e => Event.starts e = false) t es u → Silent t u) ↔
      s.arriving = [] ∧ s.consumerConnecting = false := by
  have hclosing := step_closing hs hc
  constructor
  · intro hall
    constructor
    · cases harriving : s.arriving with
      | nil => rfl
      | cons m rest =>
        obtain ⟨u, hr, hentered⟩ := enters_of_arriving (hclosing.arriving.trans harriving)
        have hsame := (hall _ u hr).entered
        simp [hentered] at hsame
    · cases hconnecting : s.consumerConnecting with
      | false => rfl
      | true =>
        obtain ⟨u, hr, hclosed⟩ := closes_of_connecting hclosing.observer
          (hclosing.consumerConnecting.trans hconnecting)
        have hsame := (hall _ u hr).closed
        omega
  · rintro ⟨harriving, hconnecting⟩ es u hr
    have hresting : Resting t := ⟨hclosing.queue, hclosing.arriving.trans harriving,
      hclosing.consumerConnecting.trans hconnecting, hclosing.consumerConnected,
      hclosing.brokerMetadata, hclosing.listening⟩
    exact (hresting.run hr).silent

/-- The client stops the consumer while a message is being decoded. -/
def stoppedWhileDecoding : List (Event Unit Unit) :=
  [.start, .connected true, .data (valued 0), .stop]

/-- After the callback has called `observer.closed`, the message is queued and handed to the
observer, and the next call of `stop` closes the consumer again. -/
theorem stoppedWhileDecoding_not_silent : ∃ s t u,
    (machine impatient).Run Machine.Free (State.init : State Unit Unit) stoppedWhileDecoding s ∧
    step impatient s .disconnectCallback = some t ∧ s.closed = 0 ∧ t.closed = 1 ∧
    t.nextCalls = [] ∧
    (machine impatient).Run (fun _ e => e.starts = false) t
      [.deserialized 0 (.ok (some ())) none, .stop, .disconnectCallback] u ∧
    u.entered = [(valued 0).position] ∧ u.nextCalls = [(valued 0).position] ∧ u.closed = 2 ∧
    ¬ Silent t u := by
  obtain ⟨s, hs, hbefore, hafter⟩ : ∃ s, (machine impatient).Run Machine.Free
      (State.init : State Unit Unit) stoppedWhileDecoding s ∧ s.closed = 0 ∧
      (step impatient s .disconnectCallback).any (fun t => t.closed = 1 ∧ t.nextCalls = [] ∧
        ((machine impatient).exec (fun _ e => e.starts = false) t
          [.deserialized 0 (.ok (some ())) none, .stop, .disconnectCallback]).any (fun u =>
          decide (u.entered = [(valued 0).position] ∧ u.nextCalls = [(valued 0).position] ∧
            u.closed = 2)) = true) = true :=
    Machine.exists_run_of_exec (by decide)
  obtain ⟨t, ht, hp⟩ := (Option.any_eq_true _ _).mp hafter
  obtain ⟨hclosed, hnone, hexec⟩ := of_decide_eq_true hp
  obtain ⟨u, hu, hentered, hnext, htwice⟩ := Machine.exists_run_of_exec hexec
  refine ⟨s, t, u, hs, ht, hbefore, hclosed, hnone, hu, hentered, hnext, htwice, fun hsilent => ?_⟩
  have hsame := hsilent.closed
  omega

/-- The client stops the consumer while a message is being processed. -/
def stoppedWhileProcessing : List (Event Unit Unit) :=
  [.start, .connected true, .data (tombstone 0), .deserialized 0 (.ok none) none, .stop]

/-- A consumer that is stopped while it handles a message is silent once `closed` has been called.
-/
theorem stoppedWhileProcessing_silent : ∃ s t,
    (machine impatient).Run Machine.Free (State.init : State Unit Unit) stoppedWhileProcessing s ∧
    step impatient s .disconnectCallback = some t ∧ t.closed ≠ s.closed ∧
    ∀ es u, (machine impatient).Run (fun _ e => e.starts = false) t es u → Silent t u := by
  obtain ⟨s, hs, harriving, hconnecting, hafter⟩ : ∃ s, (machine impatient).Run Machine.Free
      (State.init : State Unit Unit) stoppedWhileProcessing s ∧ s.arriving = [] ∧
      s.consumerConnecting = false ∧
      (step impatient s .disconnectCallback).any (fun t => t.closed ≠ s.closed) = true :=
    Machine.exists_run_of_exec (by decide)
  obtain ⟨t, ht, hp⟩ := (Option.any_eq_true _ _).mp hafter
  have hclosed := of_decide_eq_true hp
  exact ⟨s, t, hs, ht, hclosed,
    (silent_after_closed_iff ht hclosed).mpr ⟨harriving, hconnecting⟩⟩

end ChainIndexer.Consumer
