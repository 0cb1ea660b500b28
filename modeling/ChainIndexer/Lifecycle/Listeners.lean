import ChainIndexer.Core.Observe
import ChainIndexer.Lifecycle.Stopped

/-!
# The delivered listener

`start` registers a listener for the delivery reports once the Kafka client is connected, and
`stop` removes all of them after it has disconnected the client. Nothing removes the listener
of a `start` that throws afterwards. So a second listener is registered exactly when a `start`
gets that far again before a `stop` has completed.
-/

namespace ChainIndexer.Lifecycle

variable {s t : State} {e : Event}

/-- The Kafka client of a `start` is connected, and its delivered listener is registered. -/
def registers (s : State) : Event → Bool
  | .brokerStarted i => match s.starts[i]? with
    | some ⟨_, .broker connection⟩ => match s.connections[connection]? with
      | some (some (.ok ())) => true
      | _ => false
    | _ => false
  | _ => false

/-- What a producer has made of its delivery reports. -/
structure Deliveries where
  /-- Whether a `start` has connected the Kafka client and no `stop` has completed since. -/
  started : Bool := false
  /-- How many delivery reports have come. -/
  reports : Nat := 0
  /-- The calls of `mongoInsertQueue.enqueue`, by the number of the report they are for. -/
  enqueued : List Nat := []

/-- Each listener enqueues the block of a report that has a partition. -/
def Deliveries.record (s : State) (e : Event) (_ : State) (d : Deliveries) : Deliveries :=
  match e with
  | .brokerStarted _ => if registers s e then { d with started := true } else d
  | .brokerStopped _ => if (returnsTo s e).isSome then { d with started := false } else d
  | .delivered partition => { d with
      reports := d.reports + 1
      enqueued := d.enqueued ++
        if partition = -1 then [] else List.replicate s.listeners d.reports }
  | _ => d

/-- The producer with its deliveries. -/
def delivering : Machine (State × Deliveries) Event := machine.observe Deliveries.record

/-- At most one listener is registered, and no report has enqueued its block twice. -/
structure Recorded (p : State × Deliveries) : Prop where
  listeners : p.1.listeners ≤ 1
  enqueued : p.2.enqueued.Nodup

/-- No `start` gets past the connection while an earlier one has and no `stop` has completed
since. -/
def StopsBetween (p : State × Deliveries) (e : Event) : Prop :=
  registers p.1 e = true → p.2.started = false

instance (p : State × Deliveries) (e : Event) : Decidable (StopsBetween p e) :=
  inferInstanceAs (Decidable (_ → _))

/-! ## Who touches the listeners -/

/-- An error adds no listener. -/
theorem onError_listeners (s : State) (error : BaseError) :
    (onError s error).listeners = s.listeners := by
  have hrestart : ∀ u : State, (restartBlockProducer u error).listeners = u.listeners := by
    intro u
    unfold restartBlockProducer
    split
    · rfl
    · rfl
  unfold onError
  dsimp only
  split
  · rfl
  · exact hrestart _
  · exact hrestart _

private theorem onErrors_listeners (errors : List BaseError) (s : State) :
    (errors.foldl onError s).listeners = s.listeners := by
  induction errors generalizing s with
  | nil => rfl
  | cons error errors ih => rw [List.foldl_cons, ih, onError_listeners]

/-- Nor does the end of a start. -/
theorem startEnds_listeners (s : State) (i : Nat) (caller : Caller) (result : Except Thrown Unit) :
    (startEnds s i caller result).listeners = s.listeners := by
  cases caller with
  | client | closed | restart => rfl

theorem stopEnds_listeners (s : State) (i : Nat) (caller : Caller) (result : Except Thrown Unit) :
    (stopEnds s i caller result).listeners = s.listeners := by
  unfold stopEnds
  dsimp only
  split
  · rfl
  · split
    · rfl
    · rfl
  · rfl
  · rfl
  · rfl

theorem startBroker_listeners (s : State) : (startBroker s).2.listeners = s.listeners := by
  unfold startBroker
  split
  · rfl
  · rfl

theorem awaitInsertion_listeners (s : State) (i : Nat) (caller : Caller) :
    (stopBroker s i caller).listeners = s.listeners ∧
      (awaitInsertion s i caller).listeners = s.listeners := by
  have hbroker : (stopBroker s i caller).listeners = s.listeners := by
    unfold stopBroker
    split
    · rfl
    · rfl
  refine ⟨hbroker, ?_⟩
  unfold awaitInsertion
  split
  · rfl
  · exact hbroker

private theorem brokerStarted_listeners {i : Nat} (h : brokerStarted s i = some t) :
    t.listeners = if registers s (.brokerStarted i) then s.listeners + 1 else s.listeners := by
  unfold brokerStarted at h
  split at h
  · rename_i caller connection hi
    split at h
    · rename_i hc
      obtain rfl := Option.some.inj h
      simp [registers, hi, hc]
    · rename_i error hc
      obtain rfl := Option.some.inj h
      simp [registers, hi, hc, startEnds_listeners]
    · cases h
  · cases h

private theorem brokerStopped_listeners {i : Nat} (h : brokerStopped s i = some t) :
    t.listeners = if (returnsTo s (.brokerStopped i)).isSome then 0 else s.listeners := by
  unfold brokerStopped at h
  split at h
  · rename_i caller disconnection hi
    split at h
    · rename_i hd
      obtain rfl := Option.some.inj h
      simp [returnsTo, hi, hd, stopEnds_listeners]
    · rename_i error hd
      obtain rfl := Option.some.inj h
      simp [returnsTo, hi, hd, stopEnds_listeners]
    · cases h
  · cases h

private theorem databaseConnected_listeners {i : Nat} {result : Except Thrown Unit}
    (h : databaseConnected s i result = some t) : t.listeners = s.listeners := by
  unfold databaseConnected at h
  split at h
  · obtain rfl := Option.some.inj h
    cases result with
    | error error => exact startEnds_listeners s i _ _
    | ok value => exact startBroker_listeners s
  · cases h

private theorem startBlockFound_listeners {i : Nat} {result : Except Failure Unit}
    (h : startBlockFound s i result = some t) : t.listeners = s.listeners := by
  unfold startBlockFound at h
  split at h
  · obtain rfl := Option.some.inj h
    cases result with
    | ok value => rfl
    | error failure =>
      cases failure with
      | store error => exact startEnds_listeners s i _ _
      | remote error => exact (startEnds_listeners _ i _ _).trans (onError_listeners s error)
  · cases h

private theorem subscribed_listeners {i : Nat} {result : Except Thrown Unit}
    (h : subscribed s i result = some t) : t.listeners = s.listeners := by
  unfold subscribed at h
  split at h
  · obtain rfl := Option.some.inj h
    exact startEnds_listeners s i _ _
  · cases h

private theorem unsubscribed_listeners {i : Nat} {result : Except Thrown Unit}
    (h : unsubscribed s i result = some t) : t.listeners = s.listeners := by
  unfold unsubscribed at h
  split at h
  · obtain rfl := Option.some.inj h
    cases result with
    | error error => exact stopEnds_listeners s i _ _
    | ok value =>
      dsimp only
      split
      · exact (awaitInsertion_listeners s i _).2
      · rfl
  · cases h

private theorem blocksProduced_listeners {i : Nat} (h : blocksProduced s i = some t) :
    t.listeners = s.listeners := by
  unfold blocksProduced at h
  split at h
  · obtain ⟨_, ht⟩ := Option.ite_none_right_eq_some.mp h
    obtain rfl := Option.some.inj ht
    exact (awaitInsertion_listeners s i _).2
  · cases h

private theorem insertionAwaited_listeners {i : Nat} (h : insertionAwaited s i = some t) :
    t.listeners = s.listeners := by
  unfold insertionAwaited at h
  split at h
  · obtain ⟨_, ht⟩ := Option.ite_none_right_eq_some.mp h
    obtain rfl := Option.some.inj ht
    exact (awaitInsertion_listeners s i _).1
  · cases h

private theorem brokerAwaited_listeners {i : Nat} (h : brokerAwaited s i = some t) :
    t.listeners = s.listeners := by
  unfold brokerAwaited at h
  split at h
  · split at h
    · obtain rfl := Option.some.inj h
      rfl
    · obtain rfl := Option.some.inj h
      exact onError_listeners _ _
    · cases h
  · cases h

private theorem sent_listeners {i : Nat} {failure : Option Thrown} (h : sent s i failure = some t) :
    t.listeners = s.listeners := by
  unfold sent at h
  split at h
  · obtain rfl := Option.some.inj h
    cases failure with
    | none => rfl
    | some error => exact onError_listeners _ _
  · cases h

private theorem delivered_listeners (s : State) (partition : Int) :
    (delivered s partition).listeners = s.listeners := by
  unfold delivered
  split
  · exact onErrors_listeners _ s
  · split
    · rfl
    · rfl

private theorem produceBlock_listeners (s : State) : (produceBlock s).listeners = s.listeners := by
  unfold produceBlock
  dsimp only
  split
  · rfl
  · exact startBroker_listeners _

/-- Only a `start` that is connected and a `stop` that completes touch the listeners. -/
theorem step_listeners (h : step s e = some t) :
    t.listeners = if registers s e then s.listeners + 1
      else if (returnsTo s e).isSome then 0 else s.listeners := by
  cases e with
  | brokerStarted i => simpa [returnsTo] using brokerStarted_listeners h
  | brokerStopped i => simpa [registers] using brokerStopped_listeners h
  | databaseConnected i result => exact databaseConnected_listeners h
  | startBlockFound i result => exact startBlockFound_listeners h
  | subscribed i result => exact subscribed_listeners h
  | unsubscribed i result => exact unsubscribed_listeners h
  | blocksProduced i => exact blocksProduced_listeners h
  | insertionAwaited i => exact insertionAwaited_listeners h
  | brokerAwaited i => exact brokerAwaited_listeners h
  | sent i failure => exact sent_listeners h
  | start | stop =>
    obtain rfl := Option.some.inj h
    rfl
  | delivered partition =>
    obtain rfl := Option.some.inj h
    exact delivered_listeners s partition
  | resumed =>
    simp only [step] at h
    split at h
    · obtain rfl := Option.some.inj h
      rfl
    · cases h
  | next =>
    obtain ⟨_, ht⟩ := Option.ite_none_right_eq_some.mp h
    obtain rfl := Option.some.inj ht
    exact produceBlock_listeners s
  | error error =>
    obtain ⟨_, ht⟩ := Option.ite_none_right_eq_some.mp h
    obtain rfl := Option.some.inj ht
    exact onError_listeners s error
  | connectCallback | disconnectCallback | closed | inserted | kafkaError | disconnected =>
    obtain ⟨_, ht⟩ := Option.ite_none_right_eq_some.mp h
    obtain rfl := Option.some.inj ht
    rfl

/-! ## Runs -/

/-- The listener of the `start` that got past the connection is the only one, and the reports
that have enqueued a block are among those that have come. -/
structure Listening (p : State × Deliveries) : Prop where
  listeners : p.1.listeners = if p.2.started then 1 else 0
  enqueued : p.2.enqueued.Nodup
  reports : ∀ report ∈ p.2.enqueued, report < p.2.reports

variable {d : Deliveries}

/-- Then no report has enqueued its block twice. -/
theorem Listening.recorded {p : State × Deliveries} (h : Listening p) : Recorded p where
  listeners := by
    rw [h.listeners]
    split
    · exact Nat.le_refl 1
    · exact Nat.zero_le 1
  enqueued := h.enqueued

/-- Nothing but the state has moved, and it has as many listeners. -/
theorem Listening.same (h : Listening (s, d)) (hlisteners : t.listeners = s.listeners) :
    Listening (t, d) :=
  ⟨hlisteners.trans h.listeners, h.enqueued, h.reports⟩

/-- A `start` that is connected registers the only listener exactly where a `stop` has completed
since the last one. -/
theorem Listening.brokerStarted (h : Listening (s, d)) {i : Nat}
    (hs : step s (.brokerStarted i) = some t) :
    (Recorded (t, Deliveries.record s (.brokerStarted i) t d) ↔
        StopsBetween (s, d) (.brokerStarted i)) ∧
      (StopsBetween (s, d) (.brokerStarted i) →
        Listening (t, Deliveries.record s (.brokerStarted i) t d)) := by
  have hlisteners := step_listeners hs
  unfold Deliveries.record StopsBetween
  dsimp only
  cases hregisters : registers s (.brokerStarted i) with
  | false =>
    rw [hregisters] at hlisteners
    have hsame : Listening (t, d) := h.same hlisteners
    rw [if_neg Bool.false_ne_true]
    refine ⟨iff_of_true hsame.recorded fun hne => ?_, fun _ => hsame⟩
    cases hne
  | true =>
    have hone : s.listeners = if d.started then 1 else 0 := h.listeners
    rw [hregisters, if_pos rfl, hone] at hlisteners
    rw [if_pos rfl]
    cases hstarted : d.started with
    | false =>
      rw [hstarted] at hlisteners
      have hfirst : Listening (t, { d with started := true }) :=
        ⟨hlisteners, h.enqueued, h.reports⟩
      exact ⟨iff_of_true hfirst.recorded fun _ => rfl, fun _ => hfirst⟩
    | true =>
      rw [hstarted, if_pos rfl] at hlisteners
      refine ⟨iff_of_false (fun hrecorded => ?_) fun hnot => ?_, fun hnot => ?_⟩
      · have hle : t.listeners ≤ 1 := hrecorded.listeners
        omega
      · cases hnot rfl
      · cases hnot rfl

/-- A `stop` that completes leaves no listener. -/
theorem Listening.brokerStopped (h : Listening (s, d)) {i : Nat}
    (hs : step s (.brokerStopped i) = some t) :
    Listening (t, Deliveries.record s (.brokerStopped i) t d) := by
  have hlisteners := step_listeners hs
  unfold Deliveries.record
  dsimp only
  cases hreturns : (returnsTo s (.brokerStopped i)).isSome with
  | false =>
    rw [hreturns] at hlisteners
    exact h.same hlisteners
  | true =>
    rw [hreturns] at hlisteners
    exact ⟨hlisteners, h.enqueued, h.reports⟩

/-- A report that reaches one listener at most enqueues its block once at most. -/
theorem Listening.delivered (h : Listening (s, d)) {partition : Int}
    (hs : step s (.delivered partition) = some t) :
    Listening (t, Deliveries.record s (.delivered partition) t d) := by
  have hle : s.listeners ≤ 1 := h.recorded.listeners
  have hlisteners : t.listeners = s.listeners := step_listeners hs
  unfold Deliveries.record
  refine ⟨hlisteners.trans h.listeners, ?_, fun report hreport => ?_⟩
  · dsimp only
    split
    · rw [List.append_nil]
      exact h.enqueued
    · refine List.nodup_append.mpr ⟨h.enqueued, ?_, ?_⟩
      · rw [List.nodup_replicate]
        exact hle
      · intro report hold other hnew heq
        have hlt : report < d.reports := h.reports report hold
        rw [heq, List.eq_of_mem_replicate hnew] at hlt
        exact Nat.lt_irrefl _ hlt
  · obtain hold | hnew := List.mem_append.mp hreport
    · exact Nat.lt_succ_of_lt (h.reports report hold)
    · split at hnew
      · cases hnew
      · rw [List.eq_of_mem_replicate hnew]
        exact Nat.lt_succ_self _

/-- Every step leaves one listener at most exactly when it does not register one over another. -/
theorem Listening.step (h : Listening (s, d)) (hs : step s e = some t) :
    (Recorded (t, Deliveries.record s e t d) ↔ StopsBetween (s, d) e) ∧
      (StopsBetween (s, d) e → Listening (t, Deliveries.record s e t d)) := by
  have hfree : ∀ {e}, registers s e = false → Listening (t, Deliveries.record s e t d) →
      (Recorded (t, Deliveries.record s e t d) ↔ StopsBetween (s, d) e) ∧
        (StopsBetween (s, d) e → Listening (t, Deliveries.record s e t d)) := by
    intro e hregisters hlistening
    have hstops : StopsBetween (s, d) e := fun hne => by simp [hregisters] at hne
    exact ⟨iff_of_true hlistening.recorded hstops, fun _ => hlistening⟩
  cases e with
  | brokerStarted i => exact h.brokerStarted hs
  | brokerStopped i => exact hfree rfl (h.brokerStopped hs)
  | delivered partition => exact hfree rfl (h.delivered hs)
  | start | stop | databaseConnected | connectCallback | startBlockFound | subscribed
  | unsubscribed | blocksProduced | insertionAwaited | disconnectCallback | resumed | next | error
  | closed | brokerAwaited | sent | inserted | kafkaError | disconnected =>
    exact hfree rfl (h.same (step_listeners hs))

theorem Listening.init : Listening (.init, {}) := ⟨rfl, List.nodup_nil, by simp⟩

variable {p : State × Deliveries} {es : List Event}

/-- In a history there is one delivered listener at most, and no report enqueues its block
twice, exactly when a `stop` completes before the next `start` gets past the connection. -/
theorem recorded_once_iff (h : delivering.Run Machine.Free (.init, {}) es p) :
    (∀ fs q, fs <+: es → delivering.Run Machine.Free (.init, {}) fs q → Recorded q) ↔
      delivering.Run StopsBetween (.init, {}) es p := by
  have hstep : ∀ q e r, Listening q → delivering.step q e = some r →
      (Recorded r ↔ StopsBetween q e) ∧ (StopsBetween q e → Listening r) := by
    rintro ⟨s, d⟩ e ⟨t, d'⟩ hq hs
    obtain ⟨hstep, rfl⟩ := Machine.observe_step.mp hs
    exact hq.step hstep
  exact h.always_iff_guarded (fun _ hq => Listening.recorded hq) hstep Listening.init

/-- The store cannot be read for the start block, the client starts again, and a report comes. -/
def startedAgain : List Event :=
  [.start, .databaseConnected 0 (.ok ()), .connectCallback 0 (.ok ()), .brokerStarted 0,
    .startBlockFound 0 (.error (.store (.unknown "connection reset"))),
    .start, .databaseConnected 0 (.ok ()), .brokerStarted 0, .delivered 0]

/-- Both listeners enqueue the block. -/
theorem startedAgain_twice : ∃ p, delivering.Run Machine.Free (.init, {}) startedAgain p ∧
    p.1.listeners = 2 ∧ p.2.enqueued = [0, 0] ∧ ¬ Recorded p := by
  obtain ⟨p, hr, hlisteners, henqueued⟩ : ∃ p,
      delivering.Run Machine.Free (.init, {}) startedAgain p ∧ p.1.listeners = 2 ∧
        p.2.enqueued = [0, 0] := Machine.exists_run_of_exec (by decide)
  refine ⟨p, hr, hlisteners, henqueued, fun hrecorded => ?_⟩
  have hle := hrecorded.listeners
  omega

/-- The producer is stopped between two starts, and a report comes after each of them. -/
def stoppedBetween : List Event := startUp ++
  [.delivered 0, .inserted, .stop, .unsubscribed 0 (.ok ()), .insertionAwaited 0,
    .disconnectCallback 0 (.ok ()), .brokerStopped 0, .start, .databaseConnected 0 (.ok ()),
    .connectCallback 1 (.ok ()), .brokerStarted 0, .delivered 0]

/-- Each of the reports enqueues its block once. -/
theorem stoppedBetween_once : ∃ p, delivering.Run Machine.Free (.init, {}) stoppedBetween p ∧
    p.2.enqueued = [0, 1] ∧
    ∀ fs q, fs <+: stoppedBetween → delivering.Run Machine.Free (.init, {}) fs q →
      Recorded q := by
  obtain ⟨p, hr, henqueued⟩ : ∃ p, delivering.Run StopsBetween (.init, {}) stoppedBetween p ∧
      p.2.enqueued = [0, 1] := Machine.exists_run_of_exec (by decide)
  have hfree := hr.mono (H := Machine.Free) fun _ _ _ => trivial
  exact ⟨p, hfree, henqueued, (recorded_once_iff hfree).mpr hr⟩

end ChainIndexer.Lifecycle
