import ChainIndexer.Lifecycle.Step

/-!
# What a step can do to a restart

Of the many awaits only five things matter to who starts what: the activations of
`start` and of `stop`, `forceStop`, the restart in progress and the history. A step
moves one activation, ends one, adds one, or hands errors to `onError`.
-/

namespace ChainIndexer.Lifecycle

variable {s t u : State}

/-- The errors that a step hands to `onError`. -/
def reported (s : State) : Event → List BaseError
  | .error error => [error]
  | .startBlockFound _ (.error (.remote error)) => [error]
  | .sent _ (some error) => [KafkaError.createUnknown error true]
  | .brokerAwaited i => match s.sending[i]? with
    | some ⟨_, some connection⟩ => match s.connections[connection]? with
      | some (some (.error error)) => [KafkaError.createUnknown (.librdkafka error) true]
      | _ => []
    | _ => []
  | .delivered partition =>
    if partition = -1 then List.replicate s.listeners BlockProducerError.topicDoesNotExist else []
  | _ => []

/-- The caller to which a `stop` returns when an event happens. -/
def returnsTo (s : State) : Event → Option Caller
  | .brokerStopped i => match s.stops[i]? with
    | some ⟨caller, .broker disconnection⟩ => match s.disconnections[disconnection]? with
      | some (some (.ok ())) => some caller
      | _ => none
    | _ => none
  | _ => none

/-- The same activations of `start` and `stop`, restart and history. -/
structure Same (s t : State) : Prop where
  forceStop : t.forceStop = s.forceStop
  restart : t.restart = s.restart
  starts : t.starts = s.starts
  stops : t.stops = s.stops
  history : t.history = s.history

theorem Same.refl (s : State) : Same s s := ⟨rfl, rfl, rfl, rfl, rfl⟩

theorem Same.trans (h : Same s t) (k : Same t u) : Same s u where
  forceStop := k.forceStop.trans h.forceStop
  restart := k.restart.trans h.restart
  starts := k.starts.trans h.starts
  stops := k.stops.trans h.stops
  history := k.history.trans h.history

/-- What an activation of `start` does on its way. -/
inductive Advance (caller : Caller) : List Entry → Prop
  | silent : Advance caller []
  | connect : Advance caller [.connect]
  | subscribe : Advance caller [.subscribe caller]

/-- What an event can do. -/
inductive Effect (s : State) : Event → State → Prop
  | same {e t} : Same s t → reported s e = [] → Effect s e t
  /-- `observer.next` while the Kafka client is neither connected nor connecting. -/
  | connect {t : State} : s.producerConnected = false → s.producerConnecting = false →
    Same (record s .connect) t → Effect s .next t
  /-- The client calls `start`. -/
  | start : Effect s .start (start s .client)
  /-- The client calls `stop`, or the subscription has closed. -/
  | stop {e caller} : caller ≠ .restart → reported s e = [] → Effect s e (stop s caller)
  /-- An activation of `start` goes on, which was not the call of `subscribe`. -/
  | startAdvances {e t i awaits awaits' entries caller} :
    s.starts[i]? = some ⟨caller, awaits⟩ → awaits ≠ .subscription → Advance caller entries →
    reported s e = [] →
    Same { s with
      starts := s.starts.set i ⟨caller, awaits'⟩, history := s.history ++ entries } t →
    Effect s e t
  /-- An activation of `start` returns from the call of `subscribe`, or throws. -/
  | startEnds {e t i awaits caller result} : s.starts[i]? = some ⟨caller, awaits⟩ →
    (result = .ok () → awaits = .subscription) →
    (awaits = .subscription → reported s e = []) →
    Same (startEnds ((reported s e).foldl onError s) i caller result) t → Effect s e t
  /-- An activation of `stop` goes on. -/
  | stopAdvances {e t i awaits awaits' caller} : s.stops[i]? = some ⟨caller, awaits⟩ →
    reported s e = [] → Same { s with stops := s.stops.set i ⟨caller, awaits'⟩ } t → Effect s e t
  /-- An activation of `stop` returns or throws. -/
  | stopEnds {e t i awaits caller result} : s.stops[i]? = some ⟨caller, awaits⟩ →
    (result = .ok () → returnsTo s e = some caller) → reported s e = [] →
    Same (stopEnds s i caller result) t → Effect s e t
  /-- All that await the settled `restartPromise` resume. -/
  | resume {restart result} : s.restart = some restart → restart.result = some result →
    Effect s .resumed (resume s restart result)
  /-- Errors are handed to `onError`. -/
  | report {e t} : Same ((reported s e).foldl onError s) t → Effect s e t

/-- Only fatal errors are announced. -/
theorem announcement_fatal {result : Except Thrown Unit} {error : BaseError} {entry : Entry}
    (h : entry ∈ announcements result error) : ∃ raised, entry = .fatalError raised := by
  unfold announcements at h
  rcases List.mem_append.mp h with h | h
  · cases result with
    | ok value => cases h
    | error thrown => exact ⟨_, List.mem_singleton.mp h⟩
  · split at h
    · exact ⟨_, List.mem_singleton.mp h⟩
    · cases h

private theorem startBroker_same (s : State) :
    ∃ entries, (entries = [] ∨ entries = [.connect]) ∧
      Same { s with history := s.history ++ entries } (startBroker s).2 := by
  unfold startBroker
  split
  · exact ⟨[.connect], Or.inr rfl, ⟨rfl, rfl, rfl, rfl, rfl⟩⟩
  · exact ⟨[], Or.inl rfl, ⟨rfl, rfl, rfl, rfl, (List.append_nil _).symm⟩⟩

/-- What a state does not show is not kept by the functions either. -/
theorem startEnds_same (h : Same s t) (i : Nat) (caller : Caller) (result : Except Thrown Unit) :
    Same (startEnds s i caller result) (startEnds t i caller result) := by
  have hstarts := congrArg (List.eraseIdx · i) h.starts
  cases caller with
  | client | closed => exact { h with starts := hstarts }
  | restart =>
    exact { h with starts := hstarts, restart := congrArg (Option.map _) h.restart }

/-- What is the same stays so when a stop ends. -/
theorem stopEnds_same (h : Same s t) (i : Nat) (caller : Caller) (result : Except Thrown Unit) :
    Same (stopEnds s i caller result) (stopEnds t i caller result) := by
  have hstops := congrArg (List.eraseIdx · i) h.stops
  have hrecord := congrArg (· ++ [Entry.stopped]) h.history
  cases caller with
  | closed => cases result <;> exact { h with stops := hstops }
  | client =>
    cases result with
    | error error => exact { h with stops := hstops }
    | ok value => exact { h with stops := hstops, history := hrecord }
  | restart =>
    cases result with
    | error error =>
      exact { h with stops := hstops, restart := congrArg (Option.map _) h.restart }
    | ok value =>
      dsimp only [stopEnds]
      rw [h.forceStop]
      split
      · exact {
          forceStop := rfl
          restart := congrArg (Option.map _) h.restart
          starts := h.starts
          stops := hstops
          history := h.history }
      · exact {
          forceStop := rfl
          restart := h.restart
          starts := congrArg (· ++ [_]) h.starts
          stops := hstops
          history := h.history }

private theorem onError_same (h : Same s t) (error : BaseError) :
    Same (onError s error) (onError t error) := by
  have hrestart : ∀ {s t : State}, Same s t →
      Same (restartBlockProducer s error) (restartBlockProducer t error) := by
    intro s t h
    unfold restartBlockProducer
    rw [h.restart]
    cases s.restart with
    | some restart => exact { h with restart := rfl }
    | none =>
      exact { h with
        restart := rfl
        stops := congrArg (· ++ [_]) h.stops
        history := congrArg (· ++ [_]) h.history }
  have hrecord : Same (record s (.reported error)) (record t (.reported error)) :=
    { h with history := congrArg (· ++ [_]) h.history }
  unfold onError
  cases Producer.onError error with
  | ignored => exact hrecord
  | restarted => exact hrestart hrecord
  | stopped => exact hrestart { hrecord with forceStop := rfl }

/-- What `onError` adds to the history. -/
def Noted (entries : List Entry) : Prop :=
  ∀ entry ∈ entries, entry = .began ∨ ∃ error, entry = .reported error

private theorem restartBlockProducer_noted (s : State) (error : BaseError) : ∃ entries,
    Noted entries ∧ (restartBlockProducer s error).history = s.history ++ entries := by
  unfold restartBlockProducer
  split
  · exact ⟨[], nofun, (List.append_nil _).symm⟩
  · exact ⟨[.began], List.forall_mem_singleton.mpr (Or.inl rfl), rfl⟩

/-- `onError` only adds what it reports and begins. -/
theorem onError_noted (s : State) (error : BaseError) : ∃ entries, Noted entries ∧
    (onError s error).history = s.history ++ entries := by
  have hrestart : ∀ u : State, u.history = s.history ++ [.reported error] → ∃ entries,
      Noted entries ∧ (restartBlockProducer u error).history = s.history ++ entries := by
    intro u hu
    obtain ⟨entries, hnoted, heq⟩ := restartBlockProducer_noted u error
    refine ⟨.reported error :: entries, List.forall_mem_cons.mpr ⟨Or.inr ⟨error, rfl⟩, hnoted⟩, ?_⟩
    rw [heq, hu, List.append_assoc, List.singleton_append]
  unfold onError
  dsimp only
  split
  · exact ⟨[.reported error], List.forall_mem_singleton.mpr (Or.inr ⟨error, rfl⟩), rfl⟩
  · exact hrestart _ rfl
  · exact hrestart _ rfl

/-- Several errors add no more than this. -/
theorem onErrors_noted (errors : List BaseError) (s : State) : ∃ entries, Noted entries ∧
    (errors.foldl onError s).history = s.history ++ entries := by
  induction errors generalizing s with
  | nil => exact ⟨[], nofun, (List.append_nil _).symm⟩
  | cons error errors ih =>
    obtain ⟨first, hfirst, heq⟩ := onError_noted s error
    obtain ⟨rest, hrest, heq'⟩ := ih (onError s error)
    refine ⟨first ++ rest, List.forall_mem_append.mpr ⟨hfirst, hrest⟩, ?_⟩
    rw [List.foldl_cons, heq', heq, List.append_assoc]

private theorem databaseConnected_effect {i : Nat} {result : Except Thrown Unit}
    (h : databaseConnected s i result = some t) : Effect s (.databaseConnected i result) t := by
  unfold databaseConnected at h
  split at h
  · rename_i caller hi
    obtain rfl := Option.some.inj h
    cases result with
    | error error =>
      refine .startEnds hi ?_ ?_ (Same.refl _)
      · exact nofun
      · exact nofun
    | ok value =>
      obtain ⟨entries, hentries, hsame⟩ := startBroker_same s
      have hadvance : Advance caller entries := by
        rcases hentries with rfl | rfl
        · exact .silent
        · exact .connect
      have hbroker : Same { s with
          starts := s.starts.set i ⟨caller, .broker (startBroker s).1⟩
          history := s.history ++ entries } { (startBroker s).2 with
          starts := (startBroker s).2.starts.set i ⟨caller, .broker (startBroker s).1⟩ } :=
        { hsame with starts := congrArg (List.set · i _) hsame.starts }
      exact .startAdvances hi nofun hadvance rfl hbroker
  · cases h

private theorem brokerStarted_effect {i : Nat} (h : brokerStarted s i = some t) :
    Effect s (.brokerStarted i) t := by
  unfold brokerStarted at h
  split at h
  · rename_i caller connection hi
    split at h
    · obtain rfl := Option.some.inj h
      exact .startAdvances hi nofun .silent rfl ⟨rfl, rfl, rfl, rfl, (List.append_nil _).symm⟩
    · obtain rfl := Option.some.inj h
      refine .startEnds hi ?_ ?_ (startEnds_same ?_ i caller _)
      · exact nofun
      · exact nofun
      · exact ⟨rfl, rfl, rfl, rfl, rfl⟩
    · cases h
  · cases h

private theorem startBlockFound_effect {i : Nat} {result : Except Failure Unit}
    (h : startBlockFound s i result = some t) : Effect s (.startBlockFound i result) t := by
  unfold startBlockFound at h
  split at h
  · rename_i caller hi
    obtain rfl := Option.some.inj h
    match result with
    | .ok () => exact .startAdvances hi nofun .subscribe rfl ⟨rfl, rfl, rfl, rfl, rfl⟩
    | .error (.store error) | .error (.remote error) =>
      refine .startEnds hi ?_ ?_ (Same.refl _)
      · exact nofun
      · exact nofun
  · cases h

theorem stopBroker_same (s : State) (i : Nat) (caller : Caller) : ∃ awaits,
    Same { s with stops := s.stops.set i ⟨caller, awaits⟩ } (stopBroker s i caller) := by
  unfold stopBroker
  split
  · exact ⟨_, ⟨rfl, rfl, rfl, rfl, rfl⟩⟩
  · exact ⟨_, ⟨rfl, rfl, rfl, rfl, rfl⟩⟩

theorem awaitInsertion_same (s : State) (i : Nat) (caller : Caller) : ∃ awaits,
    Same { s with stops := s.stops.set i ⟨caller, awaits⟩ } (awaitInsertion s i caller) := by
  unfold awaitInsertion
  split
  · exact ⟨_, ⟨rfl, rfl, rfl, rfl, rfl⟩⟩
  · exact stopBroker_same s i caller

/-- What the end of an unsubscription does is one of the effects. -/
theorem unsubscribed_effect {i : Nat} {result : Except Thrown Unit}
    (h : unsubscribed s i result = some t) : Effect s (.unsubscribed i result) t := by
  unfold unsubscribed at h
  split at h
  · rename_i caller hi
    obtain rfl := Option.some.inj h
    cases result with
    | error error =>
      refine .stopEnds hi ?_ rfl (Same.refl _)
      exact nofun
    | ok value =>
      dsimp only
      split
      · obtain ⟨awaits, hsame⟩ := awaitInsertion_same s i caller
        exact .stopAdvances hi rfl hsame
      · exact .stopAdvances hi rfl (Same.refl _)
  · cases h

private theorem brokerStopped_effect {i : Nat} (h : brokerStopped s i = some t) :
    Effect s (.brokerStopped i) t := by
  unfold brokerStopped at h
  split at h
  · rename_i caller disconnection hi
    split at h
    · rename_i hd
      obtain rfl := Option.some.inj h
      refine .stopEnds hi (fun _ => ?_) rfl (stopEnds_same ?_ i caller _)
      · simp [returnsTo, hi, hd]
      · exact ⟨rfl, rfl, rfl, rfl, rfl⟩
    · obtain rfl := Option.some.inj h
      refine .stopEnds hi ?_ rfl (stopEnds_same ?_ i caller _)
      · exact nofun
      · exact ⟨rfl, rfl, rfl, rfl, rfl⟩
    · cases h
  · cases h

private theorem next_effect (h : step s .next = some t) : Effect s .next t := by
  obtain ⟨_, ht⟩ := Option.ite_none_right_eq_some.mp h
  obtain rfl := Option.some.inj ht
  unfold produceBlock
  dsimp only
  split
  · exact .same ⟨rfl, rfl, rfl, rfl, rfl⟩ rfl
  · rename_i hconnected
    rw [Bool.not_eq_true] at hconnected
    unfold startBroker
    dsimp only
    split
    · rename_i hidle
      rw [Bool.and_eq_true, Bool.not_eq_true', Bool.not_eq_true'] at hidle
      exact .connect hidle.2 hidle.1 ⟨rfl, rfl, rfl, rfl, rfl⟩
    · exact .same ⟨rfl, rfl, rfl, rfl, rfl⟩ rfl

/-- A message that cannot be sent is an error. -/
theorem sendingFailed_same (h : Same s t) (i : Nat) (error : Thrown) :
    Same (onError s (KafkaError.createUnknown error true)) (sendingFailed t i error) :=
  onError_same (t := { t with
    producerConnected := false, sending := t.sending.eraseIdx i }) { h with } _

private theorem brokerAwaited_effect {i : Nat} (h : brokerAwaited s i = some t) :
    Effect s (.brokerAwaited i) t := by
  unfold brokerAwaited at h
  split at h
  · rename_i id connection hi
    split at h
    · rename_i hc
      obtain rfl := Option.some.inj h
      exact .same ⟨rfl, rfl, rfl, rfl, rfl⟩ (by simp [reported, hi, hc])
    · rename_i error hc
      obtain rfl := Option.some.inj h
      refine .report ?_
      have hreported : reported s (.brokerAwaited i) =
          [KafkaError.createUnknown (.librdkafka error) true] := by simp [reported, hi, hc]
      rw [hreported]
      refine sendingFailed_same ?_ i _
      exact ⟨rfl, rfl, rfl, rfl, rfl⟩
    · cases h
  · cases h

private theorem sent_effect {i : Nat} {failure : Option Thrown} (h : sent s i failure = some t) :
    Effect s (.sent i failure) t := by
  unfold sent at h
  split at h
  · obtain rfl := Option.some.inj h
    cases failure with
    | none => exact .same ⟨rfl, rfl, rfl, rfl, rfl⟩ rfl
    | some error => exact .report (sendingFailed_same ⟨rfl, rfl, rfl, rfl, rfl⟩ i error)
  · cases h

private theorem subscribed_effect {i : Nat} {result : Except Thrown Unit}
    (h : subscribed s i result = some t) : Effect s (.subscribed i result) t := by
  unfold subscribed at h
  split at h
  · rename_i caller hi
    obtain rfl := Option.some.inj h
    exact .startEnds hi (fun _ => rfl) (fun _ => rfl) (Same.refl _)
  · cases h

private theorem blocksProduced_effect {i : Nat} (h : blocksProduced s i = some t) :
    Effect s (.blocksProduced i) t := by
  unfold blocksProduced at h
  split at h
  · rename_i caller ids hi
    obtain ⟨_, ht⟩ := Option.ite_none_right_eq_some.mp h
    obtain rfl := Option.some.inj ht
    obtain ⟨awaits, hsame⟩ := awaitInsertion_same s i caller
    exact .stopAdvances hi rfl hsame
  · cases h

private theorem insertionAwaited_effect {i : Nat} (h : insertionAwaited s i = some t) :
    Effect s (.insertionAwaited i) t := by
  unfold insertionAwaited at h
  split at h
  · rename_i caller count hi
    obtain ⟨_, ht⟩ := Option.ite_none_right_eq_some.mp h
    obtain rfl := Option.some.inj ht
    obtain ⟨awaits, hsame⟩ := stopBroker_same s i caller
    exact .stopAdvances hi rfl hsame
  · cases h

/-- A report without a partition hands one error to `onError` for each listener. -/
theorem delivered_effect (s : State) (partition : Int) :
    Effect s (.delivered partition) (delivered s partition) := by
  unfold delivered
  split
  · rename_i hp
    refine .report ?_
    rw [reported, if_pos hp]
    exact Same.refl _
  · rename_i hp
    split
    · exact .same ⟨rfl, rfl, rfl, rfl, rfl⟩ (if_neg hp)
    · exact .same ⟨rfl, rfl, rfl, rfl, rfl⟩ (if_neg hp)

/-- Every step has one of these effects. -/
theorem step_effect {e : Event} (h : step s e = some t) : Effect s e t := by
  cases e with
  | databaseConnected i result => exact databaseConnected_effect h
  | brokerStarted i => exact brokerStarted_effect h
  | startBlockFound i result => exact startBlockFound_effect h
  | subscribed i result => exact subscribed_effect h
  | unsubscribed i result => exact unsubscribed_effect h
  | blocksProduced i => exact blocksProduced_effect h
  | insertionAwaited i => exact insertionAwaited_effect h
  | brokerStopped i => exact brokerStopped_effect h
  | next => exact next_effect h
  | brokerAwaited i => exact brokerAwaited_effect h
  | sent i failure => exact sent_effect h
  | start =>
    obtain rfl := Option.some.inj h
    exact .start
  | stop =>
    obtain rfl := Option.some.inj h
    exact .stop nofun rfl
  | delivered partition =>
    obtain rfl := Option.some.inj h
    exact delivered_effect s partition
  | resumed =>
    simp only [step] at h
    split at h
    · rename_i waiters result hr
      obtain rfl := Option.some.inj h
      exact .resume hr rfl
    · cases h
  | error error =>
    obtain ⟨_, ht⟩ := Option.ite_none_right_eq_some.mp h
    obtain rfl := Option.some.inj ht
    exact .report (Same.refl _)
  | closed =>
    obtain ⟨_, ht⟩ := Option.ite_none_right_eq_some.mp h
    obtain rfl := Option.some.inj ht
    exact .stop nofun rfl
  | connectCallback | disconnectCallback | inserted | kafkaError | disconnected =>
    obtain ⟨_, ht⟩ := Option.ite_none_right_eq_some.mp h
    obtain rfl := Option.some.inj ht
    exact .same ⟨rfl, rfl, rfl, rfl, rfl⟩ rfl

end ChainIndexer.Lifecycle
