import ChainIndexer.Core.History
import ChainIndexer.Lifecycle.Effect

/-!
# A stopped producer stays stopped

Nothing in the object says that the client has stopped it. A fatal error that a late
callback hands to `onError` restarts it, a late block connects the Kafka client
again, and a restart or a start that was under way when `stop` resolved goes on.
Where none of this happens the producer stays stopped.
-/

namespace ChainIndexer.Lifecycle

variable {s t u : State}

/-- A call of the client. -/
def Entry.byClient : Entry → Bool
  | .started | .stopped => true
  | .connect | .subscribe _ | .reported _ | .began | .ended | .fatalError _ => false

/-- The subscription is subscribed, or the Kafka client is connected. -/
def Entry.reaches : Entry → Bool
  | .connect | .subscribe _ => true
  | .started | .stopped | .reported _ | .began | .ended | .fatalError _ => false

/-- The client has stopped the producer and not started it again. -/
def Down (history : List Entry) : Prop := (history.filter Entry.byClient).getLast? = some .stopped

instance (history : List Entry) : Decidable (Down history) := inferInstanceAs (Decidable (_ = _))

/-- While the producer is down, nothing is subscribed or connected. -/
def StaysDown (history : List Entry) : Prop :=
  Each (fun before entry => entry.reaches = true → ¬ Down before) history

/-- Nothing is under way that goes on to start the producer. -/
structure Idle (s : State) : Prop where
  starts : ∀ start ∈ s.starts, start.awaits = .subscription
  stops : ∀ stop ∈ s.stops, stop.caller = .restart → s.forceStop = true

instance (s : State) : Decidable (Idle s) :=
  decidable_of_iff ((∀ start ∈ s.starts, start.awaits = .subscription) ∧
    ∀ stop ∈ s.stops, stop.caller = .restart → s.forceStop = true)
    ⟨fun h => ⟨h.1, h.2⟩, fun h => ⟨h.starts, h.stops⟩⟩

/-- While the producer is down no error begins a restart that would start it, and no block comes
that would connect the Kafka client; and a `stop` of the client resolves only while nothing is
under way that goes on to start the producer. -/
def KeepsDown (s : State) (e : Event) : Prop :=
  (Down s.history →
    (∀ error ∈ reported s e, Producer.onError error = .restarted → s.restart.isSome = true) ∧
      (e = .next → s.producerConnected = true ∨ s.producerConnecting = true)) ∧
    (returnsTo s e = some .client → Idle s)

instance (s : State) (e : Event) : Decidable (KeepsDown s e) :=
  inferInstanceAs (Decidable ((_ → _ ∧ _) ∧ (_ → _)))

/-- Entries that are neither calls of the client nor reach anything. -/
def Plain (entries : List Entry) : Prop :=
  ∀ entry ∈ entries, entry.byClient = false ∧ entry.reaches = false

/-- Entries that are no calls of the client leave the producer as it was. -/
theorem down_append {history entries : List Entry}
    (h : ∀ entry ∈ entries, entry.byClient = false) : Down (history ++ entries) ↔ Down history := by
  have hnone : entries.filter Entry.byClient = [] := by
    refine List.filter_eq_nil_iff.mpr fun entry hmem => ?_
    rw [h entry hmem]
    exact Bool.false_ne_true
  rw [Down, List.filter_append, hnone, List.append_nil, Down]

/-- Plain entries change nothing. -/
theorem Plain.append_iff {entries : List Entry} (h : Plain entries) (history : List Entry) :
    (Down (history ++ entries) ↔ Down history) ∧
      (StaysDown (history ++ entries) ↔ StaysDown history) := by
  refine ⟨down_append fun entry hmem => (h entry hmem).1, Each.append_iff ?_⟩
  intro entry hmem before hreaches
  rw [(h entry hmem).2] at hreaches
  cases hreaches

/-- Reports and the beginning of a restart reach nothing. -/
theorem Noted.plain {entries : List Entry} (h : Noted entries) : Plain entries := by
  intro entry hmem
  rcases h entry hmem with rfl | ⟨error, rfl⟩
  · exact ⟨rfl, rfl⟩
  · exact ⟨rfl, rfl⟩

/-- The same activations and restart leave the producer as idle. -/
theorem Idle.same (h : Idle s) (hsame : Same s t) : Idle t where
  starts := hsame.starts ▸ h.starts
  stops := by
    rw [hsame.stops, hsame.forceStop]
    exact h.stops

/-- An error that asks for no restart, or for one that runs already, starts nothing. -/
theorem Idle.onError (h : Idle s) {error : BaseError}
    (hr : Producer.onError error = .restarted → s.restart.isSome = true) :
    Idle (onError s error) ∧
      (s.restart.isSome = true → (onError s error).restart.isSome = true) := by
  unfold Lifecycle.onError restartBlockProducer
  dsimp only
  split
  · exact ⟨⟨h.starts, h.stops⟩, id⟩
  · rename_i hrestarted
    obtain ⟨restart, hsome⟩ := Option.isSome_iff_exists.mp (hr hrestarted)
    have hrestart : (record s (.reported error)).restart = some restart := hsome
    rw [hrestart]
    exact ⟨⟨h.starts, h.stops⟩, fun _ => rfl⟩
  · split
    · exact ⟨⟨h.starts, fun _ _ _ => rfl⟩, fun _ => rfl⟩
    · exact ⟨⟨h.starts, fun _ _ _ => rfl⟩, fun _ => rfl⟩

/-- Errors that begin no restart start nothing. -/
theorem Idle.onErrors {errors : List BaseError} (h : Idle s)
    (hr : ∀ error ∈ errors, Producer.onError error = .restarted → s.restart.isSome = true) :
    Idle (errors.foldl Lifecycle.onError s) := by
  induction errors generalizing s with
  | nil => exact h
  | cons error errors ih =>
    obtain ⟨hidle, hsome⟩ := h.onError (hr error List.mem_cons_self)
    exact ih hidle fun other hmem hrestarted =>
      hsome (hr other (List.mem_cons_of_mem _ hmem) hrestarted)

/-- An activation of `start` that returns starts nothing. -/
theorem Idle.startEnds (h : Idle s) (i : Nat) (caller : Caller) (result : Except Thrown Unit) :
    Idle (startEnds s i caller result) := by
  have hstarts : ∀ start ∈ s.starts.eraseIdx i, start.awaits = .subscription :=
    fun start hmem => h.starts start (List.mem_of_mem_eraseIdx hmem)
  cases caller with
  | client | closed | restart => exact ⟨hstarts, h.stops⟩

/-- A restart that is forced to stop starts nothing. -/
theorem Idle.stopEnds {i : Nat} {caller : Caller} {awaits : Stopping} (h : Idle s)
    (hi : s.stops[i]? = some ⟨caller, awaits⟩) (result : Except Thrown Unit) :
    Idle (stopEnds s i caller result) := by
  have hstops : ∀ stop ∈ s.stops.eraseIdx i, stop.caller = .restart → s.forceStop = true :=
    fun stop hmem => h.stops stop (List.mem_of_mem_eraseIdx hmem)
  cases caller with
  | client | closed => cases result <;> exact ⟨h.starts, hstops⟩
  | restart =>
    have hforced : s.forceStop = true := h.stops _ (List.mem_of_getElem? hi) rfl
    cases result with
    | error error => exact ⟨h.starts, hstops⟩
    | ok value =>
      dsimp only [Lifecycle.stopEnds]
      rw [if_pos hforced]
      exact ⟨h.starts, fun _ _ _ => hforced⟩

/-- The invariant: nothing was reached while the producer was down, and while it is down nothing
is under way that starts it. -/
structure Kept (s : State) : Prop where
  down : StaysDown s.history
  idle : Down s.history → Idle s

theorem Kept.init : Kept State.init := ⟨Each.nil, nofun⟩

/-- Entries that change nothing keep the invariant if the activations do. -/
theorem Kept.plain {entries : List Entry} (h : Kept s) (hplain : Plain entries)
    (hhistory : t.history = s.history ++ entries) (hidle : Down s.history → Idle t) : Kept t := by
  obtain ⟨hdown, hstays⟩ := hplain.append_iff s.history
  refine ⟨?_, fun hd => hidle ?_⟩
  · rw [hhistory]
    exact hstays.mpr h.down
  · rw [hhistory] at hd
    exact hdown.mp hd

/-- A producer that is not down may reach what it likes. -/
theorem Kept.reach {entry : Entry} (h : Kept s) (hup : ¬ Down s.history)
    (hentry : entry.byClient = false) (hhistory : t.history = s.history ++ [entry]) : Kept t := by
  refine ⟨?_, fun hd => absurd ?_ hup⟩
  · rw [hhistory]
    exact Each.snoc_iff.mpr ⟨h.down, fun _ => hup⟩
  · rw [hhistory] at hd
    exact (down_append (List.forall_mem_singleton.mpr hentry)).mp hd

/-- What is the same keeps the invariant. -/
theorem Kept.same (h : Kept s) (hsame : Same s t) : Kept t := by
  refine h.plain (show Plain [] from nofun) ?_ fun hd => (h.idle hd).same hsame
  rw [hsame.history, List.append_nil]

/-- An activation of `stop` that returns to the client brings the producer down. -/
theorem Kept.stopEnds {i : Nat} {caller : Caller} {awaits : Stopping}
    {result : Except Thrown Unit} (h : Kept s) (hi : s.stops[i]? = some ⟨caller, awaits⟩)
    (hclient : result = .ok () → caller = .client → Idle s) :
    Kept (stopEnds s i caller result) := by
  have hquiet : ∀ t : State, t.history = s.history → Idle t ∨ ¬ Down s.history → Kept t := by
    intro t hhistory hidle
    refine h.plain (show Plain [] from nofun) (hhistory.trans (List.append_nil _).symm) ?_
    exact fun hd => hidle.resolve_right fun hup => hup hd
  by_cases hd : Down s.history
  · have hidle := (h.idle hd).stopEnds hi result
    cases caller with
    | closed => cases result <;> exact hquiet _ rfl (Or.inl hidle)
    | restart =>
      cases result with
      | error error => exact hquiet _ rfl (Or.inl hidle)
      | ok value =>
        have hforced : s.forceStop = true := (h.idle hd).stops _ (List.mem_of_getElem? hi) rfl
        refine hquiet _ ?_ (Or.inl hidle)
        dsimp only [Lifecycle.stopEnds]
        rw [if_pos hforced]
        rfl
    | client =>
      cases result with
      | error error => exact hquiet _ rfl (Or.inl hidle)
      | ok value => exact ⟨Each.snoc_iff.mpr ⟨h.down, nofun⟩, fun _ => hidle⟩
  · cases caller with
    | closed => cases result <;> exact hquiet _ rfl (Or.inr hd)
    | restart =>
      cases result with
      | error error => exact hquiet _ rfl (Or.inr hd)
      | ok value =>
        refine hquiet _ ?_ (Or.inr hd)
        dsimp only [Lifecycle.stopEnds]
        split
        · rfl
        · rfl
    | client =>
      cases result with
      | error error => exact hquiet _ rfl (Or.inr hd)
      | ok value =>
        have hidle := (hclient rfl rfl).stopEnds hi (.ok ())
        exact ⟨Each.snoc_iff.mpr ⟨h.down, nofun⟩, fun _ => hidle⟩

/-- Every event keeps the invariant. -/
theorem step_kept {e : Event} (h : Kept s) (hg : KeepsDown s e) (hs : step s e = some t) :
    Kept t := by
  obtain ⟨hquiet, hclient⟩ := hg
  cases step_effect hs with
  | same hsame _ => exact h.same hsame
  | connect hconnected hconnecting hsame =>
    refine (h.reach (t := record s .connect) ?_ rfl rfl).same hsame
    intro hd
    have hopen := (hquiet hd).2 rfl
    rw [hconnected, hconnecting] at hopen
    simp at hopen
  | start =>
    refine ⟨Each.snoc_iff.mpr ⟨h.down, nofun⟩, fun hd => ?_⟩
    change Down (s.history ++ [.started]) at hd
    simp [Down, Entry.byClient] at hd
  | stop hne _ =>
    refine h.plain (show Plain [] from nofun) (List.append_nil _).symm fun hd => ?_
    refine ⟨(h.idle hd).starts, fun stop hmem hrestart => ?_⟩
    rcases List.mem_append.mp hmem with hold | hnew
    · exact (h.idle hd).stops stop hold hrestart
    · rw [List.mem_singleton.mp hnew] at hrestart
      exact absurd hrestart hne
  | startAdvances hi hne hadvance _ hsame =>
    have hup : ¬ Down s.history := fun hd => hne ((h.idle hd).starts _ (List.mem_of_getElem? hi))
    refine Kept.same ?_ hsame
    cases hadvance with
    | silent => exact h.plain (show Plain [] from nofun) rfl fun hd => absurd hd hup
    | connect => exact h.reach hup rfl rfl
    | subscribe => exact h.reach hup rfl rfl
  | @startEnds _ _ i awaits caller result hi _ hlast hsame =>
    refine Kept.same ?_ hsame
    obtain ⟨entries, hnoted, heq⟩ := onErrors_noted (reported s e) s
    have hhistory : (startEnds ((reported s e).foldl onError s) i caller result).history =
        s.history ++ entries := by
      rw [← heq]
      cases caller <;> rfl
    refine h.plain hnoted.plain hhistory fun hd => ?_
    have hawaits := (h.idle hd).starts _ (List.mem_of_getElem? hi)
    rw [hlast hawaits]
    exact (h.idle hd).startEnds i caller result
  | stopAdvances hi _ hsame =>
    refine Kept.same ?_ hsame
    refine h.plain (show Plain [] from nofun) (List.append_nil _).symm fun hd => ?_
    refine ⟨(h.idle hd).starts, fun stop hmem hrestart => ?_⟩
    rcases List.mem_or_eq_of_mem_set hmem with hold | rfl
    · exact (h.idle hd).stops stop hold hrestart
    · exact (h.idle hd).stops _ (List.mem_of_getElem? hi) hrestart
  | stopEnds hi hreturns _ hsame =>
    refine Kept.same (h.stopEnds hi fun hok hcaller => hclient ?_) hsame
    rw [hreturns hok, hcaller]
  | @resume restart result _ _ =>
    have hplain : Plain (.ended :: restart.waiters.flatMap (announcements result)) := by
      refine List.forall_mem_cons.mpr ⟨⟨rfl, rfl⟩, fun entry hmem => ?_⟩
      obtain ⟨error, _, hentry⟩ := List.mem_flatMap.mp hmem
      obtain ⟨raised, rfl⟩ := announcement_fatal hentry
      exact ⟨rfl, rfl⟩
    exact h.plain hplain rfl fun hd => ⟨(h.idle hd).starts, (h.idle hd).stops⟩
  | report hsame =>
    obtain ⟨entries, hnoted, heq⟩ := onErrors_noted (reported s e) s
    refine Kept.same ?_ hsame
    exact h.plain hnoted.plain heq fun hd => (h.idle hd).onErrors (hquiet hd).1

/-- In every run whose steps keep it down, a producer that the client has stopped neither
subscribes again nor connects the Kafka client until the client starts it. -/
theorem stays_down {es : List Event} (h : machine.Run KeepsDown State.init es s) :
    StaysDown s.history :=
  (h.invariant (fun _ _ _ hi hg hs => step_kept hi hg hs) Kept.init).down

/-- The client starts the producer, and everything succeeds. -/
def startUp : List Event :=
  [.start, .databaseConnected 0 (.ok ()), .connectCallback 0 (.ok ()), .brokerStarted 0,
    .startBlockFound 0 (.ok ()), .subscribed 0 (.ok ())]

/-- The client stops the producer, and everything succeeds. -/
def shutDown : List Event :=
  [.stop, .unsubscribed 0 (.ok ()), .disconnectCallback 0 (.ok ()), .brokerStopped 0]

/-- What a poller makes of a request that is rejected. -/
def rejectedRequest : BaseError :=
  BlockProducerError.createUnknown (.unknown "Invalid JSON RPC response")

/-- A request that the poller was awaiting is rejected after `stop` has resolved. -/
def lateRejection : List Event := startUp ++ shutDown ++
  [.error rejectedRequest, .unsubscribed 0 (.ok ()), .disconnectCallback 1 (.ok ()),
    .brokerStopped 0, .databaseConnected 0 (.ok ()), .connectCallback 1 (.ok ()),
    .brokerStarted 0, .startBlockFound 0 (.ok ())]

/-- The stopped producer connects and subscribes again. -/
theorem lateRejection_restarts : ∃ s, machine.Run Machine.Free State.init lateRejection s ∧
    s.history = [.started, .connect, .subscribe .client, .stopped, .reported rejectedRequest,
      .began, .connect, .subscribe .restart] ∧ ¬ StaysDown s.history := by
  obtain ⟨s, hr, hhistory⟩ : ∃ s, machine.Run Machine.Free State.init lateRejection s ∧
      s.history = [.started, .connect, .subscribe .client, .stopped, .reported rejectedRequest,
        .began, .connect, .subscribe .restart] := Machine.exists_run_of_exec (by decide)
  exact ⟨s, hr, hhistory, fun h => h [_, _, _, _, _, _] .connect _ hhistory rfl rfl⟩

/-- What a worker reports when a block does not come in time. -/
def timedOut : BaseError :=
  BlockProducerError.createUnknown (.unknown "timeout while fetching block")

/-- This error stops the producer for good instead. -/
def lateTimeout : List Event := startUp ++ shutDown ++
  [.error timedOut, .unsubscribed 0 (.ok ()), .disconnectCallback 1 (.ok ()), .brokerStopped 0,
    .resumed]

/-- The restart of a stopped producer reaches nothing, and the fatal error is emitted. -/
theorem lateTimeout_stays_down : ∃ s, machine.Run KeepsDown State.init lateTimeout s ∧
    s.history = [.started, .connect, .subscribe .client, .stopped, .reported timedOut, .began,
      .ended, .fatalError timedOut] ∧ StaysDown s.history := by
  obtain ⟨s, hr, hhistory⟩ : ∃ s, machine.Run KeepsDown State.init lateTimeout s ∧
      s.history = [.started, .connect, .subscribe .client, .stopped, .reported timedOut, .began,
        .ended, .fatalError timedOut] := Machine.exists_run_of_exec (by decide)
  exact ⟨s, hr, hhistory, stays_down hr⟩

end ChainIndexer.Lifecycle
