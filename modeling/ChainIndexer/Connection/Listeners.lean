import Mathlib.Data.List.Count
import ChainIndexer.Core.Observe
import ChainIndexer.Connection.State

/-!
# One listener for each event of the client

A connection is made whenever the producer is not connected, also after an error, which leaves
the listeners of the connection before it in place. `stop` runs `onDisconnected` itself after
the listener for the client's own event has run it. So an event of the client is forwarded once
exactly where nothing is connected over a listener, and no `stop` goes on after its
disconnection has been told already.
-/

namespace ChainIndexer.Connection

variable {s t : State} {e : Event}

/-- The error events of the class so far. -/
def State.errorEvents (s : State) : Nat :=
  s.emitted.countP fun emission => emission matches .error _

/-- The disconnected events of the class so far. -/
def State.disconnectedEvents (s : State) : Nat := s.emitted.count .disconnected

/-- How many events of the class the events of the client have led to. -/
structure Yields where
  /-- For each `event.error`, the `producer.error` events. -/
  errors : List Nat := []
  /-- For each disconnection by the broker, the `producer.disconnected` events. -/
  drops : List Nat := []
  /-- For each disconnection by `stop`, the `producer.disconnected` events. -/
  stops : Nat → Nat := fun _ => 0

/-- The disconnection by `stop` has led to more events. -/
def Yields.tell (y : Yields) (d count : Nat) : Yields :=
  { y with stops := fun c => if c = d then y.stops c + count else y.stops c }

/-- An event of the class is put down to the event of the client in which it is emitted. -/
def Yields.record (s : State) (e : Event) (t : State) (y : Yields) : Yields :=
  match e with
  | .clientError _ => { y with errors := y.errors ++ [t.errorEvents - s.errorEvents] }
  | .disconnected none =>
    { y with drops := y.drops ++ [t.disconnectedEvents - s.disconnectedEvents] }
  | .disconnected (some d) => y.tell d (t.disconnectedEvents - s.disconnectedEvents)
  | .disconnectAwaited i =>
    match s.stopping[i]? with
    | some d => y.tell d (t.disconnectedEvents - s.disconnectedEvents)
    | none => y
  | _ => y

/-- The producer with what its client's events have led to. -/
def forwarding : Machine (State × Yields) Event := machine.observe Yields.record

/-- The client was disconnected by this call of `disconnect`, and every `stop` that awaited it
has gone on. -/
def Over (s : State) (d : Nat) : Prop :=
  d ∉ s.stopping ∧ ∃ disconnection, s.disconnections[d]? = some disconnection ∧
    (disconnection.announced = true ∧ disconnection.outcome.isSome = true ∨
      disconnection.outcome = some none)

/-- One listener of the class at most is registered for each event of the client, every error
and every disconnection by the broker was forwarded once, and every disconnection by `stop` once
at most, and once where it is over. -/
structure Forwarded (p : State × Yields) : Prop where
  errorListeners : p.1.errorListeners ≤ 1
  disconnectedListeners : p.1.disconnectedListeners ≤ 1
  errors : ∀ count ∈ p.2.errors, count = 1
  drops : ∀ count ∈ p.2.drops, count = 1
  stops : ∀ d, p.2.stops d ≤ 1
  ended : ∀ d, Over p.1 d → p.2.stops d = 1

/-- A connection is made only where no listener is registered, the client reports only to a
listener, and `stop` goes on only where its disconnection has not been told, or, where
`disconnect` failed, has been told unless another `stop` awaits it or nothing was disconnected. -/
def Orderly (s : State) (y : Yields) : Event → Prop
  | .start | .sendToInternalProducer => needsConnection s = true → s.errorListeners = 0
  | .clientError _ => s.errorListeners ≠ 0
  | .disconnected none => s.disconnectedListeners ≠ 0
  | .disconnectAwaited i => ∀ d ∈ s.stopping[i]?, ∀ disconnection ∈ s.disconnections[d]?,
      (disconnection.outcome = some none → y.stops d = 0) ∧
      (disconnection.outcome ≠ some none → disconnection.announced = true →
        d ∉ s.stopping.eraseIdx i → y.stops d = 1)
  | _ => True

instance (s : State) (y : Yields) : (e : Event) → Decidable (Orderly s y e)
  | .start | .sendToInternalProducer => inferInstanceAs (Decidable (_ → _))
  | .clientError _ | .disconnected none => inferInstanceAs (Decidable (_ ≠ _))
  | .disconnectAwaited i =>
    inferInstanceAs (Decidable (∀ d ∈ s.stopping[i]?, ∀ disconnection ∈ s.disconnections[d]?,
      (disconnection.outcome = some none → y.stops d = 0) ∧
      (disconnection.outcome ≠ some none → disconnection.announced = true →
        d ∉ s.stopping.eraseIdx i → y.stops d = 1)))
  | .connectCallback .. | .connectAwaited _ | .produced _ | .disconnected (some _) | .stop
  | .disconnectCallback .. => .isTrue trivial

/-! ## The listeners at work -/

theorem runListeners_onKafkaError (error : BaseError) (count : Nat) (s : State) :
    runListeners (onKafkaError · error) count s = { s with
      emitted := s.emitted ++ List.replicate count (.error error)
      producerConnected := s.producerConnected && count == 0 } := by
  induction count generalizing s with
  | zero => simp [runListeners]
  | succ count ih =>
    rw [runListeners, ih]
    simp [onKafkaError, List.replicate_succ]

/-- All the listeners run, although the first of them removes them. -/
theorem runListeners_onDisconnected (count : Nat) (s : State) :
    runListeners onDisconnected count s = { s with
      producerConnected := s.producerConnected && count == 0
      emitted := s.emitted ++ List.replicate count .disconnected
      errorListeners := if count = 0 then s.errorListeners else 0
      disconnectedListeners := if count = 0 then s.disconnectedListeners else 0 } := by
  induction count generalizing s with
  | zero => simp [runListeners]
  | succ count ih =>
    rw [runListeners, ih]
    simp [onDisconnected, List.replicate_succ]

/-- An error of the client is emitted once for each listener. -/
theorem clientError_errorEvents (s : State) (error : LibrdKafkaError) :
    (clientError s error).errorEvents - s.errorEvents = s.errorListeners := by
  rw [clientError, runListeners_onKafkaError]
  simp [State.errorEvents, List.countP_replicate]

/-- A disconnection is emitted once for each listener. -/
theorem announce_disconnectedEvents (s : State) :
    (announce s).disconnectedEvents - s.disconnectedEvents = s.disconnectedListeners := by
  rw [announce, runListeners_onDisconnected]
  simp [State.disconnectedEvents]

/-! ## What a step changes -/

/-- Neither the listeners nor the disconnections have moved. -/
structure SameClient (s t : State) : Prop where
  errorListeners : t.errorListeners = s.errorListeners
  disconnectedListeners : t.disconnectedListeners = s.disconnectedListeners
  disconnections : t.disconnections = s.disconnections
  stopping : t.stopping = s.stopping

/-- `start` registers a listener for each event where it connects. -/
theorem start_listeners (s : State) (sending : Bool) :
    (start s sending).disconnections = s.disconnections ∧
      (start s sending).stopping = s.stopping ∧
      (start s sending).errorListeners =
        s.errorListeners + (if needsConnection s then 1 else 0) ∧
      (start s sending).disconnectedListeners =
        s.disconnectedListeners + (if needsConnection s then 1 else 0) := by
  unfold start
  split
  · exact ⟨rfl, rfl, rfl, rfl⟩
  · exact ⟨rfl, rfl, rfl, rfl⟩

/-- `sendToInternalProducer` registers listeners where it has to connect. -/
theorem sendToInternalProducer_listeners (s : State) :
    (sendToInternalProducer s).disconnections = s.disconnections ∧
      (sendToInternalProducer s).stopping = s.stopping ∧
      (sendToInternalProducer s).errorListeners =
        s.errorListeners + (if needsConnection s then 1 else 0) ∧
      (sendToInternalProducer s).disconnectedListeners =
        s.disconnectedListeners + (if needsConnection s then 1 else 0) := by
  unfold sendToInternalProducer
  split
  · rename_i hconnected
    simp [needsConnection, hconnected]
  · exact start_listeners s true

private theorem connectCallback_same {c : Nat} {failure : Option LibrdKafkaError}
    (h : connectCallback s c failure = some t) : SameClient s t := by
  unfold connectCallback at h
  split at h
  · cases h
    exact ⟨rfl, rfl, rfl, rfl⟩
  · cases h

private theorem connectAwaited_same {i : Nat} (h : connectAwaited s i = some t) :
    SameClient s t := by
  unfold connectAwaited at h
  split at h
  · cases h
  · dsimp only at h
    split at h
    · cases h
    · cases h
      split
      · exact ⟨rfl, rfl, rfl, rfl⟩
      · exact ⟨rfl, rfl, rfl, rfl⟩
    · cases h
      split
      · exact ⟨rfl, rfl, rfl, rfl⟩
      · exact ⟨rfl, rfl, rfl, rfl⟩

private theorem produced_same {failure : Option Thrown} (h : produced s failure = some t) :
    SameClient s t := by
  unfold produced at h
  split at h
  · cases h
  · cases failure with
    | none =>
      cases h
      exact ⟨rfl, rfl, rfl, rfl⟩
    | some error =>
      cases h
      exact ⟨rfl, rfl, rfl, rfl⟩

private theorem clientError_same (s : State) (error : LibrdKafkaError) :
    SameClient s (clientError s error) := by
  rw [clientError, runListeners_onKafkaError]
  exact ⟨rfl, rfl, rfl, rfl⟩

/-- A client that announces a disconnection leaves no listener. -/
theorem announce_listeners (h : s.disconnectedListeners = s.errorListeners) :
    (announce s).disconnections = s.disconnections ∧ (announce s).stopping = s.stopping ∧
      (announce s).errorListeners = 0 ∧
      (announce s).disconnectedListeners = (announce s).errorListeners := by
  rw [announce, runListeners_onDisconnected, ← h]
  cases hcount : s.disconnectedListeners with
  | zero => exact ⟨rfl, rfl, rfl, rfl⟩
  | succ count => exact ⟨rfl, rfl, rfl, rfl⟩

theorem tell_stops_self (y : Yields) (d count : Nat) :
    (y.tell d count).stops d = y.stops d + count := by
  simp [Yields.tell]

theorem tell_stops_ne (y : Yields) {c d : Nat} (h : c ≠ d) (count : Nat) :
    (y.tell d count).stops c = y.stops c := by
  simp [Yields.tell, h]

/-! ## One step -/

/-- A disconnection by `stop` is told once at most and once when it is over. One that is only
asked for has not been told, and one whose callback has not run is awaited. -/
structure Told (p : State × Yields) (d : Nat) : Prop where
  once : p.2.stops d ≤ 1
  ended : Over p.1 d → p.2.stops d = 1
  asked : (∀ disconnection ∈ p.1.disconnections[d]?, disconnection = ⟨false, none⟩) →
    p.2.stops d = 0
  awaited : ∀ disconnection, p.1.disconnections[d]? = some disconnection →
    disconnection.outcome = none → d ∈ p.1.stopping

/-- The listeners come in pairs, one at most, and everything has been told once. -/
structure Kept (p : State × Yields) : Prop where
  pair : p.1.disconnectedListeners = p.1.errorListeners
  single : p.1.errorListeners ≤ 1
  errors : ∀ count ∈ p.2.errors, count = 1
  drops : ∀ count ∈ p.2.drops, count = 1
  told : ∀ d, Told p d

variable {y z : Yields}

/-- Then every error and every disconnection has been forwarded once. -/
theorem Kept.forwarded {p : State × Yields} (h : Kept p) : Forwarded p where
  errorListeners := h.single
  disconnectedListeners := h.pair ▸ h.single
  errors := h.errors
  drops := h.drops
  stops d := (h.told d).once
  ended d := (h.told d).ended

/-- Nothing about this disconnection has moved, and who awaited it still does. -/
theorem Told.congr {d : Nat} (h : Told (s, y) d)
    (hdisconnection : t.disconnections[d]? = s.disconnections[d]?)
    (hstopping : d ∈ s.stopping → d ∈ t.stopping) (hstops : z.stops d = y.stops d) :
    Told (t, z) d where
  once := hstops ▸ h.once
  ended hover := by
    refine hstops.trans (h.ended ⟨fun hmem => hover.1 (hstopping hmem), ?_⟩)
    rw [← hdisconnection]
    exact hover.2
  asked hasked := by
    dsimp only at hasked
    rw [hdisconnection] at hasked
    exact hstops.trans (h.asked hasked)
  awaited disconnection hat hnone := by
    dsimp only at hat
    rw [hdisconnection] at hat
    exact hstopping (h.awaited disconnection hat hnone)

/-- No disconnection by `stop` has moved. -/
theorem Kept.undisturbed (h : Kept (s, y)) (hdisconnections : t.disconnections = s.disconnections)
    (hstopping : t.stopping = s.stopping) (hstops : z.stops = y.stops) (d : Nat) :
    Told (t, z) d :=
  (h.told d).congr (by rw [hdisconnections]) (by rw [hstopping]; exact id) (by rw [hstops])

/-- What does not touch the client keeps the invariant. -/
theorem Kept.same (h : Kept (s, y)) (hs : SameClient s t) : Kept (t, y) where
  pair := hs.disconnectedListeners.trans (h.pair.trans hs.errorListeners.symm)
  single := Nat.le_trans (Nat.le_of_eq hs.errorListeners) h.single
  errors := h.errors
  drops := h.drops
  told := h.undisturbed hs.disconnections hs.stopping rfl

/-- What is proved of each step. -/
abbrev Keeps (s : State) (y : Yields) (e : Event) (t : State) : Prop :=
  (Forwarded (t, Yields.record s e t y) ↔ Orderly s y e) ∧
    (Orderly s y e → Kept (t, Yields.record s e t y))

theorem Kept.keeps (hkept : Kept (t, Yields.record s e t y)) (he : Orderly s y e) :
    Keeps s y e t :=
  ⟨iff_of_true hkept.forwarded he, fun _ => hkept⟩

/-- Connecting over a listener is what registers a second one. -/
theorem Kept.connects (h : Kept (s, y)) (hdisconnections : t.disconnections = s.disconnections)
    (hstopping : t.stopping = s.stopping)
    (herror : t.errorListeners = s.errorListeners + if needsConnection s then 1 else 0)
    (hdisconnected : t.disconnectedListeners =
      s.disconnectedListeners + if needsConnection s then 1 else 0) :
    (Forwarded (t, y) ↔ (needsConnection s = true → s.errorListeners = 0)) ∧
      ((needsConnection s = true → s.errorListeners = 0) → Kept (t, y)) := by
  have hsingle : s.errorListeners ≤ 1 := h.single
  have hpair : s.disconnectedListeners = s.errorListeners := h.pair
  have hkept : (needsConnection s = true → s.errorListeners = 0) → Kept (t, y) := by
    intro hnone
    refine ⟨?_, ?_, h.errors, h.drops, h.undisturbed hdisconnections hstopping rfl⟩
    · rw [herror, hdisconnected, hpair]
    · rw [herror]
      split
      · rename_i hneeds
        exact Nat.le_of_eq (by rw [hnone hneeds])
      · exact hsingle
  refine ⟨⟨fun hforwarded hneeds => ?_, fun hnone => (hkept hnone).forwarded⟩, hkept⟩
  have hlt : t.errorListeners ≤ 1 := hforwarded.errorListeners
  rw [herror, if_pos hneeds] at hlt
  omega

/-- Where every count is one, it still is with one more count of one. -/
theorem count_append {counts : List Nat} {count : Nat} (h : ∀ c ∈ counts, c = 1)
    (hle : count ≤ 1) (hne : count ≠ 0) : ∀ c ∈ counts ++ [count], c = 1 := by
  intro c hc
  obtain hold | hnew := List.mem_append.mp hc
  · exact h c hold
  · rw [List.mem_singleton.mp hnew]
    omega

/-- An error of the client is forwarded once exactly where it finds a listener. -/
theorem Kept.clientError (h : Kept (s, y)) (error : LibrdKafkaError) :
    Keeps s y (.clientError error) (clientError s error) := by
  have hrecord : Yields.record s (.clientError error) (Connection.clientError s error) y =
      { y with errors := y.errors ++ [s.errorListeners] } := by
    rw [Yields.record, clientError_errorEvents]
  have hsame := clientError_same s error
  have hkept : s.errorListeners ≠ 0 → Kept (Connection.clientError s error,
      { y with errors := y.errors ++ [s.errorListeners] }) := by
    intro hne
    exact ⟨(h.same hsame).pair, (h.same hsame).single, count_append h.errors h.single hne,
      h.drops, h.undisturbed hsame.disconnections hsame.stopping rfl⟩
  rw [Keeps, hrecord]
  refine ⟨⟨fun hforwarded hzero => ?_, fun hne => (hkept hne).forwarded⟩, hkept⟩
  have hone := hforwarded.errors s.errorListeners (by simp)
  omega

/-- A disconnection by the broker is forwarded once exactly where it finds a listener. -/
theorem Kept.dropped (h : Kept (s, y)) : Keeps s y (.disconnected none) (announce s) := by
  have hsingle : s.disconnectedListeners ≤ 1 := h.pair ▸ h.single
  have hrecord : Yields.record s (.disconnected none) (announce s) y =
      { y with drops := y.drops ++ [s.disconnectedListeners] } := by
    rw [Yields.record, announce_disconnectedEvents]
  obtain ⟨hdisconnections, hstopping, hnone, hpair⟩ := announce_listeners h.pair
  have hkept : s.disconnectedListeners ≠ 0 → Kept (announce s,
      { y with drops := y.drops ++ [s.disconnectedListeners] }) := by
    intro hne
    exact ⟨hpair, hnone ▸ Nat.zero_le 1, h.errors, count_append h.drops hsingle hne,
      h.undisturbed hdisconnections hstopping rfl⟩
  rw [Keeps, hrecord]
  refine ⟨⟨fun hforwarded hzero => ?_, fun hne => (hkept hne).forwarded⟩, hkept⟩
  have hone := hforwarded.drops s.disconnectedListeners (by simp)
  omega

/-- The announcement of a disconnection by `stop` finds one listener at most. -/
theorem Kept.announced (h : Kept (s, y)) {d : Nat} (hs : disconnected s (some d) = some t) :
    Kept (t, Yields.record s (.disconnected (some d)) t y) := by
  simp only [disconnected] at hs
  split at hs
  · rename_i hd
    obtain rfl := Option.some.inj hs
    have hsingle : s.disconnectedListeners ≤ 1 := h.pair ▸ h.single
    obtain ⟨hlt, _⟩ := List.getElem?_eq_some_iff.mp hd
    have hrecord : Yields.record s (.disconnected (some d))
        (announce { s with disconnections := s.disconnections.set d ⟨true, none⟩ }) y =
        y.tell d s.disconnectedListeners := by
      rw [Yields.record]
      exact congrArg (y.tell d) (announce_disconnectedEvents
        { s with disconnections := s.disconnections.set d ⟨true, none⟩ })
    obtain ⟨hdisconnections, hstopping, hnone, hpair⟩ := announce_listeners
      (s := { s with disconnections := s.disconnections.set d ⟨true, none⟩ }) h.pair
    have hself : (s.disconnections.set d ⟨true, none⟩)[d]? = some ⟨true, none⟩ :=
      List.getElem?_set_self hlt
    rw [hrecord]
    refine ⟨hpair, hnone ▸ Nat.zero_le 1, h.errors, h.drops, fun c => ?_⟩
    by_cases hc : c = d
    · subst hc
      have hstops : y.stops c = 0 := (h.told c).asked (by simp [hd])
      refine ⟨?_, ?_, ?_, ?_⟩
      · rw [tell_stops_self, hstops, Nat.zero_add]
        exact hsingle
      · rintro ⟨_, disconnection, hat, hover⟩
        rw [hdisconnections, hself] at hat
        obtain rfl := Option.some.inj hat
        simp at hover
      · intro hasked
        dsimp only at hasked
        rw [hdisconnections] at hasked
        cases hasked _ hself
      · intro _ _ _
        dsimp only
        rw [hstopping]
        exact (h.told c).awaited _ hd rfl
    · refine (h.told c).congr ?_ (by rw [hstopping]; exact id) (tell_stops_ne y hc _)
      rw [hdisconnections]
      exact List.getElem?_set_ne (Ne.symm hc)
  · cases hs

/-- A call of `stop` awaits a disconnection that has led to nothing, or one that is awaited. -/
theorem Kept.stop (h : Kept (s, y)) : Kept (stop s, y) := by
  unfold Connection.stop
  split
  · exact ⟨h.pair, h.single, h.errors, h.drops,
      fun c => (h.told c).congr rfl (List.mem_append_left _) rfl⟩
  · refine ⟨h.pair, h.single, h.errors, h.drops, fun c => ?_⟩
    have hat : s.disconnections.length ∈ s.stopping ++ [s.disconnections.length] :=
      List.mem_append_right _ (List.mem_singleton_self _)
    rcases Nat.lt_trichotomy c s.disconnections.length with hlt | rfl | hgt
    · exact (h.told c).congr (List.getElem?_append_left hlt) (List.mem_append_left _) rfl
    · have hstops : y.stops s.disconnections.length = 0 := (h.told _).asked (by simp)
      exact ⟨Nat.le_trans (Nat.le_of_eq hstops) (Nat.zero_le 1), fun hover => absurd hat hover.1,
        fun _ => hstops, fun _ _ _ => hat⟩
    · have hlength : (s.disconnections ++ [⟨false, none⟩] : List Disconnection).length ≤ c := by
        simpa using Nat.succ_le_of_lt hgt
      refine (h.told c).congr ?_ (List.mem_append_left _) rfl
      rw [List.getElem?_eq_none (Nat.le_of_lt hgt)]
      exact List.getElem?_eq_none hlength

/-- The callback of `disconnect` runs while some `stop` awaits it. -/
theorem Kept.disconnectCallback (h : Kept (s, y)) {d : Nat} {failure : Option LibrdKafkaError}
    (hs : disconnectCallback s d failure = some t) : Kept (t, y) := by
  unfold Connection.disconnectCallback at hs
  split at hs
  · rename_i announced hd
    obtain rfl := Option.some.inj hs
    obtain ⟨hlt, _⟩ := List.getElem?_eq_some_iff.mp hd
    have hself : (s.disconnections.set d ⟨announced, some failure⟩)[d]? =
        some ⟨announced, some failure⟩ := List.getElem?_set_self hlt
    have hawaited := (h.told d).awaited _ hd rfl
    refine ⟨h.pair, h.single, h.errors, h.drops, fun c => ?_⟩
    by_cases hc : c = d
    · subst hc
      exact ⟨(h.told c).once, fun hover => absurd hawaited hover.1,
        fun hasked => (by cases hasked _ hself), fun _ _ _ => hawaited⟩
    · exact (h.told c).congr (List.getElem?_set_ne (Ne.symm hc)) id rfl
  · cases hs

/-- A `stop` goes on when `disconnect` has called back, and tells a disconnection that has
succeeded. -/
theorem disconnectAwaited_cases {i : Nat} (hs : disconnectAwaited s i = some t) :
    ∃ d disconnection, s.stopping[i]? = some d ∧ s.disconnections[d]? = some disconnection ∧
      t.disconnections = s.disconnections ∧ t.stopping = s.stopping.eraseIdx i ∧
      (disconnection.outcome = some none ∧ t.errorListeners = 0 ∧ t.disconnectedListeners = 0 ∧
          t.disconnectedEvents = s.disconnectedEvents + 1 ∨
        (∃ error, disconnection.outcome = some (some error)) ∧
          t.errorListeners = s.errorListeners ∧
          t.disconnectedListeners = s.disconnectedListeners ∧
          t.disconnectedEvents = s.disconnectedEvents) := by
  unfold disconnectAwaited at hs
  split at hs
  · cases hs
  · rename_i d hd
    split at hs
    · cases hs
    · rename_i failure hfailure
      obtain ⟨disconnection, hdisconnection, houtcome⟩ := Option.bind_eq_some_iff.mp hfailure
      refine ⟨d, disconnection, hd, hdisconnection, ?_⟩
      obtain rfl := Option.some.inj hs
      cases failure with
      | none =>
        exact ⟨rfl, rfl, Or.inl ⟨houtcome, rfl, rfl,
          by simp [State.disconnectedEvents, onDisconnected]⟩⟩
      | some error => exact ⟨rfl, rfl, Or.inr ⟨⟨error, houtcome⟩, rfl, rfl, rfl⟩⟩

/-- A `stop` that goes on changes only what is told of its own disconnection. -/
theorem Kept.goesOn (h : Kept (s, y)) {i d count : Nat} {disconnection : Disconnection}
    (hd : s.stopping[i]? = some d) (hdisconnection : s.disconnections[d]? = some disconnection)
    (houtcome : disconnection.outcome ≠ none)
    (hdisconnections : t.disconnections = s.disconnections)
    (hstopping : t.stopping = s.stopping.eraseIdx i) (honce : y.stops d + count ≤ 1)
    (hover : Over t d → y.stops d + count = 1) (c : Nat) : Told (t, y.tell d count) c := by
  by_cases hc : c = d
  · subst hc
    have hself : t.disconnections[c]? = some disconnection := by
      rw [hdisconnections, hdisconnection]
    rw [← tell_stops_self y c count] at honce hover
    refine ⟨honce, hover, fun hasked => ?_, fun other hother hnone => ?_⟩
    · exact absurd (congrArg Disconnection.outcome (hasked _ hself)) houtcome
    · obtain rfl := Option.some.inj (hself.symm.trans hother)
      exact absurd hnone houtcome
  · refine (h.told c).congr (by rw [hdisconnections]) (fun hmem => ?_) (tell_stops_ne y hc _)
    rw [hstopping, List.mem_eraseIdx_iff_getElem?]
    obtain ⟨k, hk⟩ := List.getElem?_of_mem hmem
    refine ⟨k, ?_, hk⟩
    rintro rfl
    exact hc (Option.some.inj (hk.symm.trans hd))

/-- A `stop` that goes on leaves its disconnection told once exactly where it is the first to
tell it, or where `disconnect` failed and it is not the last to leave it untold. -/
theorem Kept.disconnectAwaited (h : Kept (s, y)) {i : Nat} (hs : disconnectAwaited s i = some t) :
    Keeps s y (.disconnectAwaited i) t := by
  obtain ⟨d, disconnection, hd, hdisconnection, hdisconnections, hstopping, hcases⟩ :=
    disconnectAwaited_cases hs
  have horderly : Orderly s y (.disconnectAwaited i) ↔
      (disconnection.outcome = some none → y.stops d = 0) ∧
      (disconnection.outcome ≠ some none → disconnection.announced = true →
        d ∉ t.stopping → y.stops d = 1) := by
    simp [Orderly, hd, hdisconnection, hstopping]
  have hrecord : Yields.record s (.disconnectAwaited i) t y =
      y.tell d (t.disconnectedEvents - s.disconnectedEvents) := by
    simp [Yields.record, hd]
  rw [Keeps, hrecord, horderly]
  obtain ⟨houtcome, herror, hdisconnected, hevents⟩ |
    ⟨⟨error, houtcome⟩, herror, hdisconnected, hevents⟩ := hcases
  · rw [hevents, Nat.add_sub_cancel_left]
    have hkept : y.stops d = 0 → Kept (t, y.tell d 1) := by
      intro hstops
      refine ⟨hdisconnected.trans herror.symm, Nat.le_trans (Nat.le_of_eq herror) (Nat.zero_le 1),
        h.errors, h.drops, h.goesOn hd hdisconnection (by simp [houtcome]) hdisconnections hstopping
          (by omega) fun _ => by omega⟩
    refine ⟨⟨fun hforwarded => ⟨fun _ => ?_, fun hne => absurd houtcome hne⟩,
      fun hall => (hkept (hall.1 houtcome)).forwarded⟩, fun hall => hkept (hall.1 houtcome)⟩
    have honce := hforwarded.stops d
    rw [tell_stops_self] at honce
    omega
  · rw [hevents, Nat.sub_self]
    have hfailed : disconnection.outcome ≠ some none := by simp [houtcome]
    have hover : Over t d ↔ disconnection.announced = true ∧ d ∉ t.stopping := by
      simp [Over, hdisconnections, hdisconnection, houtcome, and_comm]
    have hkept : (disconnection.announced = true → d ∉ t.stopping → y.stops d = 1) →
        Kept (t, y.tell d 0) := by
      intro hlast
      refine ⟨hdisconnected.trans (h.pair.trans herror.symm),
        Nat.le_trans (Nat.le_of_eq herror) h.single, h.errors, h.drops,
        h.goesOn hd hdisconnection (by simp [houtcome]) hdisconnections hstopping
          (h.told d).once fun hd => ?_⟩
      obtain ⟨hannounced, hnot⟩ := hover.mp hd
      exact hlast hannounced hnot
    refine ⟨⟨fun hforwarded => ⟨fun hnone => absurd hnone hfailed, fun _ hannounced hnot => ?_⟩,
      fun hall => (hkept (hall.2 hfailed)).forwarded⟩, fun hall => hkept (hall.2 hfailed)⟩
    have hone := hforwarded.ended d (hover.mpr ⟨hannounced, hnot⟩)
    rwa [tell_stops_self] at hone

/-- Every step forwards the events of the client once exactly when it is orderly. -/
theorem Kept.step (h : Kept (s, y)) (hs : step s e = some t) : Keeps s y e t := by
  cases e with
  | start =>
    obtain rfl := Option.some.inj hs
    obtain ⟨hdisconnections, hstopping, herror, hdisconnected⟩ := start_listeners s false
    exact h.connects hdisconnections hstopping herror hdisconnected
  | sendToInternalProducer =>
    obtain rfl := Option.some.inj hs
    obtain ⟨hdisconnections, hstopping, herror, hdisconnected⟩ := sendToInternalProducer_listeners s
    exact h.connects hdisconnections hstopping herror hdisconnected
  | connectCallback c failure => exact (h.same (connectCallback_same hs)).keeps trivial
  | connectAwaited i => exact (h.same (connectAwaited_same hs)).keeps trivial
  | produced failure => exact (h.same (produced_same hs)).keeps trivial
  | clientError error =>
    obtain rfl := Option.some.inj hs
    exact h.clientError error
  | disconnected d =>
    cases d with
    | none =>
      obtain rfl := Option.some.inj hs
      exact h.dropped
    | some d => exact (h.announced hs).keeps trivial
  | stop =>
    obtain rfl := Option.some.inj hs
    exact h.stop.keeps trivial
  | disconnectCallback d failure => exact (h.disconnectCallback hs).keeps trivial
  | disconnectAwaited i => exact h.disconnectAwaited hs

theorem Kept.init : Kept (.init, {}) where
  pair := rfl
  single := Nat.zero_le 1
  errors _ hcount := absurd hcount List.not_mem_nil
  drops _ hcount := absurd hcount List.not_mem_nil
  told d :=
    { once := Nat.zero_le 1
      ended := fun ⟨_, _, hat, _⟩ => by simp [State.init] at hat
      asked := fun _ => rfl
      awaited := fun _ hat => by simp [State.init] at hat }

variable {p : State × Yields} {es : List Event}

/-- A history has one listener for each event of the client at any time, and forwards every
event of the client once, exactly when all its steps are orderly. -/
theorem forwarded_once_iff (h : forwarding.Run Machine.Free (.init, {}) es p) :
    (∀ fs q, fs <+: es → forwarding.Run Machine.Free (.init, {}) fs q → Forwarded q) ↔
      forwarding.Run (fun q e => Orderly q.1 q.2 e) (.init, {}) es p := by
  have hstep : ∀ q e r, Kept q → forwarding.step q e = some r →
      (Forwarded r ↔ Orderly q.1 q.2 e) ∧ (Orderly q.1 q.2 e → Kept r) := by
    rintro ⟨s, y⟩ e ⟨t, z⟩ hq hs
    obtain ⟨hstep, rfl⟩ := Machine.observe_step.mp hs
    exact hq.step hstep
  exact h.always_iff_guarded (fun _ hq => Kept.forwarded hq) hstep Kept.init

/-- An error that leaves the connection up. -/
def brokerError : LibrdKafkaError := ⟨"Local: Broker transport failure", -195, false, "local"⟩

/-- A message is sent after an error, there is another error, and the producer is stopped. -/
def sentAfterError : List Event :=
  [.start, .connectCallback 0 none, .connectAwaited 0, .clientError brokerError,
    .sendToInternalProducer, .connectCallback 1 none, .connectAwaited 0, .produced none,
    .clientError brokerError]

/-- A producer is started and stopped. -/
def startedAndStopped : List Event :=
  [.start, .connectCallback 0 none, .connectAwaited 0, .stop, .disconnected (some 0),
    .disconnectCallback 0 none, .disconnectAwaited 0]

/-- The second error is forwarded twice, and so is the disconnection by `stop`. -/
theorem sentAfterError_twice :
    (∃ p, forwarding.Run Machine.Free (.init, {}) sentAfterError p ∧
      p.1.errorListeners = 2 ∧ p.1.disconnectedListeners = 2 ∧ p.2.errors = [1, 2] ∧
      ¬ Forwarded p) ∧
    ∃ p, forwarding.Run Machine.Free (.init, {}) startedAndStopped p ∧
      Over p.1 0 ∧ p.2.stops 0 = 2 ∧ ¬ Forwarded p := by
  obtain ⟨p, hp, herror, hdisconnected, herrors⟩ : ∃ p,
      forwarding.Run Machine.Free (.init, {}) sentAfterError p ∧ p.1.errorListeners = 2 ∧
        p.1.disconnectedListeners = 2 ∧ p.2.errors = [1, 2] :=
    Machine.exists_run_of_exec (by decide)
  obtain ⟨q, hq, hstopping, hdisconnection, hstops⟩ : ∃ q,
      forwarding.Run Machine.Free (.init, {}) startedAndStopped q ∧ q.1.stopping = [] ∧
        q.1.disconnections = [⟨true, some none⟩] ∧ q.2.stops 0 = 2 :=
    Machine.exists_run_of_exec (by decide)
  refine ⟨⟨p, hp, herror, hdisconnected, herrors, fun hforwarded => ?_⟩, q, hq, ?_, hstops,
    fun hforwarded => ?_⟩
  · have hle := hforwarded.errorListeners
    omega
  · exact ⟨by simp [hstopping], _, by rw [hdisconnection]; rfl, Or.inr rfl⟩
  · have hle := hforwarded.stops 0
    omega

/-- The broker disconnects the client after an error, and a message is sent over a new
connection; then the broker disconnects it again and the producer is stopped. -/
def disconnectedByBroker : List Event :=
  [.start, .connectCallback 0 none, .connectAwaited 0, .clientError brokerError,
    .disconnected none, .sendToInternalProducer, .connectCallback 1 none, .connectAwaited 0,
    .produced none, .disconnected none, .stop, .disconnected (some 0),
    .disconnectCallback 0 none, .disconnectAwaited 0]

/-- One error, two disconnections by the broker and a stop are forwarded once each. -/
theorem disconnectedByBroker_once : ∃ p,
    forwarding.Run Machine.Free (.init, {}) disconnectedByBroker p ∧
      p.2.errors = [1] ∧ p.2.drops = [1, 1] ∧ p.2.stops 0 = 1 ∧
      ∀ fs q, fs <+: disconnectedByBroker → forwarding.Run Machine.Free (.init, {}) fs q →
        Forwarded q := by
  obtain ⟨p, hr, herrors, hdrops, hstops⟩ : ∃ p,
      forwarding.Run (fun q e => Orderly q.1 q.2 e) (.init, {}) disconnectedByBroker p ∧
        p.2.errors = [1] ∧ p.2.drops = [1, 1] ∧ p.2.stops 0 = 1 :=
    Machine.exists_run_of_exec (by decide)
  have hfree := hr.mono (H := Machine.Free) fun _ _ _ => trivial
  exact ⟨p, hfree, herrors, hdrops, hstops, (forwarded_once_iff hfree).mpr hr⟩

end ChainIndexer.Connection
