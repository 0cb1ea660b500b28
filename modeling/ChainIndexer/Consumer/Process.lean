import ChainIndexer.Consumer.Lined
import ChainIndexer.Core.Redelivery

/-!
# Processes that consume a log

A process starts a synchronous consumer, whose `next` callback writes a store. It may die at any
time, also while the callback runs, and another process starts at the offset committed last. However
the consumer is interrupted, as long as the messages of one process enter its queue in the order of
the log and none after a message was dropped, the store is that of a consumer that handles the log
one entry after the other. Each of the stores and places of such a consumer is also reached.
-/

namespace ChainIndexer.Consumer

open Consumption (Reaches Step)

variable {β γ σ : Type} {cfg : Config} {log : List γ}

/-- A process: the offset it began at, its consumer, and the store that outlives it. -/
structure Process (β γ σ : Type) where
  base : Nat
  consumer : State β γ
  store : σ

/-- The offset behind the message committed last. -/
def Process.resumption (p : Process β γ σ) : Nat :=
  match p.consumer.committed.getLast? with
  | none => p.base
  | some position => position.offset + 1

/-- The number of messages of the log behind which the process stands. -/
def Process.place (p : Process β γ σ) : Nat := p.base + p.consumer.handled.length

/-- What happens to a process. What a call of `next` does to the store shows when it settles, or
when the process dies while it runs. The next process begins no later than what was committed
says. -/
inductive Proceeds (cfg : Config) (log : List γ) (handle : γ → σ → Bool → σ → Prop) :
    Process β γ σ → Process β γ σ → Prop
  | goes {p e t} : ¬ e.Settles → Orderly log p.base p.consumer e →
    step cfg p.consumer e = some t → Proceeds cfg log handle p { p with consumer := t }
  | settles {p a v failure commits flow t store} : p.consumer.processing = some a →
    a.element.message.value = some v → handle v p.store (Option.isNone failure) store →
    step cfg p.consumer (.settled failure commits flow) = some t →
    Proceeds cfg log handle p { p with consumer := t, store := store }
  | dies {p base} : base ≤ p.resumption →
    Proceeds cfg log handle p { p with base := base, consumer := .init }
  | diesHandling {p a v base store} : p.consumer.processing = some a →
    a.element.message.value = some v → handle v p.store false store → base ≤ p.resumption →
    Proceeds cfg log handle p ⟨base, .init, store⟩

/-- The processes that run one after the other, from an empty group on. -/
def Lives (cfg : Config) (log : List γ) (handle : γ → σ → Bool → σ → Prop) (init : σ) :
    Process β γ σ → Prop :=
  Relation.ReflTransGen (Proceeds cfg log handle) ⟨0, .init, init⟩

variable {handle : γ → σ → Bool → σ → Prop} {p q : Process β γ σ} {init : σ} {mode : Mode}

/-- A process resumes no later than where it stands. -/
theorem Lined.resumption_le (h : Lined mode log p.base p.consumer) : p.resumption ≤ p.place := by
  unfold Process.resumption Process.place
  split
  · exact Nat.le_add_right _ _
  · rename_i position hlast
    exact h.committed position (List.mem_of_getLast? hlast)

/-- What happens to a process happens to a consumer that handles one entry after the other. -/
theorem Proceeds.refines (hm : cfg.mode = .synchronous) {begun : Nat}
    (h : Lined .synchronous log p.base p.consumer)
    (hreach : Reaches log handle init ⟨p.place, begun, p.store⟩)
    (hstep : Proceeds cfg log handle p q) :
    Lined .synchronous log q.base q.consumer ∧
      ∃ begun, Reaches log handle init ⟨q.place, begun, q.store⟩ := by
  have hentry : ∀ a v, p.consumer.processing = some a → a.element.message.value = some v →
      log[p.place]? = some v := by
    intro a v ha hv
    obtain ⟨⟨-, -, w, hlog, hw⟩, -⟩ := h.processing a ha
    rw [hv] at hw
    rw [Option.some.inj hw]
    exact hlog
  cases hstep with
  | @goes e t he ho hs =>
    obtain ⟨hlined, hhandled⟩ := goes_lined hm h he ho hs
    refine ⟨hlined, begun, ?_⟩
    rw [show Process.place { p with consumer := t } = p.place from
      congrArg (fun handled => p.base + handled.length) hhandled]
    exact hreach
  | @settles a v failure commits flow t store ha hv hhandle hs =>
    obtain ⟨hlined, hhandled⟩ := settles_lined h hs
    have hplace : Process.place { p with consumer := t, store := store } =
        p.place + if failure.isNone then 1 else 0 := by
      unfold Process.place
      rw [hhandled, Nat.add_assoc]
    refine ⟨hlined, max begun (p.place + 1), ?_⟩
    rw [hplace]
    cases hf : Option.isNone failure with
    | true =>
      rw [hf] at hhandle
      exact hreach.tail (.handled (hentry a v ha hv) hhandle)
    | false =>
      rw [hf] at hhandle
      exact hreach.tail (.failed (hentry a v ha hv) hhandle)
  | dies hle =>
    exact ⟨Lined.init, begun, hreach.tail (.restarted (Nat.le_trans hle h.resumption_le))⟩
  | @diesHandling a v base store ha hv hhandle hle =>
    refine ⟨Lined.init, max begun (p.place + 1), ?_⟩
    exact (hreach.tail (.failed (hentry a v ha hv) hhandle)).tail
      (.restarted (Nat.le_trans hle h.resumption_le))

/-- The line is kept through all processes, and they do what such a consumer does. -/
theorem lives_lined (hm : cfg.mode = .synchronous) (h : Lives cfg log handle init p) :
    Lined .synchronous log p.base p.consumer ∧
      ∃ begun, Reaches log handle init ⟨p.place, begun, p.store⟩ := by
  induction h with
  | refl => exact ⟨Lined.init, 0, .refl⟩
  | tail _ hstep ih =>
    obtain ⟨hlined, begun, hreach⟩ := ih
    exact hstep.refines hm hlined hreach

/-! ## Every place and store of such a consumer -/

/-- A consumer that has nothing to do. -/
structure Idle (s : State β γ) : Prop where
  listening : s.listening = true
  observer : s.observer = true
  consumerPaused : s.consumerPaused = false
  queueIsProcessing : s.queueIsProcessing = false
  queue : s.queue = []
  arriving : s.arriving = []
  dropped : s.dropped = []

/-- A process with a consumer that has nothing to do, at this place of the log and with this
store. -/
structure Waiting (p : Process β γ σ) (place : Nat) (store : σ) : Prop where
  idle : Idle p.consumer
  entered : p.base + p.consumer.entered.length = place
  handled : p.place = place
  resumption : p.resumption = place
  store : p.store = store

/-- A process that has just started waits where it began. -/
theorem Waiting.start (base : Nat) (store : σ) :
    Waiting (⟨base, start .init, store⟩ : Process β γ σ) base store :=
  ⟨⟨rfl, rfl, rfl, rfl, rfl, rfl, rfl⟩, rfl, rfl, rfl, rfl⟩

/-- A message that is queued at once, and the call of `next` for it. -/
def taken (s : State Unit γ) (position : Position) (v : γ) : State Unit γ :=
  { s with
    delivered := s.delivered ++ [position]
    entered := s.entered ++ [position]
    queue := [⟨⟨position, some v⟩, none⟩]
    queueIsProcessing := true
    processing := some ⟨⟨⟨position, some v⟩, none⟩, 0⟩
    awaited := s.awaited ++ [position]
    nextCalls := s.nextCalls ++ [position] }

/-- The message of this place, on the only partition. -/
def positionAt (place : Nat) : Position := ⟨"", 0, place⟩

section Attained

variable {p : Process Unit γ σ} {place : Nat} {v : γ} {x y : σ}

/-- The next message arrives, is decoded and passed to `next`. -/
theorem Waiting.takes (hm : cfg.mode = .synchronous) (hbuffer : 1 < cfg.maxBufferLength)
    (hstart : ∀ topic, cfg.startOffset topic = 0) (h : Waiting p place x)
    (hv : log[place]? = some v) :
    Relation.ReflTransGen (Proceeds cfg log handle) p
      { p with consumer := taken p.consumer (positionAt place) v } := by
  obtain ⟨base, s, x⟩ := p
  obtain ⟨⟨hlistening, hobserver, hpaused, hflag, hqueue, harriving, hdropped⟩, hentered, -⟩ := h
  dsimp only at hlistening hobserver hpaused hflag hqueue harriving hdropped hentered
  let m : Message Unit := ⟨positionAt place, some ()⟩
  let arrived : State Unit γ := { s with
    arriving := [m], delivered := s.delivered ++ [m.position] }
  have harrive : step cfg s (.data m) = some arrived := by
    simp [step, onData, hlistening, hstart, harriving, arrived]
  have htake : step cfg arrived (.deserialized 0 (.ok (some v)) none) =
      some (taken s (positionAt place) v) := by
    have hpause : ¬ cfg.maxBufferLength ≤ 1 := by omega
    simp [step, deserialized, admits, push, enqueue, hm, decoded, handleBackpressure, asksPause,
      asksResume, hpaused, hqueue, hobserver, hflag, hpause, processQueue, runQueue, arrived, m,
      taken, harriving]
  refine (Relation.ReflTransGen.single (.goes (e := .data m) id trivial harrive)).tail ?_
  refine .goes (e := .deserialized 0 (.ok (some v)) none) id ⟨hdropped, m, v, rfl, rfl, ?_, ?_⟩
    htake
  · exact hentered.symm
  · exact hentered ▸ hv

/-- The next message is handled. -/
theorem Waiting.handles (hm : cfg.mode = .synchronous) (hbuffer : 1 < cfg.maxBufferLength)
    (hstart : ∀ topic, cfg.startOffset topic = 0) (h : Waiting p place x)
    (hv : log[place]? = some v) (hhandle : handle v x true y) :
    ∃ q, Relation.ReflTransGen (Proceeds cfg log handle) p q ∧ Waiting q (place + 1) y := by
  have htaken : Relation.ReflTransGen (Proceeds cfg log handle) p _ :=
    h.takes hm hbuffer hstart hv
  obtain ⟨base, s, x⟩ := p
  obtain ⟨⟨hlistening, hobserver, hpaused, -, -, harriving, hdropped⟩, hentered, hhandled, -,
    rfl⟩ := h
  dsimp only at hlistening hobserver hpaused harriving hdropped hentered
  let done : State Unit γ := { taken s (positionAt place) v with
    queue := []
    queueIsProcessing := false
    processing := none
    resolved := s.resolved ++ [positionAt place]
    handled := s.handled ++ [positionAt place]
    committed := s.committed ++ [positionAt place] }
  have hsettle : step cfg (taken s (positionAt place) v) (.settled none [] none) = some done := by
    have hpause : ¬ cfg.maxBufferLength ≤ 0 := by omega
    simp [step, settled, outcomeOf, succeed, resolve, safeCommitMessage, handleBackpressure,
      asksPause, asksResume, hpaused, hpause, runQueue, taken, done]
  refine ⟨⟨base, done, y⟩, htaken.tail ?_, ?_⟩
  · refine .settles (v := v) rfl rfl ?_ hsettle
    exact hhandle
  refine ⟨⟨hlistening, hobserver, hpaused, rfl, rfl, harriving, hdropped⟩, ?_, ?_, ?_, rfl⟩
  · simp [done, taken, ← hentered, Nat.add_assoc]
  · simp [Process.place, done, ← hhandled, Nat.add_assoc]
  · simp [Process.resumption, done, positionAt]

/-- A call of `next` rejects, and the process is started again without having committed anything
new. -/
theorem Waiting.fails (hm : cfg.mode = .synchronous) (hbuffer : 1 < cfg.maxBufferLength)
    (hstart : ∀ topic, cfg.startOffset topic = 0) (h : Waiting p place x)
    (hv : log[place]? = some v) (hhandle : handle v x false y) :
    ∃ q, Relation.ReflTransGen (Proceeds cfg log handle) p q ∧ Waiting q place y := by
  have htaken : Relation.ReflTransGen (Proceeds cfg log handle) p _ :=
    h.takes hm hbuffer hstart hv
  let error : Thrown := .unknown "rejected"
  let s := taken p.consumer (positionAt place) v
  let rejected := caught cfg s ⟨⟨⟨positionAt place, some v⟩, none⟩, 0⟩ error
  have hsettle : step cfg s (.settled (some error) [] none) = some rejected := by
    simp [step, settled, outcomeOf, s, taken, rejected]
  have hcommitted : rejected.committed = p.consumer.committed := by
    unfold rejected caught
    split
    · exact (onError_quiet s _).committed
    · unfold runQueue
      split <;> rfl
  have hresumption : Process.resumption ⟨p.base, rejected, y⟩ = place := by
    rw [← h.resumption]
    unfold Process.resumption
    dsimp only
    rw [hcommitted]
  have hrejects : Proceeds cfg log handle { p with consumer := s }
      { p with consumer := rejected, store := y } := by
    refine .settles (v := v) rfl rfl ?_ hsettle
    exact h.store ▸ hhandle
  refine ⟨⟨place, Consumer.start .init, y⟩, ?_, .start place y⟩
  exact ((htaken.tail hrejects).tail (.dies (Nat.le_of_eq hresumption.symm))).tail
    (.goes (e := .start) id trivial rfl)

/-- The process dies, and the next one begins at an earlier place. -/
theorem Waiting.restarts {base : Nat} (h : Waiting p place x) (hbase : base ≤ place) :
    ∃ q, Relation.ReflTransGen (Proceeds cfg log handle) p q ∧ Waiting q base x := by
  refine ⟨⟨base, Consumer.start .init, p.store⟩, ?_, h.store ▸ .start base p.store⟩
  exact (Relation.ReflTransGen.single (.dies (h.resumption ▸ hbase))).tail
    (.goes (e := .start) id trivial rfl)

/-- Whatever a consumer does that handles one entry after the other, processes do with calls of
`next` that reject, deaths and redeliveries. -/
theorem reaches_lives (hm : cfg.mode = .synchronous) (hbuffer : 1 < cfg.maxBufferLength)
    (hstart : ∀ topic, cfg.startOffset topic = 0) {c : Consumption σ}
    (h : Reaches log handle init c) :
    ∃ p : Process Unit γ σ, Lives cfg log handle init p ∧ p.place = c.place ∧
      p.store = c.store := by
  obtain ⟨q, hsteps, hq⟩ := h.realised Waiting (Waiting.handles hm hbuffer hstart)
    (Waiting.fails hm hbuffer hstart) Waiting.restarts (.start 0 init)
  exact ⟨q, .head (.goes (e := .start) id trivial rfl) hsteps, hq.handled, hq.store⟩

end Attained

/-- **Refinement.** Whatever processes with a synchronous consumer go through, their store and their
place are those of a consumer that handles the log one entry after the other. `next` is only ever
called for the entry at that place, and only entries before it are committed. -/
theorem lives_refine (hm : cfg.mode = .synchronous) {init : σ}
    (h : Lives cfg log handle init p) :
    (∃ begun, Reaches log handle init ⟨p.place, begun, p.store⟩) ∧
      (∀ a, p.consumer.processing = some a →
        a.element.position.offset = p.place ∧ a.element.message.value = log[p.place]?) ∧
      ∀ position ∈ p.consumer.committed, position.offset < p.place := by
  obtain ⟨hlined, hreach⟩ := lives_lined hm h
  refine ⟨hreach, fun a ha => ?_, hlined.committed⟩
  obtain ⟨⟨-, hoffset, v, hlog, hvalue⟩, -⟩ := hlined.processing a ha
  exact ⟨hoffset, hvalue.trans hlog.symm⟩

/-- A synchronous consumer that starts wherever the broker lets it. -/
def oneByOne : Config where
  mode := .synchronous
  maxBufferLength := 100
  maxRetries := 10
  startOffset _ := 0

/-- A store that counts the messages handled. -/
def tally (_ : String) (count : Nat) (ok : Bool) (count' : Nat) : Prop :=
  count' = if ok then count + 1 else count

/-- Two messages are counted, the first one twice: the call for the second one rejects, and the
process that comes next begins with the first one again. -/
theorem tally_refines : ∃ p : Process Unit String Nat, p.place = 2 ∧ p.store = 3 ∧
    (∃ begun, Reaches ["a", "b"] tally 0 ⟨p.place, begun, p.store⟩) ∧
      (∀ a, p.consumer.processing = some a →
        a.element.position.offset = p.place ∧ a.element.message.value = ["a", "b"][p.place]?) ∧
      ∀ position ∈ p.consumer.committed, position.offset < p.place := by
  have hreach : Reaches ["a", "b"] tally 0 ⟨2, 2, 3⟩ :=
    .tail (.tail (.tail (.tail (.tail .refl
      (.handled (c := ⟨0, 0, 0⟩) (t := 1) rfl rfl))
      (.failed (c := ⟨1, 1, 1⟩) (t := 1) rfl rfl))
      (.restarted (c := ⟨1, 2, 1⟩) (Nat.zero_le 1)))
      (.handled (c := ⟨0, 2, 1⟩) (t := 2) rfl rfl))
      (.handled (c := ⟨1, 2, 2⟩) (t := 3) rfl rfl)
  obtain ⟨p, hlives, hplace, hstore⟩ : ∃ p : Process Unit String Nat,
      Lives oneByOne ["a", "b"] tally 0 p ∧ p.place = 2 ∧ p.store = 3 :=
    reaches_lives rfl (by decide) (fun _ => rfl) hreach
  exact ⟨p, hplace, hstore, lives_refine rfl hlives⟩

end ChainIndexer.Consumer
