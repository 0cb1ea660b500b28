import ChainIndexer.Consumer.Process
import ChainIndexer.Consumer.Rejection

/-!
# Processes that call `next` for all messages at once

The asynchronous consumer calls `next` for a message as soon as it is queued, and again when the
call rejects, while `processQueue` awaits the promises in order. The calls run concurrently. As long
as they write in turn, none before those for all earlier messages have written for the last time,
the store is again that of a consumer that handles one entry after the other. What has been
committed is never ahead of what has been written.
-/

namespace ChainIndexer.Consumer

open Consumption (Reaches)

variable {β γ σ : Type} {cfg : Config} {s t : State β γ} {log : List γ} {base written : Nat}

/-- A process with a consumer that calls `next` for all messages at once. -/
structure Concurrent (β γ σ : Type) extends Process β γ σ where
  /-- The messages of this process for which `next` has written for the last time. -/
  written : Nat

/-- Messages enter in order. A call of `next` that resolves has written for the last time, and one
that rejects has not. -/
def InTurn (log : List γ) (base written : Nat) (s : State β γ) : Event β γ → Prop
  | .retried i none => i < written
  | .retried i (some _) => written ≤ i
  | e => Orderly log base s e

/-- What happens to such a process. Only the first message for which `next` has not written for the
last time is written for, while a call for it runs. -/
inductive Concurrent.Proceeds (cfg : Config) (log : List γ) (handle : γ → σ → Bool → σ → Prop) :
    Concurrent β γ σ → Concurrent β γ σ → Prop
  | goes {p e t} : InTurn log p.base p.written p.consumer e → step cfg p.consumer e = some t →
    Proceeds cfg log handle p { p with consumer := t }
  | writes {p m errorCount v ok store} :
    p.consumer.promises[p.written]? = some ⟨m, errorCount, .pending⟩ → m.value = some v →
    handle v p.store ok store →
    Proceeds cfg log handle p
      { p with store := store, written := p.written + if ok then 1 else 0 }
  | dies {p base} : base ≤ p.resumption →
    Proceeds cfg log handle p ⟨⟨base, .init, p.store⟩, 0⟩

/-- The processes that run one after the other, from an empty group on. -/
def Concurrent.Lives (cfg : Config) (log : List γ) (handle : γ → σ → Bool → σ → Prop) (init : σ) :
    Concurrent β γ σ → Prop :=
  Relation.ReflTransGen (Concurrent.Proceeds cfg log handle) ⟨⟨0, .init, init⟩, 0⟩

/-! ## What the calls have written -/

/-- The promises are those of the entries of the log, and the fulfilled ones have been written for
the last time. -/
structure Written (log : List γ) (base written : Nat) (s : State β γ) : Prop where
  logged : ∀ i promise, s.promises[i]? = some promise → log[base + i]? = promise.message.value
  fulfilled : ∀ i m errorCount, s.promises[i]? = some ⟨m, errorCount, .fulfilled⟩ → i < written

/-- This is about the promises only. -/
theorem Written.congr (h : Written log base written s) (hpromises : t.promises = s.promises) :
    Written log base written t := by
  refine ⟨?_, ?_⟩
  · rw [hpromises]
    exact h.logged
  · rw [hpromises]
    exact h.fulfilled

/-- A promise keeps its message, and is fulfilled only once its message has been written. -/
theorem Written.set (h : Written log base written s) {i errorCount errorCount' : Nat}
    {m : Message γ} {settlement settlement' : Settlement}
    (hi : s.promises[i]? = some ⟨m, errorCount, settlement⟩)
    (hdone : settlement' = .fulfilled → i < written)
    (hpromises : t.promises = s.promises.set i ⟨m, errorCount', settlement'⟩) :
    Written log base written t := by
  obtain ⟨hlt, -⟩ := List.getElem?_eq_some_iff.mp hi
  refine ⟨fun j promise hj => ?_, fun j m' count hj => ?_⟩
  · rw [hpromises] at hj
    by_cases hsame : i = j
    · subst hsame
      rw [List.getElem?_set_self hlt] at hj
      obtain rfl := Option.some.inj hj
      have hold := h.logged i _ hi
      exact hold
    · rw [List.getElem?_set_ne hsame] at hj
      exact h.logged j promise hj
  · rw [hpromises] at hj
    by_cases hsame : i = j
    · subst hsame
      rw [List.getElem?_set_self hlt] at hj
      injection Option.some.inj hj with _ _ hsettlement
      exact hdone hsettlement
    · rw [List.getElem?_set_ne hsame] at hj
      exact h.fulfilled j m' count hj

/-- The call for a message that is queued is still to write. -/
theorem Written.push (hm : cfg.mode = .asynchronous) (h : Written log base written s)
    (hobserver : s.observer = true) {m : Message γ}
    (hlog : log[base + s.promises.length]? = m.value) :
    Written log base written (push cfg s m) := by
  have hpromises : (Consumer.push cfg s m).promises = s.promises ++ [⟨m, 0, .pending⟩] := by
    simp [Consumer.push, enqueue, hm, hobserver]
  refine ⟨fun j promise hj => ?_, fun j m' count hj => ?_⟩
  · rw [hpromises] at hj
    rcases Nat.lt_or_ge j s.promises.length with hlt | hge
    · rw [List.getElem?_append_left hlt] at hj
      exact h.logged j promise hj
    · rw [List.getElem?_append_right hge] at hj
      obtain ⟨hzero, rfl⟩ := List.getElem?_eq_some_iff.mp hj
      rw [List.length_singleton] at hzero
      obtain rfl : j = s.promises.length := by omega
      simpa using hlog
  · rw [hpromises] at hj
    rcases Nat.lt_or_ge j s.promises.length with hlt | hge
    · rw [List.getElem?_append_left hlt] at hj
      exact h.fulfilled j m' count hj
    · rw [List.getElem?_append_right hge] at hj
      simp [List.getElem?_singleton] at hj

/-- Without an observer, nothing has happened. -/
def Unobserved (s : State β γ) : Prop :=
  s.observer = false → s.listening = false ∧ s.arriving = [] ∧ s.promises = [] ∧ s.processing = none

/-- What happens without an observer moves no message. -/
theorem step_unobserved {e : Event β γ} (h : Unobserved s) (hs : step cfg s e = some t) :
    Unobserved t := by
  intro hnone
  have hobserver : s.observer = false := by
    cases ho : s.observer with
    | false => rfl
    | true => exact absurd ((step_tells hs).observer ho) (by simp [hnone])
  obtain ⟨hlistening, harriving, hpromises, hprocessing⟩ := h hobserver
  cases step_effect hs with
  | quiet _ hq =>
    refine ⟨?_, hq.arriving.trans harriving, hq.promises.trans hpromises,
      hq.processing.trans hprocessing⟩
    cases hl : t.listening with
    | false => rfl
    | true =>
      rcases hq.listening hl with hl | ho
      · rw [hlistening] at hl
        exact hl.symm
      · rw [hnone] at ho
        exact ho.symm
  | arrive hl =>
    rw [hlistening] at hl
    cases hl
  | retry hi | resolve hi => simp [hpromises] at hi
  | reject hi | enter hi | overflow hi => simp [harriving] at hi
  | fail ha | succeed ha | underflow ha => simp [hprocessing] at ha

/-- What is kept of the consumer of a process that has written so many messages. -/
structure Kept (log : List γ) (base written : Nat) (s : State β γ) : Prop where
  lined : Lined .asynchronous log base s
  promised : Written log base written s
  handled : s.handled.length ≤ written
  unobserved : Unobserved s

theorem Kept.init : Kept log base 0 (State.init : State β γ) :=
  ⟨.init, ⟨nofun, nofun⟩, Nat.le_refl 0, fun _ => ⟨rfl, rfl, rfl, rfl⟩⟩

/-- The await of a promise resolves only if the message has been written for the last time. -/
theorem Kept.awaited (h : Kept log base written s) {a : Activation γ}
    (ha : s.processing = some a) (hout : outcomeOf s a.element none = true) :
    s.handled.length < written := by
  obtain ⟨⟨hpromise, -⟩, -⟩ := h.lined.processing a ha
  change a.element.promise = some s.handled.length at hpromise
  rw [outcomeOf, hpromise] at hout
  dsimp only at hout
  split at hout
  · rename_i m errorCount hp
    exact h.promised.fulfilled _ m errorCount hp
  · simp at hout
  · cases hout

/-- Every event in turn keeps this. -/
theorem Kept.step (hm : cfg.mode = .asynchronous) (h : Kept log base written s) {e : Event β γ}
    (he : InTurn log base written s e) (hs : step cfg s e = some t) : Kept log base written t := by
  have horderly : Orderly log base s e := by
    cases e with
    | retried => trivial
    | start | connected | data | seeked | deserialized | settled | clientError | disconnected
    | stop | disconnectCallback => exact he
  have hunobserved := step_unobserved h.unobserved hs
  by_cases hsettles : e.Settles
  · cases e with
    | settled failure commits flow =>
      obtain ⟨hlined, hhandled⟩ := settles_lined h.lined hs
      refine ⟨hlined, h.promised.congr (settled_promises hs), ?_, hunobserved⟩
      cases step_effect hs with
      | quiet he => exact he.elim
      | fail => exact hhandled ▸ h.handled
      | succeed ha hout | underflow ha hout => exact hhandled ▸ h.awaited ha hout
    | start | connected | data | seeked | deserialized | retried | clientError | disconnected
    | stop | disconnectCallback => exact hsettles.elim
  · obtain ⟨hlined, hhandled⟩ := goes_lined hm h.lined hsettles horderly hs
    refine ⟨hlined, ?_, hhandled ▸ h.handled, hunobserved⟩
    have hpushed : ∀ {i m value flow}, s.arriving[i]? = some m →
        Orderly log base s (.deserialized i (.ok value) flow) →
        Written log base written (push cfg (decoded s i) ⟨m.position, value⟩) := by
      rintro i m value flow harriving ⟨-, _, v, -, rfl, -, hlog⟩
      have hobserver : s.observer = true := by
        cases ho : s.observer with
        | true => rfl
        | false => simp [(h.unobserved ho).2.1] at harriving
      refine Written.push hm (s := decoded s i) (h.promised.congr rfl) hobserver ?_
      change log[base + s.promises.length]? = some v
      rw [h.lined.promises rfl]
      exact hlog
    cases step_effect hs with
    | quiet _ hq => exact h.promised.congr hq.promises
    | arrive => exact h.promised.congr rfl
    | retry hi hnot => exact h.promised.set hi (fun heq => absurd heq hnot) rfl
    | resolve hi => exact h.promised.set hi (fun _ => he) rfl
    | reject _ hq => exact h.promised.congr hq.promises
    | enter hi hu =>
      refine (hpushed hi horderly).congr ?_
      unfold processQueue
      split
      · exact (runQueue_promises _ 0).trans hu.quiet.promises
      · exact hu.quiet.promises
    | overflow hi hq => exact (hpushed hi horderly).congr hq.promises
    | fail | succeed | underflow => exact absurd trivial hsettles

namespace Concurrent

variable {handle : γ → σ → Bool → σ → Prop} {init : σ} {p q : Concurrent β γ σ}

/-- What happens to such a process happens to a consumer that handles one entry after the other, at
the place up to which has been written. -/
theorem Proceeds.refines (hm : cfg.mode = .asynchronous) {begun : Nat}
    (h : Kept log p.base p.written p.consumer)
    (hreach : Reaches log handle init ⟨p.base + p.written, begun, p.store⟩)
    (hstep : Proceeds cfg log handle p q) :
    Kept log q.base q.written q.consumer ∧
      ∃ begun, Reaches log handle init ⟨q.base + q.written, begun, q.store⟩ := by
  cases hstep with
  | goes he hs => exact ⟨h.step hm he hs, begun, hreach⟩
  | @writes m errorCount v ok store hi hv hhandle =>
    have hentry : log[p.base + p.written]? = some v := (h.promised.logged _ _ hi).trans hv
    refine ⟨⟨h.lined, ⟨h.promised.logged, fun j m' count hj => ?_⟩, ?_, h.unobserved⟩,
      max begun (p.base + p.written + 1), ?_⟩
    · exact Nat.lt_of_lt_of_le (h.promised.fulfilled j m' count hj) (Nat.le_add_right _ _)
    · exact Nat.le_trans h.handled (Nat.le_add_right _ _)
    · cases ok with
      | true => exact hreach.tail (.handled hentry hhandle)
      | false => exact hreach.tail (.failed hentry hhandle)
  | dies hle =>
    refine ⟨Kept.init, begun, hreach.tail (.restarted ?_)⟩
    exact Nat.le_trans (Nat.le_trans hle h.lined.resumption_le) (Nat.add_le_add_left h.handled _)

private theorem lives_kept (hm : cfg.mode = .asynchronous) (h : Lives cfg log handle init p) :
    Kept log p.base p.written p.consumer ∧
      ∃ begun, Reaches log handle init ⟨p.base + p.written, begun, p.store⟩ := by
  induction h with
  | refl => exact ⟨Kept.init, 0, .refl⟩
  | tail _ hstep ih =>
    obtain ⟨hkept, begun, hreach⟩ := ih
    exact hstep.refines hm hkept hreach

/-- Whatever processes with an asynchronous consumer go through whose calls of `next` write in turn,
their store is that of a consumer that handles the log one entry after the other, and they stand and
have committed no further than it. -/
theorem lives_written (hm : cfg.mode = .asynchronous) (h : Lives cfg log handle init p) :
    ∃ place begun, Reaches log handle init ⟨place, begun, p.store⟩ ∧ p.place ≤ place ∧
      ∀ position ∈ p.consumer.committed, position.offset < p.place := by
  obtain ⟨hkept, begun, hreach⟩ := lives_kept hm h
  exact ⟨_, begun, hreach, Nat.add_le_add_left hkept.handled _, hkept.lined.committed⟩

/-- When the last message has been handled, that consumer has come to the end of the log. -/
theorem lives_atEnd (hm : cfg.mode = .asynchronous) (h : Lives cfg log handle init p)
    (hend : p.place = log.length) :
    ∃ begun, Reaches log handle init ⟨log.length, begun, p.store⟩ := by
  obtain ⟨place, begun, hreach, hle, -⟩ := lives_written hm h
  have hwithin : place ≤ log.length := Nat.le_trans hreach.within.1 hreach.within.2
  obtain rfl : place = log.length := Nat.le_antisymm hwithin (hend ▸ hle)
  exact ⟨begun, hreach⟩

/-! ## Every place and store of such a consumer -/

/-- A process that waits at this place of the log, and for which no call of `next` runs. -/
structure Waiting (p : Concurrent β γ σ) (place : Nat) (store : σ) : Prop where
  waiting : Consumer.Waiting p.toProcess place store
  promises : p.consumer.promises.length = p.consumer.entered.length
  written : p.base + p.written = place

/-- A process that has just started waits at its base. -/
theorem Waiting.start (base : Nat) (store : σ) :
    Waiting (⟨⟨base, start .init, store⟩, 0⟩ : Concurrent β γ σ) base store :=
  ⟨.start base store, rfl, rfl⟩

/-- A message that is queued at once, the call of `next` for it and the await of its promise. -/
def taken (s : State Unit γ) (position : Position) (v : γ) : State Unit γ :=
  { s with
    delivered := s.delivered ++ [position]
    entered := s.entered ++ [position]
    queue := [⟨⟨position, some v⟩, some s.promises.length⟩]
    queueIsProcessing := true
    processing := some ⟨⟨⟨position, some v⟩, some s.promises.length⟩, 0⟩
    promises := s.promises ++ [⟨⟨position, some v⟩, 0, .pending⟩]
    awaited := s.awaited ++ [position]
    nextCalls := s.nextCalls ++ [position] }

section Attained

variable {p : Concurrent Unit γ σ} {place : Nat} {v : γ} {x y : σ}

/-- The next message arrives, is decoded and passed to `next`. -/
theorem Waiting.takes (hm : cfg.mode = .asynchronous) (hbuffer : 1 < cfg.maxBufferLength)
    (hstart : ∀ topic, cfg.startOffset topic = 0) (h : Waiting p place x)
    (hv : log[place]? = some v) :
    Relation.ReflTransGen (Proceeds cfg log handle) p
      { p with consumer := taken p.consumer (positionAt place) v } := by
  obtain ⟨⟨base, s, x⟩, written⟩ := p
  obtain ⟨⟨⟨hlistening, hobserver, hpaused, hflag, hqueue, harriving, hdropped⟩, hentered, -⟩,
    -, -⟩ := h
  dsimp only at hlistening hobserver hpaused hflag hqueue harriving hdropped hentered
  let m : Message Unit := ⟨positionAt place, some ()⟩
  let arrived : State Unit γ := { s with
    arriving := [m], delivered := s.delivered ++ [m.position] }
  have harrive : step cfg s (.data m) = some arrived := by
    simp [step, onData, hlistening, hstart, harriving, arrived]
  have htake : step cfg arrived (.deserialized 0 (.ok (some v)) none) =
      some (taken s (positionAt place) v) := by
    have hpause : ¬ cfg.maxBufferLength ≤ 1 := by omega
    simp [step, deserialized, admits, push, enqueue, hm, decoded, handleBackpressure, asksPause,
      asksResume, hpaused, hqueue, hobserver, hflag, hpause, processQueue, runQueue, arrived, m,
      taken, harriving]
  refine (Relation.ReflTransGen.single (.goes (e := .data m) trivial harrive)).tail ?_
  refine .goes (e := .deserialized 0 (.ok (some v)) none) ⟨hdropped, m, v, rfl, rfl, ?_, ?_⟩ htake
  · exact hentered.symm
  · exact hentered ▸ hv

/-- The call of `next` for a message that was taken writes. -/
theorem taken_writes (s : State Unit γ) {ok : Bool} (hhandle : handle v x ok y) :
    Proceeds cfg log handle ⟨⟨base, taken s (positionAt place) v, x⟩, s.promises.length⟩
      ⟨⟨base, taken s (positionAt place) v, y⟩, s.promises.length + if ok then 1 else 0⟩ := by
  have hpending : (taken s (positionAt place) v).promises[s.promises.length]? =
      some ⟨⟨positionAt place, some v⟩, 0, .pending⟩ := by simp [taken]
  exact .writes (p := ⟨⟨base, taken s (positionAt place) v, x⟩, s.promises.length⟩) hpending rfl
    hhandle

/-- The call for the next message writes and resolves, and the message is committed. -/
theorem Waiting.handles (hm : cfg.mode = .asynchronous) (hbuffer : 1 < cfg.maxBufferLength)
    (hstart : ∀ topic, cfg.startOffset topic = 0) (h : Waiting p place x)
    (hv : log[place]? = some v) (hhandle : handle v x true y) :
    ∃ q, Relation.ReflTransGen (Proceeds cfg log handle) p q ∧ Waiting q (place + 1) y := by
  have htaken : Relation.ReflTransGen (Proceeds cfg log handle) p _ :=
    h.takes hm hbuffer hstart hv
  obtain ⟨⟨base, s, x⟩, written⟩ := p
  obtain ⟨⟨⟨hlistening, hobserver, hpaused, -, -, harriving, hdropped⟩, hentered, hhandled, -,
    rfl⟩, hpromises, hwritten⟩ := h
  dsimp only at hlistening hobserver hpaused harriving hdropped hentered hpromises hwritten
  obtain rfl : written = s.promises.length := by omega
  let resolved : State Unit γ := { taken s (positionAt place) v with
    promises := s.promises ++ [⟨⟨positionAt place, some v⟩, 0, .fulfilled⟩]
    resolved := s.resolved ++ [positionAt place] }
  let done : State Unit γ := { resolved with
    queue := []
    queueIsProcessing := false
    processing := none
    handled := s.handled ++ [positionAt place]
    committed := s.committed ++ [positionAt place] }
  have hresolve : step cfg (taken s (positionAt place) v) (.retried s.promises.length none) =
      some resolved := by
    simp [step, retried, setPromise, taken, resolved]
  have hsettle : step cfg resolved (.settled none [] none) = some done := by
    have hpause : ¬ cfg.maxBufferLength ≤ 0 := by omega
    simp [step, settled, outcomeOf, succeed, resolve, safeCommitMessage, handleBackpressure,
      asksPause, asksResume, hpaused, hpause, runQueue, taken, resolved, done]
  refine ⟨⟨⟨base, done, y⟩, s.promises.length + 1⟩, ?_, ?_⟩
  · refine ((htaken.tail (taken_writes s hhandle)).tail (.goes ?_ hresolve)).tail
      (.goes (e := .settled none [] none) trivial hsettle)
    exact Nat.lt_succ_self _
  · refine ⟨⟨⟨hlistening, hobserver, hpaused, rfl, rfl, harriving, hdropped⟩, ?_, ?_, ?_, rfl⟩,
      ?_, ?_⟩
    · simp [done, resolved, taken, ← hentered, Nat.add_assoc]
    · simp [Process.place, done, ← hhandled, Nat.add_assoc]
    · simp [Process.resumption, done, positionAt]
    · simp [done, resolved, taken, hpromises]
    · simp [← hwritten, Nat.add_assoc]

/-- A call of `next` rejects, and the process is started again without having committed anything
new. -/
theorem Waiting.fails (hm : cfg.mode = .asynchronous) (hbuffer : 1 < cfg.maxBufferLength)
    (hstart : ∀ topic, cfg.startOffset topic = 0) (h : Waiting p place x)
    (hv : log[place]? = some v) (hhandle : handle v x false y) :
    ∃ q, Relation.ReflTransGen (Proceeds cfg log handle) p q ∧ Waiting q place y := by
  have htaken : Relation.ReflTransGen (Proceeds cfg log handle) p _ :=
    h.takes hm hbuffer hstart hv
  have hresumption := h.waiting.resumption
  obtain ⟨⟨base, s, x⟩, written⟩ := p
  obtain ⟨⟨-, hentered, -, -, rfl⟩, hpromises, hwritten⟩ := h
  dsimp only at hentered hpromises hwritten
  obtain rfl : written = s.promises.length := by omega
  let error : Thrown := .unknown "rejected"
  obtain ⟨rejected, hrejected⟩ : ∃ rejected, step cfg (taken s (positionAt place) v)
      (.retried s.promises.length (some error)) = some rejected := by
    simp [step, retried, taken]
  have hcommitted : rejected.committed = s.committed := by
    cases step_effect hrejected with
    | quiet _ hq => exact hq.committed
    | retry => rfl
  have hresumes : Process.resumption ⟨base, rejected, y⟩ = place := by
    rw [← hresumption]
    unfold Process.resumption
    dsimp only
    rw [hcommitted]
  refine ⟨⟨⟨place, Consumer.start .init, y⟩, 0⟩, ?_, .start place y⟩
  refine (((htaken.tail (taken_writes s hhandle)).tail (.goes ?_ hrejected)).tail
    (.dies (Nat.le_of_eq hresumes.symm))).tail (.goes (e := .start) trivial rfl)
  exact Nat.le_refl _

/-- The process dies, and the next one begins at an earlier place. -/
theorem Waiting.restarts {base : Nat} (h : Waiting p place x) (hbase : base ≤ place) :
    ∃ q, Relation.ReflTransGen (Proceeds cfg log handle) p q ∧ Waiting q base x := by
  refine ⟨⟨⟨base, Consumer.start .init, p.store⟩, 0⟩, ?_, h.waiting.store ▸ .start base p.store⟩
  exact (Relation.ReflTransGen.single (.dies (h.waiting.resumption ▸ hbase))).tail
    (.goes (e := .start) trivial rfl)

/-- Whatever a consumer does that handles one entry after the other, processes with an asynchronous
consumer do with calls of `next` that reject, deaths and redeliveries. -/
theorem reaches_lives (hm : cfg.mode = .asynchronous) (hbuffer : 1 < cfg.maxBufferLength)
    (hstart : ∀ topic, cfg.startOffset topic = 0) {c : Consumption σ}
    (h : Reaches log handle init c) :
    ∃ p : Concurrent Unit γ σ, Lives cfg log handle init p ∧ p.place = c.place ∧
      p.store = c.store := by
  obtain ⟨q, hsteps, hq⟩ := h.realised Waiting (Waiting.handles hm hbuffer hstart)
    (Waiting.fails hm hbuffer hstart) Waiting.restarts (.start 0 init)
  exact ⟨q, .head (.goes (e := .start) trivial rfl) hsteps, hq.waiting.handled, hq.waiting.store⟩

end Attained

end Concurrent

/-- An asynchronous consumer that starts wherever the broker lets it. -/
def atOnce : Config := { oneByOne with mode := .asynchronous }

end ChainIndexer.Consumer
