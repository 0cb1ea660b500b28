import ChainIndexer.Consumer.Order

/-!
# Nothing is committed over

A commit covers every smaller offset of its partition. A fatal error clears the
queue but leaves the listeners and the suspended activations in place, so a later
message can still be queued and committed, and an activation whose element was
cleared shifts whatever stands at the front. Where neither happens, everything
below a committed offset has been processed.
-/

namespace ChainIndexer.Consumer

variable {β γ : Type} {cfg : Config} {s t u : State β γ}

/-- A smaller offset of the same partition. -/
def Position.Before (d c : Position) : Prop := d.SamePartition c ∧ d.offset < c.offset

instance (d c : Position) : Decidable (d.Before c) := inferInstanceAs (Decidable (_ ∧ _))

theorem Position.not_before_self (a : Position) : ¬ a.Before a :=
  fun h => Nat.lt_irrefl _ h.2

/-- No message is queued over a smaller offset that was dropped unprocessed, and the queue a
settled element is shifted from is empty or begins with that element. Data events of a
partition come in the order of offsets. -/
def LeavesNoneBehind (s : State β γ) : Event β γ → Prop
  | .data m => ∀ x ∈ s.delivered, ¬ m.position.Before x
  | .deserialized i (.ok _) _ => ∀ m ∈ s.arriving[i]?,
      ∀ x ∈ s.dropped, x.Before m.position → x ∈ s.resolved
  | .settled none _ _ => ∀ a ∈ s.processing, ∀ element ∈ s.queue.head?,
      element.position = a.element.position
  | _ => True

instance (s : State β γ) : (e : Event β γ) → Decidable (LeavesNoneBehind s e)
  | .data m => inferInstanceAs (Decidable (∀ x ∈ s.delivered, ¬ m.position.Before x))
  | .deserialized i (.ok _) _ => inferInstanceAs (Decidable (∀ m ∈ s.arriving[i]?,
      ∀ x ∈ s.dropped, x.Before m.position → x ∈ s.resolved))
  | .settled none _ _ => inferInstanceAs (Decidable (∀ a ∈ s.processing,
      ∀ element ∈ s.queue.head?, element.position = a.element.position))
  | .deserialized _ (.error _) _ | .settled (some _) _ _ | .start | .connected _ | .seeked ..
  | .retried .. | .clientError _ | .disconnected | .stop | .disconnectCallback => .isTrue trivial

/-- The promise of a queued element is about its message, and records that it was processed. -/
def Backed (s : State β γ) (element : QueueObject γ) : Prop :=
  ∀ i, element.promise = some i → ∃ p, s.promises[i]? = some p ∧
    p.message.position = element.position ∧
    (p.settlement = .fulfilled → element.position ∈ s.resolved)

/-- An observer is set before any message arrives, and every promise is backed. -/
structure Promised (s : State β γ) : Prop where
  listening : s.listening = true → s.observer = true
  arriving : s.arriving ≠ [] → s.observer = true
  queue : ∀ element ∈ s.queue, Backed s element
  processing : ∀ a, s.processing = some a → Backed s a.element

/-- A state that reads the same promises and resolved messages backs the same elements. -/
theorem Backed.congr {element : QueueObject γ} (h : Backed s element)
    (hp : t.promises = s.promises) (hr : t.resolved = s.resolved) : Backed t element := by
  unfold Backed
  rw [hp, hr]
  exact h

/-- What moves no message keeps this. -/
theorem Promised.quiet (h : Promised s) (hq : Quiet s t) : Promised t where
  listening hl := (hq.listening hl).elim (fun hl => hq.observer (h.listening hl)) id
  arriving ha := hq.observer (h.arriving (hq.arriving ▸ ha))
  queue element he := by
    obtain ⟨hqueue, _⟩ | ⟨hqueue, _⟩ := hq.queue
    · exact (h.queue element (hqueue ▸ he)).congr hq.promises hq.resolved
    · rw [hqueue] at he
      cases he
  processing a ha := (h.processing a (hq.processing ▸ ha)).congr hq.promises hq.resolved

/-- The head of the loop keeps this. -/
theorem Promised.runQueue (h : Promised s) (errorCount : Nat) :
    Promised (runQueue s errorCount) := by
  cases hq : s.queue with
  | nil =>
    rw [runQueue_nil hq]
    exact ⟨h.listening, h.arriving, h.queue, nofun⟩
  | cons element rest =>
    rw [runQueue_cons hq]
    refine ⟨h.listening, h.arriving, h.queue, ?_⟩
    intro a ha
    obtain rfl := Option.some.inj ha
    exact h.queue element (by simp [hq])

/-- A call of the loop keeps this. -/
theorem Promised.processQueue (h : Promised s) : Promised (processQueue s) := by
  unfold Consumer.processQueue
  split
  · exact Promised.runQueue (s := { s with queueIsProcessing := true })
      ⟨h.listening, h.arriving, h.queue, h.processing⟩ 0
  · exact h

/-- A call that rejects keeps this. -/
theorem Promised.caught (h : Promised s) (a : Activation γ) (error : Thrown) :
    Promised (caught cfg s a error) := by
  unfold Consumer.caught
  split
  · have he := h.quiet (onError_quiet s (KafkaError.createUnknown error false))
    exact ⟨he.listening, he.arriving, he.queue, nofun⟩
  · exact h.runQueue _

/-- Queueing a message only adds promises behind the others. -/
theorem Backed.push {element : QueueObject γ} (h : Backed s element) (cfg : Config)
    (m : Message γ) : Backed (push cfg s m) element := by
  have hmore : ∃ more, (Consumer.push cfg s m).promises = s.promises ++ more := by
    unfold Consumer.push enqueue
    cases cfg.mode with
    | synchronous => exact ⟨[], (List.append_nil _).symm⟩
    | asynchronous =>
      dsimp only
      split
      · exact ⟨_, rfl⟩
      · exact ⟨_, rfl⟩
  obtain ⟨more, hmore⟩ := hmore
  obtain ⟨_, _, _, _, heq⟩ := push_eq cfg s m
  have hresolved : (Consumer.push cfg s m).resolved = s.resolved := by rw [heq]
  intro i hi
  obtain ⟨p, hp, hrest⟩ := h i hi
  obtain ⟨hlt, _⟩ := List.getElem?_eq_some_iff.mp hp
  rw [hmore, hresolved]
  exact ⟨p, (List.getElem?_append_left hlt).trans hp, hrest⟩

/-- With an observer, a new promise is about the queued message and a call of `observer.next`. -/
theorem enqueue_backed (ho : s.observer = true) (m : Message γ) :
    Backed (push cfg s m) (enqueue cfg s m).1 := by
  intro i hi
  cases hmode : cfg.mode with
  | synchronous => simp [enqueue, hmode] at hi
  | asynchronous =>
    simp only [enqueue, hmode, Option.some.injEq] at hi
    subst hi
    exact ⟨⟨m, 0, .pending⟩, by simp [push, enqueue, hmode, ho], by simp [enqueue, hmode], by simp⟩

/-- Without an observer no message is decoded. -/
theorem Promised.push (h : Promised s) (ho : s.observer = true) (m : Message γ) :
    Promised (push cfg s m) := by
  obtain ⟨_, _, _, _, heq⟩ := push_eq cfg s m
  refine ⟨?_, ?_, fun element he => ?_, fun a ha => ?_⟩
  · rw [heq]
    exact h.listening
  · rw [heq]
    exact h.arriving
  · rcases List.mem_append.mp he with hold | hnew
    · exact (h.queue element hold).push cfg m
    · obtain rfl := List.mem_singleton.mp hnew
      exact enqueue_backed ho m
  · rw [heq] at ha
    exact (h.processing a ha).push cfg m

/-- A call that resolves keeps this. -/
theorem Promised.succeed (h : Promised s) (a : Activation γ) (commits : List (Option Thrown)) :
    Promised (succeed cfg s a commits) := by
  obtain ⟨committed, _, hq⟩ :=
    safeCommitMessage_quiet cfg (resolve s a) a.element.position commits 0
  have hkeep : ∀ element, Backed s element →
      Backed { resolve s a with committed := committed } element := by
    intro element hb i hi
    obtain ⟨p, hp, hm, hr⟩ := hb i hi
    refine ⟨p, hp, hm, fun hf => ?_⟩
    unfold resolve
    cases a.element.promise with
    | none => exact List.mem_append_left _ (hr hf)
    | some _ => exact hr hf
  have hresolve : Promised { resolve s a with committed := committed } :=
    ⟨h.listening, h.arriving, fun element he => hkeep element (h.queue element he),
      fun b hb => hkeep b.element (h.processing b hb)⟩
  have hcommit := hresolve.quiet hq
  exact ⟨hcommit.listening, hcommit.arriving,
    fun element he => hcommit.queue element (List.mem_of_mem_tail he), hcommit.processing⟩

/-- Moving a promise on keeps it about its message; fulfilling it records the message. -/
theorem Promised.set (h : Promised s) {i : Nat} {p : RetryPromise γ}
    (hp : s.promises[i]? = some p) (q : RetryPromise γ) (hqp : q.message = p.message)
    {resolved : List Position} (hsub : s.resolved ⊆ resolved)
    (hq : q.settlement = .fulfilled → p.message.position ∈ resolved) (nextCalls : List Position) :
    Promised { s with
      promises := s.promises.set i q, resolved := resolved, nextCalls := nextCalls } := by
  have hkeep : ∀ element, Backed s element → Backed { s with
      promises := s.promises.set i q, resolved := resolved, nextCalls := nextCalls } element := by
    intro element hb j hj
    obtain ⟨r, hr, hrm, hrf⟩ := hb j hj
    by_cases hij : j = i
    · subst hij
      obtain rfl : p = r := Option.some.inj (hp.symm.trans hr)
      obtain ⟨hlt, _⟩ := List.getElem?_eq_some_iff.mp hp
      exact ⟨q, List.getElem?_set_self hlt, by rw [hqp, hrm], fun hf => hrm ▸ hq hf⟩
    · exact ⟨r, (List.getElem?_set_ne (Ne.symm hij)).trans hr, hrm, fun hf => hsub (hrf hf)⟩
  exact ⟨h.listening, h.arriving, fun element he => hkeep element (h.queue element he),
    fun a ha => hkeep a.element (h.processing a ha)⟩

/-- Every step keeps the promises backed. -/
theorem step_promised {e : Event β γ} (h : Promised s) (hs : step cfg s e = some t) :
    Promised t := by
  have hdecoded : ∀ i, Promised (decoded s i) := by
    intro i
    refine ⟨h.listening, fun ha => h.arriving ?_, h.queue, h.processing⟩
    intro hnil
    simp [decoded, hnil] at ha
  have hobserver : ∀ {i : Nat} {m}, s.arriving[i]? = some m → s.observer = true := by
    intro i m hm
    exact h.arriving (List.ne_nil_of_mem (List.mem_of_getElem? hm))
  cases step_effect hs with
  | quiet _ hq => exact h.quiet hq
  | arrive hl => exact ⟨h.listening, fun _ => h.listening hl, h.queue, h.processing⟩
  | @retry i failure m errorCount errorCount' settlement nextCalls hp hne =>
    exact h.set hp ⟨m, errorCount', settlement⟩ rfl (List.Subset.refl _)
      (fun hf => absurd hf hne) nextCalls
  | @resolve i m errorCount hp =>
    exact h.set hp ⟨m, errorCount, .fulfilled⟩ rfl (List.subset_append_left _ _)
      (fun _ => List.mem_append_right _ (List.mem_singleton_self _)) _
  | @reject i m _ _ _ _ hq =>
    have hd := hdecoded i
    have hreject : Promised { decoded s i with dropped := s.dropped ++ [m.position] } :=
      ⟨hd.listening, hd.arriving, hd.queue, hd.processing⟩
    exact hreject.quiet hq
  | enter hm hu => exact (((hdecoded _).push (hobserver hm) _).quiet hu.quiet).processQueue
  | overflow hm hq => exact ((hdecoded _).push (hobserver hm) _).quiet hq
  | fail _ => exact h.caught _ _
  | succeed _ _ hu => exact ((h.succeed _ _).quiet hu.quiet).runQueue 0
  | underflow _ _ hu => exact ((h.succeed _ _).quiet hu.quiet).caught _ _

/-- A settled element has been processed by the observer. -/
theorem Promised.resolved (h : Promised s) {a : Activation γ} (ha : s.processing = some a)
    (hout : outcomeOf s a.element none = true) :
    a.element.position ∈ (resolve s a).resolved := by
  unfold resolve
  cases hpromise : a.element.promise with
  | none => exact List.mem_append_right _ (List.mem_singleton_self _)
  | some i =>
    obtain ⟨⟨m, errorCount, settlement⟩, hp, _, hf⟩ := h.processing a ha i hpromise
    refine hf ?_
    rw [outcomeOf, hpromise] at hout
    simp only [hp] at hout
    cases settlement with
    | fulfilled => rfl
    | pending => simp at hout
    | rejected error => simp at hout

/-- A step that leaves none behind is a careful move. -/
theorem careful_permits {e : Event β γ} (h : Promised s) (ho : InArrivalOrder s e)
    (hl : LeavesNoneBehind s e) : Permits (Buffer.Careful Position.Before) s e := by
  cases e with
  | data m => exact hl
  | deserialized i result flow =>
    cases result with
    | error error => trivial
    | ok value =>
      intro p hp
      obtain ⟨m, hm, rfl⟩ := view_waiting hp
      refine ⟨fun x hx hxm => ?_, hl m hm⟩
      have hx' : x ∈ (s.arriving.take i).map (·.position) := by
        simpa only [view, List.map_take] using hx
      obtain ⟨y, hy, rfl⟩ := List.mem_map.mp hx'
      exact ho m hm y hy hxm.1
  | settled failure commits flow =>
    cases failure with
    | some error => trivial
    | none =>
      intro a ha hout cleared p hp
      have hp' : a.element.position = p := by simpa [view, ha] using hp
      refine ⟨hp' ▸ h.resolved ha hout, fun x hx => ?_⟩
      obtain ⟨element, he, rfl⟩ : ∃ element, s.queue.head? = some element ∧
          element.position = x := by simpa [view] using hx
      exact (hl a ha element he).trans hp'
  | start | connected | seeked | retried | clientError | disconnected | stop
  | disconnectCallback => trivial

/-- A consumer between sessions, with the record of the next session still empty. -/
structure Fresh (s : State β γ) : Prop where
  view : view s = {}
  listening : s.listening = true → s.observer = true

theorem Fresh.init : Fresh (State.init : State β γ) := ⟨rfl, nofun⟩

/-- Between sessions, nothing is queued that a promise would have to back. -/
theorem Fresh.promised (h : Fresh s) : Promised s := by
  have hq : s.queue.map (·.position) = [] := congrArg Buffer.queue h.view
  have ha : s.arriving.map (·.position) = [] := congrArg Buffer.waiting h.view
  have hp : s.processing.map (·.element.position) = none := congrArg Buffer.hand h.view
  simp only [List.map_eq_nil_iff, Option.map_eq_none_iff] at hq ha hp
  refine ⟨h.listening, fun hne => absurd ha hne, ?_, ?_⟩
  · simp [hq]
  · simp [hp]

/-- In a session whose decodings complete in the order of arrival and whose steps leave none
behind, everything delivered below a committed offset has been processed. -/
theorem at_least_once {es : List (Event β γ)} (hs : Fresh s)
    (h : (machine cfg).Run (fun s e => InArrivalOrder s e ∧ LeavesNoneBehind s e) s es t)
    (c : Position) (hc : c ∈ t.handled) (d : Position) (hd : d ∈ t.delivered)
    (hbefore : d.Before c) : d ∈ t.resolved := by
  obtain ⟨_, hreach⟩ := h.simulate (n := Buffer.machine Position) (I := Promised)
    (H := Buffer.Careful Position.Before) view
    (fun _ _ _ hi hg hs => ⟨step_promised hi hs,
      step_reach (Buffer.Careful.lenient _) (careful_permits hi hg.1 hg.2) hs⟩) hs.promised
  rw [hs.view] at hreach
  have hkept := Buffer.Kept.of_reach Position.not_before_self hreach
  exact (hkept.done c hc).2 d hd hbefore

/-- The message at offset 0 cannot be decoded, and the one behind it is already being decoded. -/
def undecodable : List (Event Unit Unit) :=
  [.start, .connected true, .data (valued 0), .data (valued 1),
    .deserialized 0 (.error (.unknown "invalid wire type")) none,
    .deserialized 0 (.ok (some ())) none, .settled none [] none]

/-- Offset 1 is committed, and offset 0 was never handed to the observer. -/
theorem undecodable_committed_over :
    ∃ s, (machine impatient).Run InArrivalOrder State.init undecodable s ∧
      s.delivered.map (·.offset) = [0, 1] ∧ s.handled.map (·.offset) = [1] ∧
      s.committed.map (·.offset) = [1] ∧ s.resolved.map (·.offset) = [1] ∧ s.closed = 0 :=
  Machine.exists_run_of_exec (by decide)

/-- With one message at a time, the run meets the condition and its message is resolved. -/
theorem patient_at_least_once : ∃ s,
    (machine impatient).Run (fun s e => InArrivalOrder s e ∧ LeavesNoneBehind s e) State.init
      patient s ∧ (⟨"blocks", 0, 0⟩ : Position) ∈ s.resolved := by
  obtain ⟨s, hr, hc, hd⟩ : ∃ s, (machine impatient).Run
      (fun s e => InArrivalOrder s e ∧ LeavesNoneBehind s e) State.init patient s ∧
      ⟨"blocks", 0, 1⟩ ∈ s.handled ∧ ⟨"blocks", 0, 0⟩ ∈ s.delivered :=
    Machine.exists_run_of_exec (by decide)
  exact ⟨s, hr, at_least_once Fresh.init hr _ hc _ hd (by decide)⟩

end ChainIndexer.Consumer
