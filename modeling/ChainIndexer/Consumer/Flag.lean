import ChainIndexer.Consumer.Effect

/-!
# The processing flag and the activation behind it

`queueIsProcessing` is raised when `processQueue` starts and lowered when its
loop finds the queue empty. The return inside the catch block leaves it raised.
So the flag is backed by an activation exactly in those histories in which no
iteration gives up, and after one that does nothing lowers it again.
-/

namespace ChainIndexer.Consumer

variable {β γ : Type} {cfg : Config} {s t u : State β γ}

/-- The flag is raised whenever an activation of `processQueue` exists. -/
def Flagged (s : State β γ) : Prop := s.processing.isSome = true → s.queueIsProcessing = true

/-- The flag is raised only while an activation of `processQueue` exists. -/
def Attended (s : State β γ) : Prop := s.queueIsProcessing = true → s.processing.isSome = true

/-- A step after which the iteration of `processQueue` goes on: what it catches, if
anything, is neither one failure too many nor a fatal base error. -/
def Endures (cfg : Config) (s : State β γ) (e : Event β γ) : Prop :=
  match s.processing, e with
  | some a, .settled (some error) _ _ => givesUp cfg a error = false
  | some a, .settled none _ (some error) => givesUp cfg a error = false
  | _, _ => True

instance (s : State β γ) : Decidable (Attended s) := inferInstanceAs (Decidable (_ → _))

instance (s : State β γ) (e : Event β γ) : Decidable (Endures cfg s e) := by
  unfold Endures
  split <;> infer_instance

/-- Flag and activation stay as they are. -/
structure SameLoop (s t : State β γ) : Prop where
  queueIsProcessing : t.queueIsProcessing = s.queueIsProcessing
  processing : t.processing = s.processing

theorem SameLoop.refl (s : State β γ) : SameLoop s s := ⟨rfl, rfl⟩

theorem SameLoop.trans (h : SameLoop s t) (k : SameLoop t u) : SameLoop s u :=
  ⟨k.queueIsProcessing.trans h.queueIsProcessing, k.processing.trans h.processing⟩

/-- A flag that stays as it is is raised as before. -/
theorem SameLoop.flagged (h : SameLoop s t) (hs : Flagged s) : Flagged t := by
  unfold Flagged
  rw [h.queueIsProcessing, h.processing]
  exact hs

/-- And it is attended as before. -/
theorem SameLoop.attended_iff (h : SameLoop s t) : Attended t ↔ Attended s := by
  unfold Attended
  rw [h.queueIsProcessing, h.processing]

/-- What moves no message does not touch the loop. -/
theorem Quiet.sameLoop (h : Quiet s t) : SameLoop s t := ⟨h.queueIsProcessing, h.processing⟩

private theorem push_sameLoop (cfg : Config) (s : State β γ) (m : Message γ) :
    SameLoop s (push cfg s m) := by
  obtain ⟨element, nextCalls, promises, _, h⟩ := push_eq cfg s m
  rw [h]
  exact ⟨rfl, rfl⟩

/-- Nor does a message that enters the queue. -/
theorem push_decoded_sameLoop (cfg : Config) (s : State β γ) (i : Nat) (m : Message γ) :
    SameLoop s (push cfg (decoded s i) m) :=
  SameLoop.trans (t := decoded s i) ⟨rfl, rfl⟩ (push_sameLoop cfg _ m)

theorem succeed_sameLoop (cfg : Config) (s : State β γ) (a : Activation γ)
    (commits : List (Option Thrown)) : SameLoop s (succeed cfg s a commits) := by
  obtain ⟨committed, _, h⟩ :=
    safeCommitMessage_quiet cfg (resolve s a) a.element.position commits 0
  exact ⟨h.queueIsProcessing, h.processing⟩

/-- At the head of its loop `processQueue` keeps the flag and itself, or ends both. -/
theorem runQueue_attended (s : State β γ) (errorCount : Nat) :
    Attended (runQueue s errorCount) := by
  cases hq : s.queue with
  | nil => simp [runQueue_nil hq, Attended]
  | cons element rest => simp [runQueue_cons hq, Attended]

theorem runQueue_flagged (hs : s.queueIsProcessing = true) (errorCount : Nat) :
    Flagged (runQueue s errorCount) := by
  cases hq : s.queue with
  | nil => simp [runQueue_nil hq, Flagged]
  | cons element rest => simp [runQueue_cons hq, Flagged, hs]

private theorem processQueue_flagged (h : Flagged s) : Flagged (processQueue s) := by
  unfold processQueue
  split
  · exact runQueue_flagged rfl 0
  · exact h

/-- Starting `processQueue` never adds to a stall and never removes one. -/
theorem processQueue_attended_iff (s : State β γ) :
    Attended (processQueue s) ↔ Attended s := by
  unfold processQueue
  split
  · rename_i h
    have hf : s.queueIsProcessing = false := by simp_all
    exact ⟨fun _ hq => by simp [hf] at hq, fun _ => runQueue_attended _ 0⟩
  · exact Iff.rfl

/-- The catch block keeps the flag backed exactly when it does not give up. -/
theorem caught_attended_iff (hs : s.queueIsProcessing = true) (a : Activation γ)
    (error : Thrown) : Attended (caught cfg s a error) ↔ givesUp cfg a error = false := by
  unfold caught
  split
  · rename_i hg
    have hloop := (onError_quiet s (KafkaError.createUnknown error false)).sameLoop
    simp [Attended, hloop.queueIsProcessing, hs, hg]
  · rename_i hg
    exact ⟨fun _ => by simpa using hg, fun _ => runQueue_attended _ _⟩

theorem caught_flagged (hs : s.queueIsProcessing = true) (a : Activation γ)
    (error : Thrown) : Flagged (caught cfg s a error) := by
  unfold caught
  split
  · simp [Flagged]
  · exact runQueue_flagged hs _

/-- Every event keeps the flag raised while an activation exists. -/
theorem step_flagged {e : Event β γ} (hs : Flagged s) (h : step cfg s e = some t) :
    Flagged t := by
  have hraised : ∀ {a}, s.processing = some a → s.queueIsProcessing = true := by
    intro a ha
    exact hs (by simp [ha])
  cases step_effect h with
  | quiet _ hq => exact hq.sameLoop.flagged hs
  | arrive | retry | resolve => exact hs
  | reject _ hq => exact hq.sameLoop.flagged hs
  | enter _ hu =>
    exact processQueue_flagged
      (((push_decoded_sameLoop cfg s _ _).trans hu.quiet.sameLoop).flagged hs)
  | overflow _ hq => exact ((push_decoded_sameLoop cfg s _ _).trans hq.sameLoop).flagged hs
  | fail ha => exact caught_flagged (hraised ha) _ _
  | succeed ha _ hu =>
    have hloop := (succeed_sameLoop cfg s _ _).trans hu.quiet.sameLoop
    exact runQueue_flagged (hloop.queueIsProcessing.trans (hraised ha)) 0
  | underflow ha _ hu =>
    have hloop := (succeed_sameLoop cfg s _ _).trans hu.quiet.sameLoop
    exact caught_flagged (hloop.queueIsProcessing.trans (hraised ha)) _ _

/-- The flag stays backed by an activation exactly when the event lets the loop go on. -/
theorem step_attended_iff {e : Event β γ} (hs : Flagged s) (h : step cfg s e = some t) :
    Attended t ↔ Attended s ∧ Endures cfg s e := by
  have hraised : ∀ {a}, s.processing = some a → s.queueIsProcessing = true ∧ Attended s := by
    intro a ha
    exact ⟨hs (by simp [ha]), fun _ => by simp [ha]⟩
  cases step_effect h with
  | quiet he hq =>
    have hend : Endures cfg s e := by
      unfold Endures
      split
      · exact he.elim
      · exact he.elim
      · trivial
    simp [hq.sameLoop.attended_iff, hend]
  | arrive | retry | resolve => simp [Attended, Endures]
  | reject _ hq =>
    have hloop : SameLoop s t := ⟨hq.queueIsProcessing, hq.processing⟩
    simp [hloop.attended_iff, Endures]
  | enter _ hu =>
    have hloop := (push_decoded_sameLoop cfg s _ _).trans hu.quiet.sameLoop
    simp [processQueue_attended_iff, hloop.attended_iff, Endures]
  | overflow _ hq =>
    have hloop := (push_decoded_sameLoop cfg s _ _).trans hq.sameLoop
    simp [hloop.attended_iff, Endures]
  | fail ha =>
    obtain ⟨hf, hatt⟩ := hraised ha
    simp [caught_attended_iff hf, hatt, Endures, ha]
  | succeed ha _ hu =>
    obtain ⟨_, hatt⟩ := hraised ha
    simp [runQueue_attended, hatt, Endures]
  | underflow ha _ hu =>
    obtain ⟨hf, hatt⟩ := hraised ha
    have hloop := (succeed_sameLoop cfg s _ _).trans hu.quiet.sameLoop
    simp [caught_attended_iff (hloop.queueIsProcessing.trans hf), hatt, Endures, ha]

/-- `pause` or `resume` throws inside `onData` only while an activation of `processQueue`
exists, or without an observer. -/
def Flows (s : State β γ) : Event β γ → Prop
  | .deserialized _ (.ok _) (some _) => s.observer = true → s.processing.isSome = true
  | _ => True

instance (s : State β γ) (e : Event β γ) : Decidable (Flows s e) := by
  unfold Flows
  split <;> infer_instance

/-- The steps that keep the consumer going. -/
def KeepsGoing (cfg : Config) (s : State β γ) (e : Event β γ) : Prop := Endures cfg s e ∧ Flows s e

instance (s : State β γ) (e : Event β γ) : Decidable (KeepsGoing cfg s e) :=
  inferInstanceAs (Decidable (_ ∧ _))

/-- A message enqueued for an observer leaves an activation of `processQueue`. -/
def Serves (cfg : Config) (s : State β γ) : Event β γ → Prop
  | .deserialized i (.ok value) flow => s.observer = true →
      ∀ t, deserialized cfg s i (.ok value) flow = some t → t.processing.isSome = true
  | _ => True

/-- Where the flag is backed, calling `processQueue` on a nonempty queue leaves an activation. -/
theorem processQueue_processing (hs : Attended s) (ho : s.observer = true) (hq : s.queue ≠ []) :
    (processQueue s).processing.isSome = true := by
  unfold processQueue
  split
  · obtain ⟨element, rest, hqueue⟩ := List.exists_cons_of_ne_nil hq
    rw [runQueue_cons (s := { s with queueIsProcessing := true }) hqueue]
    rfl
  · rename_i h
    exact hs (by simpa [ho] using h)

/-- Where the flag is backed, an enqueued message is served unless back-pressure throws. -/
theorem serves_iff_flows {e : Event β γ} (hs : Attended s) (h : step cfg s e = some t) :
    Serves cfg s e ↔ Flows s e := by
  cases e with
  | deserialized i result flow =>
    cases result with
    | error error => exact Iff.rfl
    | ok value =>
      have hserves : Serves cfg s (.deserialized i (.ok value) flow) ↔
          (s.observer = true → t.processing.isSome = true) := by
        unfold Serves
        refine ⟨fun hall ho => hall ho t h, fun hone ho u hu => ?_⟩
        have hut : t = u := Option.some.inj (h.symm.trans hu)
        exact hut ▸ hone ho
      rw [hserves]
      cases deserialized_effect h with
      | quiet he _ => exact he.elim
      | enter _ hu =>
        have hatt : Attended _ := ((push_decoded_sameLoop cfg s _ _).trans
          hu.quiet.sameLoop).attended_iff.mpr hs
        obtain ⟨_, _, rfl⟩ := hu
        obtain ⟨element, nextCalls, promises, _, hp⟩ := push_eq cfg (decoded s i) _
        refine ⟨fun _ => trivial, fun _ ho => processQueue_processing hatt ?_ ?_⟩
        · rw [hp]
          exact ho
        · simp [hp]
      | overflow _ hq =>
        have hloop := (push_decoded_sameLoop cfg s _ _).trans hq.sameLoop
        rw [hloop.processing]
        exact Iff.rfl
  | start | connected | data | seeked | retried | settled | clientError | disconnected | stop
  | disconnectCallback => exact Iff.rfl

/-- A history leaves the flag backed exactly when in each of its steps the loop goes on. -/
theorem attended_iff_run_endures {es : List (Event β γ)}
    (h : (machine cfg).Run Machine.Free State.init es s) :
    Attended s ↔ (machine cfg).Run (Endures cfg) State.init es s :=
  h.iff_guarded (fun _ _ _ hJ _ hs => step_flagged hJ hs)
    (fun _ _ _ hJ _ hs => step_attended_iff hJ hs) nofun nofun

/-- The consumer never stalls itself in exactly those histories in which no iteration of
`processQueue` gives up and no throw of back-pressure keeps `onData` from calling it. -/
theorem attended_and_serves_iff {es : List (Event β γ)}
    (h : (machine cfg).Run Machine.Free State.init es s) :
    Attended s ∧ (machine cfg).Run (Serves cfg) State.init es s ↔
      (machine cfg).Run (KeepsGoing cfg) State.init es s := by
  have hand : (machine cfg).Run (KeepsGoing cfg) State.init es s ↔
      (machine cfg).Run (Endures cfg) State.init es s ∧ (machine cfg).Run Flows State.init es s :=
    Machine.Run.and_iff
  rw [hand, ← attended_iff_run_endures h]
  refine and_congr_right fun hs => ?_
  have hend := (attended_iff_run_endures h).mp hs
  refine hend.congr (I := fun t => Flagged t ∧ Attended t) ⟨nofun, nofun⟩ ?_ ?_
  · intro t e u ht hg hs
    exact ⟨step_flagged ht.1 hs, (step_attended_iff ht.1 hs).mpr ⟨ht.2, hg⟩⟩
  · intro t e u ht hs
    exact serves_iff_flows ht.2 hs

/-- A consumer that gives up at the first failure and pauses at two queued messages. -/
def impatient : Config where
  mode := .synchronous
  maxBufferLength := 2
  maxRetries := 0
  startOffset _ := 0

/-- A tombstone on the only partition. -/
def tombstone (offset : Nat) : Message Unit := ⟨⟨"blocks", 0, offset⟩, none⟩

/-- A message whose processing fails for good, a restart, and the next message. -/
def restartAfterFailure : List (Event Unit Unit) :=
  [.start, .connected true, .data (tombstone 0), .deserialized 0 (.ok none) none,
    .settled (some (.unknown "boom")) [] none, .disconnectCallback,
    .start, .connected true, .data (tombstone 1), .deserialized 0 (.ok none) none]

/-- After a failure for good the restarted consumer buffers a message no activation serves. -/
theorem restart_stalls :
    ∃ s, (machine impatient).Run Machine.Free State.init restartAfterFailure s ∧
      ¬ Attended s ∧ s.observer = true ∧ s.queue.length = 1 ∧ s.processing.isNone = true :=
  Machine.exists_run_of_exec (by decide)

/-- One message is processed and the next one arrives. -/
def undisturbed : List (Event Unit Unit) :=
  [.start, .connected true, .data (tombstone 0), .deserialized 0 (.ok none) none,
    .settled none [] none, .data (tombstone 1), .deserialized 0 (.ok none) none]

/-- In this run the flag is raised only while an activation exists, and every step serves the queue.
-/
theorem undisturbed_attended_and_serves : ∃ s,
    (machine impatient).Run Machine.Free State.init undisturbed s ∧ s.queue.length = 1 ∧
      Attended s ∧ (machine impatient).Run (Serves impatient) State.init undisturbed s := by
  obtain ⟨s, hr, hq⟩ :
      ∃ s, (machine impatient).Run (KeepsGoing impatient) State.init undisturbed s ∧
        s.queue.length = 1 := Machine.exists_run_of_exec (by decide)
  have hfree := hr.mono (H := Machine.Free) fun _ _ _ => trivial
  exact ⟨s, hfree, hq, (attended_and_serves_iff hfree).mpr hr⟩

end ChainIndexer.Consumer
