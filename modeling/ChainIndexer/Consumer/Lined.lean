import ChainIndexer.Consumer.Effect

/-!
# The line of messages before a consumer

As long as the messages of a log enter the queue in order and none after a message was dropped, the
queue lines up with the log behind the messages handled. The asynchronous consumer numbers its
promises in the same order, so each of its elements has the promise of its place in the line.
-/

namespace ChainIndexer.Consumer

variable {β γ : Type} {cfg : Config} {mode : Mode} {s t : State β γ} {log : List γ} {base : Nat}

/-- Messages enter in the order of the log, from the base on, and none after one was dropped. -/
def Orderly (log : List γ) (base : Nat) (s : State β γ) : Event β γ → Prop
  | .deserialized i (.ok value) _ => s.dropped = [] ∧ ∃ m v, s.arriving[i]? = some m ∧
      value = some v ∧ m.position.offset = base + s.entered.length ∧
      log[base + s.entered.length]? = some v
  | _ => True

/-- The promise of the message that enters the queue with this number. -/
def ticket : Mode → Nat → Option Nat
  | .synchronous, _ => none
  | .asynchronous, number => some number

/-- A queued message is the entry of the log with this number behind the base. -/
def Carries (mode : Mode) (log : List γ) (base : Nat) (element : QueueObject γ) (number : Nat) :
    Prop :=
  element.promise = ticket mode number ∧ element.position.offset = base + number ∧
    ∃ v, log[base + number]? = some v ∧ element.message.value = some v

/-- The queue lines up with the log behind the messages handled. -/
structure Queued (mode : Mode) (log : List γ) (base : Nat) (s : State β γ) : Prop where
  queue : ∀ j element, s.queue[j]? = some element →
    Carries mode log base element (s.handled.length + j)
  entered : s.dropped = [] → s.entered.length = s.handled.length + s.queue.length
  promises : mode = .asynchronous → s.promises.length = s.entered.length
  committed : ∀ p ∈ s.committed, p.offset < base + s.handled.length

/-- And the message that is being handled is the first one of the line, unless it was cleared. -/
structure Lined (mode : Mode) (log : List γ) (base : Nat) (s : State β γ) : Prop
    extends Queued mode log base s where
  processing : ∀ a, s.processing = some a → Carries mode log base a.element s.handled.length ∧
    s.queueIsProcessing = true ∧
    ((∃ rest, s.queue = a.element :: rest) ∨ s.queue = [] ∧ s.dropped ≠ [])

theorem Lined.init : Lined mode log base (State.init : State β γ) :=
  ⟨⟨nofun, fun _ => rfl, fun _ => rfl, nofun⟩, nofun⟩

/-- Events that move no message keep the line, also if they clear the queue. -/
theorem Queued.quiet (h : Queued mode log base s) (hq : Quiet s t) : Queued mode log base t := by
  have hhandled := hq.handled
  refine ⟨fun j element hj => ?_, fun hnone => ?_, fun hm => ?_, ?_⟩
  · rcases hq.queue with ⟨hsame, -⟩ | ⟨hcleared, -⟩
    · rw [hhandled]
      exact h.queue j element (hsame ▸ hj)
    · simp [hcleared] at hj
  · rcases hq.queue with ⟨hsame, hdropped⟩ | ⟨hcleared, hdropped⟩
    · rw [hsame, hhandled, hq.entered]
      exact h.entered (hdropped ▸ hnone)
    · rw [hdropped, List.append_eq_nil_iff, List.map_eq_nil_iff] at hnone
      rw [hcleared, hhandled, hq.entered, h.entered hnone.1, hnone.2]
  · rw [hq.promises, hq.entered]
    exact h.promises hm
  · rw [hhandled, hq.committed]
    exact h.committed

/-- Such events leave the message that is being handled at the front of the line. -/
theorem Lined.quiet (h : Lined mode log base s) (hq : Quiet s t) : Lined mode log base t := by
  refine ⟨h.toQueued.quiet hq, fun a ha => ?_⟩
  obtain ⟨hcarries, hflag, hfront⟩ := h.processing a (hq.processing ▸ ha)
  refine ⟨hq.handled ▸ hcarries, hq.queueIsProcessing ▸ hflag, ?_⟩
  rcases hq.queue with ⟨hsame, hdropped⟩ | ⟨hcleared, hdropped⟩
  · rwa [hsame, hdropped]
  · refine Or.inr ⟨hcleared, ?_⟩
    rw [hdropped]
    rcases hfront with ⟨rest, hfront⟩ | ⟨-, hsome⟩
    · simp [hfront]
    · simp [hsome]

/-- The head of the loop reads the front of the line. -/
theorem Queued.runQueue (h : Queued mode log base s) (hflag : s.queueIsProcessing = true)
    (errorCount : Nat) : Lined mode log base (runQueue s errorCount) := by
  cases hq : s.queue with
  | nil =>
    rw [runQueue_nil hq]
    exact ⟨⟨h.queue, h.entered, h.promises, h.committed⟩, nofun⟩
  | cons element rest =>
    rw [runQueue_cons hq]
    refine ⟨⟨h.queue, h.entered, h.promises, h.committed⟩, fun a ha => ?_⟩
    obtain rfl := Option.some.inj ha
    exact ⟨h.queue 0 element (by rw [hq]; rfl), hflag, Or.inl ⟨rest, hq⟩⟩

/-- A call of the loop keeps the line. -/
theorem Lined.processQueue (h : Lined mode log base s) : Lined mode log base (processQueue s) := by
  unfold Consumer.processQueue
  split
  · have hflagged : Queued mode log base { s with queueIsProcessing := true } :=
      ⟨h.queue, h.entered, h.promises, h.committed⟩
    exact hflagged.runQueue rfl 0
  · exact h

/-- So does a call that rejects: it is made again for the front of the line. -/
theorem Queued.caught (h : Queued mode log base s) (hflag : s.queueIsProcessing = true)
    (a : Activation γ) (error : Thrown) : Lined mode log base (caught cfg s a error) := by
  unfold Consumer.caught
  split
  · have hquiet := h.quiet (onError_quiet s (KafkaError.createUnknown error false))
    exact ⟨⟨hquiet.queue, hquiet.entered, hquiet.promises, hquiet.committed⟩, nofun⟩
  · exact h.runQueue hflag _

/-- A message that is queued gets a promise of its own or none, as its mode has it. -/
theorem enqueue_ticket (hm : cfg.mode = mode) (s : State β γ) (m : Message γ) :
    (enqueue cfg s m).1.promise = ticket mode s.promises.length ∧
      (mode = .asynchronous → (enqueue cfg s m).2.promises.length = s.promises.length + 1) := by
  subst hm
  unfold enqueue
  cases cfg.mode with
  | synchronous => exact ⟨rfl, nofun⟩
  | asynchronous =>
    refine ⟨rfl, fun _ => ?_⟩
    dsimp only
    split
    · exact List.length_append
    · exact List.length_append

/-- Only a concurrent consumer has tickets. -/
theorem ticket_congr {m n : Nat} (h : mode = .asynchronous → m = n) :
    ticket mode m = ticket mode n := by
  cases mode with
  | synchronous => rfl
  | asynchronous => rw [h rfl]

/-- The next message of the log joins the line. -/
theorem Lined.push (hm : cfg.mode = mode) (h : Lined mode log base s) {i : Nat}
    {value : Option γ} {flow : Option Thrown} {m : Message β} (harriving : s.arriving[i]? = some m)
    (horderly : Orderly log base s (.deserialized i (.ok value) flow)) :
    Lined mode log base (push cfg (decoded s i) ⟨m.position, value⟩) := by
  obtain ⟨hdropped, m', v, harriving', rfl, hoffset, hlog⟩ := horderly
  obtain rfl : m = m' := Option.some.inj (harriving.symm.trans harriving')
  have hentered := h.entered hdropped
  obtain ⟨hpromise, hmore⟩ := enqueue_ticket hm (decoded s i) ⟨m.position, some v⟩
  obtain ⟨hmessage, nextCalls, promises, heq⟩ := enqueue_eq cfg (decoded s i) ⟨m.position, some v⟩
  have hcarries : Carries mode log base (enqueue cfg (decoded s i) ⟨m.position, some v⟩).1
      (s.handled.length + s.queue.length) := by
    rw [← hentered]
    refine ⟨hpromise.trans (ticket_congr h.promises), ?_, v, hlog, ?_⟩
    · rw [QueueObject.position, hmessage]
      exact hoffset
    · rw [hmessage]
  unfold Consumer.push
  generalize (enqueue cfg (decoded s i) ⟨m.position, some v⟩).1 = element at hcarries
  rw [heq] at hmore ⊢
  refine ⟨⟨fun j other hj => ?_, fun _ => ?_, fun hasync => ?_, h.committed⟩, fun a ha => ?_⟩
  · change (s.queue ++ [element])[j]? = some other at hj
    rcases Nat.lt_or_ge j s.queue.length with hlt | hge
    · rw [List.getElem?_append_left hlt] at hj
      exact h.queue j other hj
    · rw [List.getElem?_append_right hge] at hj
      obtain ⟨hlt, rfl⟩ := List.getElem?_eq_some_iff.mp hj
      rw [List.length_singleton] at hlt
      obtain rfl : j = s.queue.length := by omega
      simpa [decoded] using hcarries
  · change (s.entered ++ [m.position]).length = s.handled.length + (s.queue ++ [element]).length
    rw [List.length_append, List.length_append, hentered, Nat.add_assoc]
    rfl
  · change promises.length = (s.entered ++ [m.position]).length
    rw [List.length_append, ← h.promises hasync]
    exact hmore hasync
  · obtain ⟨hfirst, hflag, hfront⟩ := h.processing a ha
    refine ⟨hfirst, hflag, Or.inl ?_⟩
    rcases hfront with ⟨rest, hfront⟩ | ⟨-, hsome⟩
    · refine ⟨rest ++ [element], ?_⟩
      change s.queue ++ [element] = _
      rw [hfront]
      rfl
    · exact absurd hdropped hsome

/-- The message handled leaves the line, whether or not it can be committed. -/
theorem Lined.succeed (cfg : Config) (h : Lined mode log base s) {a : Activation γ}
    (ha : s.processing = some a) (commits : List (Option Thrown)) :
    Queued mode log base (succeed cfg s a commits) ∧
      (succeed cfg s a commits).handled.length = s.handled.length + 1 ∧
      (succeed cfg s a commits).queueIsProcessing = true := by
  obtain ⟨hcarries, hflag, hfront⟩ := h.processing a ha
  obtain ⟨committed, hcommitted, hquiet⟩ :=
    safeCommitMessage_quiet cfg (resolve s a) a.element.position commits 0
  unfold Consumer.succeed
  generalize safeCommitMessage cfg (resolve s a) a.element.position commits 0 = v at hquiet
  have hhandled : v.handled = s.handled ++ [a.element.position] := hquiet.handled
  refine ⟨⟨fun j element hj => ?_, fun hnone => ?_, fun hasync => ?_, fun p hp => ?_⟩,
    by simp [hhandled], hquiet.queueIsProcessing.trans hflag⟩
  · dsimp only at hj ⊢
    rcases hquiet.queue with ⟨hsame, -⟩ | ⟨hcleared, -⟩
    · change v.queue = s.queue at hsame
      rw [hsame, List.getElem?_tail] at hj
      have hnext := h.queue (j + 1) element hj
      rw [hhandled, List.length_append, List.length_singleton]
      rwa [show s.handled.length + 1 + j = s.handled.length + (j + 1) by omega]
    · simp [hcleared] at hj
  · dsimp only at hnone ⊢
    rcases hquiet.queue with ⟨hsame, hdropped⟩ | ⟨hcleared, hdropped⟩
    · change v.queue = s.queue at hsame
      change v.dropped = s.dropped at hdropped
      have hentered := h.entered (hdropped ▸ hnone)
      rcases hfront with ⟨rest, hfront⟩ | ⟨-, hsome⟩
      · rw [hquiet.entered, hsame, hhandled]
        change s.entered.length = _
        rw [hentered, hfront]
        simp
        omega
      · exact absurd (hdropped ▸ hnone) hsome
    · rw [hdropped, List.append_eq_nil_iff, List.map_eq_nil_iff] at hnone
      rcases hfront with ⟨rest, hfront⟩ | ⟨-, hsome⟩
      · change s.dropped = [] ∧ s.queue = [] at hnone
        simp [hfront] at hnone
      · exact absurd hnone.1 hsome
  · exact (congrArg List.length hquiet.promises).trans
      ((h.promises hasync).trans (congrArg List.length hquiet.entered.symm))
  · dsimp only at hp ⊢
    rw [hhandled, List.length_append, List.length_singleton]
    have hcommitted' : v.committed = committed := hquiet.committed
    rw [hcommitted'] at hp
    rcases hcommitted with rfl | rfl
    · rcases List.mem_append.mp hp with hold | hnew
      · have := h.committed p hold
        omega
      · rw [List.mem_singleton.mp hnew, hcarries.2.1]
        omega
    · have := h.committed p hp
      omega

/-! ## A step -/

/-- The loop of `processQueue` only ever reads what has been handled. -/
theorem runQueue_handled (s : State β γ) (errorCount : Nat) :
    (runQueue s errorCount).handled = s.handled := by
  unfold runQueue
  split <;> rfl

private theorem processQueue_handled (s : State β γ) : (processQueue s).handled = s.handled := by
  unfold processQueue
  split
  · exact runQueue_handled _ 0
  · rfl

/-- A message that is caught is not handled. -/
theorem caught_handled (s : State β γ) (a : Activation γ) (error : Thrown) :
    (caught cfg s a error).handled = s.handled := by
  unfold caught
  split
  · exact (onError_quiet s _).handled
  · exact runQueue_handled s _

/-- Nor is one that enters the queue. -/
theorem push_handled (s : State β γ) (m : Message γ) : (push cfg s m).handled = s.handled := by
  obtain ⟨element, nextCalls, promises, -, heq⟩ := push_eq cfg s m
  rw [heq]

/-- The await of `processQueue` settles. -/
def Event.Settles : Event β γ → Prop
  | .settled .. => True
  | _ => False

/-- Events other than the end of an await keep the line and handle nothing. -/
theorem goes_lined (hm : cfg.mode = mode) (h : Lined mode log base s) {e : Event β γ}
    (he : ¬ e.Settles) (ho : Orderly log base s e) (hs : step cfg s e = some t) :
    Lined mode log base t ∧ t.handled = s.handled := by
  cases step_effect hs with
  | quiet _ hq => exact ⟨h.quiet hq, hq.handled⟩
  | arrive => exact ⟨⟨⟨h.queue, h.entered, h.promises, h.committed⟩, h.processing⟩, rfl⟩
  | retry | resolve =>
    refine ⟨⟨⟨h.queue, h.entered, fun hasync => ?_, h.committed⟩, h.processing⟩, rfl⟩
    exact (List.length_set).trans (h.promises hasync)
  | @reject i m error flow t _ hq =>
    have hdropped : Lined mode log base { decoded s i with
        dropped := s.dropped ++ [m.position] } := by
      refine ⟨⟨h.queue, by simp, h.promises, h.committed⟩, fun a ha => ?_⟩
      obtain ⟨hcarries, hflag, hfront⟩ := h.processing a ha
      exact ⟨hcarries, hflag, hfront.imp id fun hcleared => ⟨hcleared.1, by simp⟩⟩
    exact ⟨hdropped.quiet hq, hq.handled⟩
  | enter harriving hu =>
    refine ⟨((h.push hm harriving ho).quiet hu.quiet).processQueue, ?_⟩
    rw [processQueue_handled, hu.quiet.handled, push_handled]
    rfl
  | overflow harriving hq =>
    refine ⟨(h.push hm harriving ho).quiet hq, ?_⟩
    rw [hq.handled, push_handled]
    rfl
  | fail | succeed | underflow => exact absurd trivial he

/-- An await that settles has handled its message, or has not. -/
theorem settles_lined (h : Lined mode log base s) {failure flow : Option Thrown}
    {commits : List (Option Thrown)} (hs : step cfg s (.settled failure commits flow) = some t) :
    Lined mode log base t ∧
      t.handled.length = s.handled.length + if failure.isNone then 1 else 0 := by
  cases step_effect hs with
  | quiet he => exact he.elim
  | fail ha =>
    refine ⟨h.caught (h.processing _ ha).2.1 _ _, ?_⟩
    rw [caught_handled]
    rfl
  | @succeed a commits u ha _ hu =>
    obtain ⟨hqueued, hlength, hflag⟩ := h.succeed cfg ha commits
    refine ⟨(hqueued.quiet hu.quiet).runQueue (hu.quiet.queueIsProcessing.trans hflag) 0, ?_⟩
    rw [runQueue_handled, hu.quiet.handled, hlength]
    rfl
  | @underflow a commits error u ha _ hu =>
    obtain ⟨hqueued, hlength, hflag⟩ := h.succeed cfg ha commits
    refine ⟨(hqueued.quiet hu.quiet).caught (hu.quiet.queueIsProcessing.trans hflag) _ _, ?_⟩
    rw [caught_handled, hu.quiet.handled, hlength]
    rfl

end ChainIndexer.Consumer
