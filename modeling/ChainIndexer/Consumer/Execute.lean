import ChainIndexer.Consumer.Effect

/-!
# Event consumers

An event consumer is a synchronous consumer whose `next` calls `onEvent` and turns what that throws
into an `EventConsumerError`. Anything but a base error becomes a fatal error, which is never tried
again: whatever `maxRetries` says, an event is handed to `onEvent` once, and the first one that
fails is the last one of this consumer, also when `execute` is called again.
-/

namespace ChainIndexer

/-- `EventConsumerError.codes.UNKNOWN_ERR`. -/
def EventConsumerError.unknownErr : Int := 5000

/-- `EventConsumerError.createUnknown`. -/
def EventConsumerError.createUnknown : Thrown → BaseError
  | .base error => error
  | .librdkafka error =>
    .create "Event Consumer Error" EventConsumerError.unknownErr true (some error.message) "local"
  | .unknown message =>
    .create "Event Consumer Error" EventConsumerError.unknownErr true (some message) "local"

namespace EventConsumer

open Consumer (Config State Message Position Quiet Effect Throttled onError_quiet)

variable {β γ : Type} {cfg : Config} {s t u : State β γ} {e : Consumer.Event β γ}

/-- The `next` callback of `execute`, by what `onEvent` throws. -/
def next (failure : Option Thrown) : Option Thrown :=
  failure.map fun error => .base (EventConsumerError.createUnknown error)

/-- The events of the consumer, those of `observer.next` told by what `onEvent` throws. -/
def observed : Consumer.Event β γ → Consumer.Event β γ
  | .settled failure commits flow => .settled (next failure) commits flow
  | e => e

/-- The consumer that `execute` starts. -/
def machine (cfg : Config) : Machine (State β γ) (Consumer.Event β γ) where
  step s e := Consumer.step cfg s (observed e)

/-- `onEvent` throws no base error that is not fatal. -/
def Plain (_ : State β γ) : Consumer.Event β γ → Prop
  | .settled (some (.base error)) _ _ => error.isFatal = true
  | _ => True

instance (s : State β γ) : DecidablePred (Plain s)
  | .settled (some (.base error)) _ _ => inferInstanceAs (Decidable (error.isFatal = true))
  | .settled (some (.librdkafka _)) _ _ | .settled (some (.unknown _)) _ _ | .settled none _ _
  | .start | .connected _ | .data _ | .seeked _ _ | .deserialized _ _ _ | .retried _ _
  | .clientError _ | .disconnected | .stop | .disconnectCallback =>
    inferInstanceAs (Decidable True)

/-- What `onEvent` throws otherwise is fatal for the consumer. -/
theorem createUnknown_isFatal {error : Thrown} {commits : List (Option Thrown)}
    {flow : Option Thrown} (h : Plain s (.settled (some error) commits flow)) :
    (EventConsumerError.createUnknown error).isFatal = true := by
  cases error with
  | base error => exact h
  | librdkafka | unknown => rfl

/-- The queued messages that have not been handed to `next`. -/
def untried (s : State β γ) : List Position :=
  if s.processing.isSome then s.queue.tail.map (·.position) else s.queue.map (·.position)

/-- No message has been handed to `next` more often than it entered the queue. -/
structure Tried (s : State β γ) : Prop where
  flagged : s.processing.isSome = true → s.queueIsProcessing = true
  promises : s.promises = []
  synchronous : ∀ element ∈ s.queue, element.promise = none
  calls : (s.nextCalls ++ untried s).Sublist s.entered

theorem Tried.init : Tried (State.init : State β γ) where
  flagged := nofun
  promises := rfl
  synchronous := nofun
  calls := List.Sublist.refl _

/-- The loop of `processQueue` is about to read the front of the queue. -/
structure Ready (s : State β γ) : Prop where
  flag : s.queueIsProcessing = true
  promises : s.promises = []
  synchronous : ∀ element ∈ s.queue, element.promise = none
  calls : (s.nextCalls ++ s.queue.map (·.position)).Sublist s.entered

/-- What moves no message keeps this. -/
theorem Tried.quiet (h : Tried s) (hq : Quiet s t) : Tried t where
  flagged := by
    rw [hq.processing, hq.queueIsProcessing]
    exact h.flagged
  promises := hq.promises.trans h.promises
  synchronous := by
    rcases hq.queue with ⟨hsame, -⟩ | ⟨hnil, -⟩
    · rw [hsame]
      exact h.synchronous
    · rw [hnil]
      exact nofun
  calls := by
    have hcalls := h.calls
    rw [hq.nextCalls, hq.entered]
    unfold untried at hcalls ⊢
    rw [hq.processing]
    rcases hq.queue with ⟨hsame, -⟩ | ⟨hnil, -⟩
    · rwa [hsame]
    · rw [hnil]
      refine (List.Sublist.append_left ?_ _).trans hcalls
      simp

/-- A loop that is about to read its next message stays so. -/
theorem Ready.quiet (h : Ready s) (hq : Quiet s t) : Ready t where
  flag := hq.queueIsProcessing.trans h.flag
  promises := hq.promises.trans h.promises
  synchronous := by
    rcases hq.queue with ⟨hsame, -⟩ | ⟨hnil, -⟩
    · rw [hsame]
      exact h.synchronous
    · rw [hnil]
      exact nofun
  calls := by
    have hcalls := h.calls
    rw [hq.nextCalls, hq.entered]
    rcases hq.queue with ⟨hsame, -⟩ | ⟨hnil, -⟩
    · rwa [hsame]
    · rw [hnil]
      exact (List.Sublist.append_left (List.nil_sublist _) _).trans hcalls

/-- The loop may also end here. -/
theorem Ready.ends (h : Ready s) : Tried { s with processing := none } where
  flagged := nofun
  promises := h.promises
  synchronous := h.synchronous
  calls := h.calls

/-- The head of the loop hands the front of the queue to `next`. -/
theorem Ready.runQueue (h : Ready s) (errorCount : Nat) :
    Tried (Consumer.runQueue s errorCount) := by
  cases hq : s.queue with
  | nil =>
    rw [Consumer.runQueue_nil hq]
    exact ⟨nofun, h.promises, h.synchronous, h.calls⟩
  | cons element rest =>
    have hpromise := h.synchronous element (by rw [hq]; exact List.mem_cons_self)
    have hcalls := h.calls
    rw [Consumer.runQueue_cons hq]
    refine ⟨fun _ => h.flag, h.promises, h.synchronous, ?_⟩
    simp only [untried, hq, hpromise, Option.isSome_some, if_true, List.tail_cons]
    rw [List.append_assoc]
    rwa [hq, List.map_cons] at hcalls

/-- After a failure the loop ends or hands the front of the queue to `next` again. -/
theorem Ready.caught (h : Ready s) (a : Consumer.Activation γ) (error : Thrown) :
    Tried (Consumer.caught cfg s a error) := by
  unfold Consumer.caught
  split
  · exact (h.quiet (onError_quiet s _)).ends
  · exact h.runQueue _

/-- A call of the loop keeps this. -/
theorem Tried.processQueue (h : Tried s) : Tried (Consumer.processQueue s) := by
  unfold Consumer.processQueue
  split
  · rename_i hidle
    have hflag : s.queueIsProcessing = false := by
      rw [Bool.and_eq_true, Bool.not_eq_true'] at hidle
      exact hidle.2
    have hnone : s.processing.isSome = false := by
      rw [Bool.eq_false_iff]
      intro hsome
      rw [h.flagged hsome] at hflag
      cases hflag
    have hcalls := h.calls
    rw [untried, hnone] at hcalls
    have hready : Ready { s with queueIsProcessing := true } :=
      ⟨rfl, h.promises, h.synchronous, hcalls⟩
    exact hready.runQueue 0
  · exact h

/-- A message that has been decoded keeps this. -/
theorem Tried.decoded (h : Tried s) (i : Nat) : Tried (Consumer.decoded s i) :=
  ⟨h.flagged, h.promises, h.synchronous, h.calls⟩

/-- A message enters the queue behind the others. -/
theorem Tried.push (hm : cfg.mode = .synchronous) (h : Tried s) (m : Message γ) :
    Tried (Consumer.push cfg s m) := by
  have hcalls := h.calls
  simp only [Consumer.push, Consumer.enqueue, hm]
  refine ⟨h.flagged, h.promises, ?_, ?_⟩
  · exact List.forall_mem_append.mpr ⟨h.synchronous, List.forall_mem_singleton.mpr rfl⟩
  · refine List.Sublist.trans ?_ (hcalls.append_right [m.position])
    rw [List.append_assoc]
    refine List.Sublist.append_left ?_ _
    unfold untried
    dsimp only
    split
    · cases s.queue with
      | nil => exact List.nil_sublist _
      | cons element rest => simp
    · simp

/-- A message that has been handled leaves the queue. -/
theorem Tried.succeed (h : Tried s) {a : Consumer.Activation γ} (ha : s.processing = some a)
    (commits : List (Option Thrown)) : Ready (Consumer.succeed cfg s a commits) := by
  have hcalls := h.calls
  rw [untried, ha] at hcalls
  obtain ⟨committed, _, hquiet⟩ :=
    Consumer.safeCommitMessage_quiet cfg (Consumer.resolve s a) a.element.position commits 0
  unfold Consumer.succeed
  generalize Consumer.safeCommitMessage cfg (Consumer.resolve s a) a.element.position commits 0 = v
    at hquiet
  have hqueue : v.queue = s.queue ∨ v.queue = [] := hquiet.queue.imp And.left And.left
  refine ⟨hquiet.queueIsProcessing.trans (h.flagged (by rw [ha]; rfl)),
    hquiet.promises.trans h.promises, ?_, ?_⟩
  · intro element hmem
    rcases hqueue with hsame | hnil
    · exact h.synchronous element (hsame ▸ List.mem_of_mem_tail hmem)
    · simp [hnil] at hmem
  · have hnext : v.nextCalls = s.nextCalls := hquiet.nextCalls
    have hentered : v.entered = s.entered := hquiet.entered
    dsimp only
    rw [hnext, hentered]
    rcases hqueue with hsame | hnil
    · rw [hsame]
      exact hcalls
    · rw [hnil]
      exact (List.Sublist.append_left (List.nil_sublist _) _).trans hcalls

private theorem observed_fail {error : Thrown} {commits : List (Option Thrown)}
    {flow : Option Thrown}
    (h : observed e = .settled (some error) commits flow) : ∃ thrown,
      e = .settled (some thrown) commits flow ∧
        error = .base (EventConsumerError.createUnknown thrown) := by
  cases e with
  | settled failure =>
    cases failure with
    | none => cases h
    | some thrown =>
      cases h
      exact ⟨thrown, rfl, rfl⟩
  | start | connected | data | seeked | deserialized | retried | clientError | disconnected | stop
  | disconnectCallback => cases h

/-- A fatal error ends the loop at once. -/
theorem caught_fatal {a : Consumer.Activation γ} {error : BaseError} (h : error.isFatal = true) :
    Consumer.caught cfg s a (.base error) =
      { Consumer.onError s error with processing := none } := by
  rw [Consumer.caught, if_pos]
  · rfl
  · rw [Consumer.givesUp, Thrown.isFatalBase, h, Bool.or_true]

private theorem onError_queue {error : BaseError} (h : error.isFatal = true) :
    (Consumer.onError s error).queue = [] := by
  unfold Consumer.onError
  rw [h]
  rfl

/-- Every event keeps this. -/
theorem Tried.step (hm : cfg.mode = .synchronous) (h : Tried s) (hplain : Plain s e)
    (hs : Consumer.step cfg s (observed e) = some t) : Tried t := by
  have heffect := Consumer.step_effect hs
  generalize he : observed e = e' at heffect
  cases heffect with
  | quiet _ hq => exact h.quiet hq
  | arrive => exact ⟨h.flagged, h.promises, h.synchronous, h.calls⟩
  | retry hp | resolve hp =>
    rw [h.promises] at hp
    cases hp
  | @reject i m error flow t _ hq =>
    have hdecoded : Tried { Consumer.decoded s i with dropped := s.dropped ++ [m.position] } :=
      ⟨h.flagged, h.promises, h.synchronous, h.calls⟩
    exact hdecoded.quiet hq
  | enter _ hthrottled => exact (((h.decoded _).push hm _).quiet hthrottled.quiet).processQueue
  | overflow _ hq => exact ((h.decoded _).push hm _).quiet hq
  | @fail a error commits flow ha =>
    obtain ⟨thrown, rfl, rfl⟩ := observed_fail he
    have hfatal := createUnknown_isFatal hplain
    have hqueue := onError_queue (s := s) hfatal
    have hq := onError_quiet s (EventConsumerError.createUnknown thrown)
    rw [caught_fatal hfatal]
    refine ⟨nofun, hq.promises.trans h.promises, ?_, ?_⟩
    · rw [hqueue]
      exact nofun
    · simp only [untried, Option.isSome_none, Bool.false_eq_true, if_false, hqueue, hq.nextCalls,
        hq.entered, List.map_nil, List.append_nil]
      exact (List.sublist_append_left _ _).trans h.calls
  | succeed ha _ hthrottled => exact ((h.succeed ha _).quiet hthrottled.quiet).runQueue 0
  | underflow ha _ hthrottled => exact ((h.succeed ha _).quiet hthrottled.quiet).caught _ _

private theorem tried_of_run (hm : cfg.mode = .synchronous) {es : List (Consumer.Event β γ)}
    (h : (machine cfg).Run Plain State.init es s) : Tried s :=
  h.invariant (fun _ _ _ hi hg hs => hi.step hm hg hs) Tried.init

/-- The flag of the loop is set, and no activation will reset it. -/
structure Halted (calls : List Position) (s : State β γ) : Prop where
  processing : s.processing = none
  flag : s.queueIsProcessing = true
  promises : s.promises = []
  calls : s.nextCalls = calls

/-- What moves no message leaves it halted. -/
theorem Halted.quiet {calls : List Position} (h : Halted calls s) (hq : Quiet s t) :
    Halted calls t where
  processing := hq.processing.trans h.processing
  flag := hq.queueIsProcessing.trans h.flag
  promises := hq.promises.trans h.promises
  calls := hq.nextCalls.trans h.calls

/-- So does a message that enters the queue. -/
theorem Halted.push (hm : cfg.mode = .synchronous) {calls : List Position} (h : Halted calls s)
    (i : Nat) (m : Message γ) : Halted calls (Consumer.push cfg (Consumer.decoded s i) m) := by
  simp only [Consumer.push, Consumer.enqueue, hm, Consumer.decoded]
  exact ⟨h.processing, h.flag, h.promises, h.calls⟩

/-- Messages still enter the queue, and a new call of `execute` replaces the observer, but the loop
does not start again. -/
theorem Halted.step (hm : cfg.mode = .synchronous) {calls : List Position} (h : Halted calls s)
    {e : Consumer.Event β γ} (hs : Consumer.step cfg s e = some t) : Halted calls t := by
  cases Consumer.step_effect hs with
  | quiet _ hq => exact h.quiet hq
  | arrive => exact ⟨h.processing, h.flag, h.promises, h.calls⟩
  | retry hp | resolve hp =>
    rw [h.promises] at hp
    cases hp
  | @reject i m error flow t _ hq =>
    have hdecoded : Halted calls
        { Consumer.decoded s i with dropped := s.dropped ++ [m.position] } :=
      ⟨h.processing, h.flag, h.promises, h.calls⟩
    exact hdecoded.quiet hq
  | enter _ hthrottled =>
    have hpushed := (h.push hm _ _).quiet hthrottled.quiet
    rw [Consumer.processQueue, hpushed.flag, Bool.not_true, Bool.and_false]
    exact hpushed
  | overflow _ hq => exact (h.push hm _ _).quiet hq
  | fail ha | succeed ha | underflow ha =>
    rw [h.processing] at ha
    cases ha

/-- As long as `onEvent` throws nothing but plain or fatal errors, every event that enters the queue
is handed to it at most once, in order. After the first failure it is never called again. -/
theorem onEvent_once (hm : cfg.mode = .synchronous) {es : List (Consumer.Event β γ)}
    (h : (machine cfg).Run Plain State.init es s) :
    s.nextCalls.Sublist s.entered ∧
      ∀ error commits flow t, Plain s (.settled (some error) commits flow) →
        (machine cfg).step s (.settled (some error) commits flow) = some t →
        ∀ fs u, (machine cfg).Run Machine.Free t fs u → u.nextCalls = s.nextCalls := by
  have hi := tried_of_run hm h
  refine ⟨(List.sublist_append_left _ _).trans hi.calls, ?_⟩
  intro error commits flow t hplain hs fs u hrun
  have hhalted : Halted s.nextCalls t := by
    have hsettled : Consumer.Effect cfg s
        (.settled (some (.base (EventConsumerError.createUnknown error))) commits flow) t :=
      Consumer.step_effect hs
    cases hsettled with
    | quiet hquiet => exact hquiet.elim
    | fail ha =>
      have hq := onError_quiet s (EventConsumerError.createUnknown error)
      rw [caught_fatal (createUnknown_isFatal hplain)]
      exact ⟨rfl, hq.queueIsProcessing.trans (hi.flagged (by rw [ha]; rfl)),
        hq.promises.trans hi.promises, hq.nextCalls⟩
  exact (hrun.invariant (fun _ _ _ hi _ hs => hi.step hm hs) hhalted).calls

/-- The constructor's defaults allow ten retries. -/
def patientConfig : Config := .create .synchronous none none []

/-- An event without a value. -/
def empty : Message Unit := ⟨⟨"events", 0, 4⟩, none⟩

/-- The consumer connects, and an event comes in. -/
def first : List (Consumer.Event Unit Unit) :=
  [.start, .connected true, .data empty, .deserialized 0 (.ok none) none]

/-- After the first failure of `onEvent`, no event is handed to it again. -/
theorem first_failure_last : ∃ s t : State Unit Unit,
    (machine patientConfig).Run Plain State.init first s ∧
    (machine patientConfig).step s (.settled (some (.unknown "no such token")) [] none) = some t ∧
    ∀ fs u, (machine patientConfig).Run Machine.Free t fs u → u.nextCalls = [empty.position] := by
  obtain ⟨s, hrun, hcalls, hsome⟩ : ∃ s : State Unit Unit,
      (machine patientConfig).Run Plain State.init first s ∧ s.nextCalls = [empty.position] ∧
        ((machine patientConfig).step s
          (.settled (some (.unknown "no such token")) [] none)).isSome :=
    Machine.exists_run_of_exec (by decide)
  obtain ⟨t, ht⟩ := Option.isSome_iff_exists.mp hsome
  refine ⟨s, t, hrun, ht, fun fs u hu => ?_⟩
  rw [← hcalls]
  exact (onEvent_once rfl hrun).2 (.unknown "no such token") [] none t trivial ht fs u hu

end EventConsumer

end ChainIndexer
