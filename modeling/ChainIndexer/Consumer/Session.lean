import ChainIndexer.Consumer.Effect
import ChainIndexer.Core.Observe
import ChainIndexer.Core.Retry

/-!
# What a session commits

A script says how each attempt at each message ends. The synchronous consumer makes
the attempts in the loop of `processQueue`, the asynchronous one in `retryPromise`,
whose rejection the loop then counts again. Either way the script alone decides what
is committed and which error is reported.
-/

namespace ChainIndexer.Consumer

open Retry

variable {β γ : Type} {cfg : Config} {s t u : State β γ}

/-- How each attempt at each message ends; messages are numbered in the order of entry. -/
abbrev Script := Nat → Nat → Option Thrown

/-- What comes of the attempts at a message. -/
def Config.verdict (cfg : Config) (attempts : Nat → Option Thrown) : Except Thrown Unit :=
  Retry.verdict Thrown.isFatalBase cfg.maxRetries attempts

/-- So many calls of `observer.next` may have been made for a message. -/
def Config.Tried (cfg : Config) (attempts : Nat → Option Thrown) (n : Nat) : Prop :=
  Retry.Tried Thrown.isFatalBase cfg.maxRetries attempts n

/-- The first so many attempts at a message have failed and been repeated. -/
def Repeated (attempts : Nat → Option Thrown) (n : Nat) : Prop :=
  Failed Thrown.isFatalBase attempts n

/-- A consumer at the start of a session, with the record of the session still empty. -/
structure Opened (s : State β γ) : Prop where
  observer : s.observer = true
  queueIsProcessing : s.queueIsProcessing = false
  processing : s.processing = none
  queue : s.queue = []
  promises : s.promises = []
  entered : s.entered = []
  nextCalls : s.nextCalls = []
  committed : s.committed = []
  errors : s.errors = []

/-- The number of the message at the front of the queue. -/
def front (s : State β γ) : Nat := s.entered.length - s.queue.length

/-- The events of a session: calls of `observer.next` end as the script says, decoding, seeking,
committing, pausing and resuming succeed, and the consumer is disconnected only after a fatal
error. -/
def Session (script : Script) (s : State β γ) : Event β γ → Prop
  | .connected _ | .data _ | .seeked _ none | .deserialized _ (.ok _) none => True
  | .retried i failure => ∀ promise ∈ s.promises[i]?, failure = script i promise.errorCount
  | .settled failure commits flow => flow = none ∧ (∀ thrown ∈ commits.head?, thrown = none) ∧
      ∀ a ∈ s.processing, a.element.promise = none → failure = script (front s) a.errorCount
  | .disconnected | .disconnectCallback => ∃ error ∈ s.errors, error.isFatal = true
  | .start | .seeked _ (some _) | .deserialized _ (.error _) _ | .deserialized _ (.ok _) (some _)
  | .clientError _ | .stop => False

instance (script : Script) (s : State β γ) : (e : Event β γ) → Decidable (Session script s e)
  | .connected _ | .data _ | .seeked _ none | .deserialized _ (.ok _) none => .isTrue trivial
  | .retried i failure => inferInstanceAs (Decidable (∀ promise ∈ s.promises[i]?,
      failure = script i promise.errorCount))
  | .settled failure commits flow => inferInstanceAs (Decidable (flow = none ∧
      (∀ thrown ∈ commits.head?, thrown = none) ∧ ∀ a ∈ s.processing,
        a.element.promise = none → failure = script (front s) a.errorCount))
  | .disconnected | .disconnectCallback =>
    inferInstanceAs (Decidable (∃ error ∈ s.errors, error.isFatal = true))
  | .start | .seeked _ (some _) | .deserialized _ (.error _) _ | .deserialized _ (.ok _) (some _)
  | .clientError _ | .stop => .isFalse id

/-- The numbers of the messages for which a step calls `observer.next`. -/
def called (cfg : Config) (s : State β γ) (e : Event β γ) (t : State β γ) : List Nat :=
  List.replicate (t.nextCalls.length - s.nextCalls.length) (match e, cfg.mode with
    | .retried i _, _ => i
    | _, .asynchronous => s.entered.length
    | _, .synchronous => front t)

/-- The record of these numbers. -/
def attributeCalls (cfg : Config) (s : State β γ) (e : Event β γ) (t : State β γ)
    (calls : List Nat) : List Nat :=
  calls ++ called cfg s e t

/-- A promise of `retryPromise` stands as its attempts say. -/
structure Pledge (cfg : Config) (attempts : Nat → Option Thrown) (p : RetryPromise γ) (n : Nat) :
    Prop where
  counted : n = p.errorCount + 1
  bounded : p.errorCount ≤ cfg.maxRetries
  repeated : Repeated attempts p.errorCount
  fulfilled : p.settlement = .fulfilled → attempts p.errorCount = none
  rejected : ∀ error, p.settlement = .rejected error → ∃ thrown,
    attempts p.errorCount = some thrown ∧
      (cfg.maxRetries ≤ p.errorCount ∨ thrown.isFatalBase = true) ∧
      error = KafkaError.createUnknown thrown false

/-- What is kept about the calls of `observer.next`. -/
structure Booked (cfg : Config) (script : Script) (s : State β γ) (calls : List Nat) : Prop where
  observer : s.observer = true
  attributed : calls.map (s.entered[·]?) = s.nextCalls.map some
  tried : ∀ k, cfg.Tried (script k) (calls.count k)
  prompt : cfg.mode = .synchronous → ∀ k ∈ calls, k ≤ s.committed.length
  unpledged : cfg.mode = .synchronous → s.promises = []
  pledged : cfg.mode = .asynchronous → s.promises.length = s.entered.length ∧
    ∀ k p, s.promises[k]? = some p → s.entered[k]? = some p.message.position ∧
      Pledge cfg (script k) p (calls.count k)

/-- The promise of the message with this number. -/
def Config.promise (cfg : Config) (k : Nat) : Option Nat :=
  match cfg.mode with
  | .synchronous => none
  | .asynchronous => some k

/-- Nothing has failed for good: what has entered is committed or queued. -/
structure Serving (cfg : Config) (script : Script) (s : State β γ) : Prop where
  errors : s.errors = []
  split : s.committed ++ s.queue.map (·.position) = s.entered
  succeeded : ∀ k < s.committed.length, cfg.verdict (script k) = .ok ()
  numbered : ∀ j element, s.queue[j]? = some element →
    element.promise = cfg.promise (s.committed.length + j)

/-- The message at the front has failed for good, and nothing more is committed. -/
structure Stopped (cfg : Config) (script : Script) (error : Thrown) (s : State β γ) : Prop where
  errors : s.errors = [KafkaError.createUnknown error false]
  committed : s.committed <+: s.entered
  waiting : s.committed.length < s.entered.length
  succeeded : ∀ k < s.committed.length, cfg.verdict (script k) = .ok ()
  failed : cfg.verdict (script s.committed.length) = .error error
  processing : s.processing = none
  queueIsProcessing : s.queueIsProcessing = true

/-- The stages of a session. -/
inductive Stage (cfg : Config) (script : Script) (s : State β γ) (calls : List Nat) : Prop
  | idle : Serving cfg script s → s.processing = none → s.queueIsProcessing = false →
    s.queue = [] → Stage cfg script s calls
  | awaiting {a rest} : Serving cfg script s → s.processing = some a →
    s.queue = a.element :: rest → s.queueIsProcessing = true →
    (cfg.mode = .synchronous → a.errorCount ≤ cfg.maxRetries ∧
      Repeated (script s.committed.length) a.errorCount ∧
      calls.count s.committed.length = a.errorCount + 1) → Stage cfg script s calls
  | stopped {error} : Stopped cfg script error s → Stage cfg script s calls

/-- Nothing that the books or the stage read has changed. -/
structure Untouched (s t : State β γ) : Prop where
  observer : t.observer = s.observer := by rfl
  queueIsProcessing : t.queueIsProcessing = s.queueIsProcessing := by rfl
  processing : t.processing = s.processing := by rfl
  queue : t.queue = s.queue := by rfl
  promises : t.promises = s.promises := by rfl
  entered : t.entered = s.entered := by rfl
  nextCalls : t.nextCalls = s.nextCalls := by rfl
  committed : t.committed = s.committed := by rfl
  errors : t.errors = s.errors := by rfl

variable {script : Script} {calls : List Nat} {a : Activation γ} {error : Thrown}

/-- Pausing and resuming touch neither. -/
theorem Throttled.untouched (h : Throttled s t) : Untouched s t := by
  obtain ⟨consumerPaused, paused, rfl⟩ := h
  exact {}

/-- The books read these fields only. -/
theorem Booked.congr (h : Booked cfg script s calls) (hobserver : t.observer = s.observer)
    (hpromises : t.promises = s.promises) (hentered : t.entered = s.entered)
    (hnextCalls : t.nextCalls = s.nextCalls) (hcommitted : t.committed = s.committed) :
    Booked cfg script t calls where
  observer := hobserver.trans h.observer
  attributed := by
    rw [hentered, hnextCalls]
    exact h.attributed
  tried := h.tried
  prompt := by
    rw [hcommitted]
    exact h.prompt
  unpledged := by
    rw [hpromises]
    exact h.unpledged
  pledged := by
    rw [hpromises, hentered]
    exact h.pledged

/-- Such a step keeps the books. -/
theorem Booked.untouched (h : Booked cfg script s calls) (hu : Untouched s t) :
    Booked cfg script t calls :=
  h.congr hu.observer hu.promises hu.entered hu.nextCalls hu.committed

/-- It reads these fields only. -/
theorem Serving.congr (h : Serving cfg script s) (herrors : t.errors = s.errors)
    (hcommitted : t.committed = s.committed) (hqueue : t.queue = s.queue)
    (hentered : t.entered = s.entered) : Serving cfg script t where
  errors := herrors.trans h.errors
  split := by
    rw [hcommitted, hqueue, hentered]
    exact h.split
  succeeded := by
    rw [hcommitted]
    exact h.succeeded
  numbered := by
    rw [hcommitted, hqueue]
    exact h.numbered

/-- Such a step keeps it. -/
theorem Serving.untouched (h : Serving cfg script s) (hu : Untouched s t) :
    Serving cfg script t :=
  h.congr hu.errors hu.committed hu.queue hu.entered

/-- What has failed for good is not changed by clearing the queue. -/
theorem Stopped.congr (h : Stopped cfg script error s) (herrors : t.errors = s.errors)
    (hcommitted : t.committed = s.committed) (hentered : s.entered <+: t.entered)
    (hprocessing : t.processing = s.processing)
    (hflag : t.queueIsProcessing = s.queueIsProcessing) : Stopped cfg script error t where
  errors := herrors.trans h.errors
  committed := hcommitted ▸ h.committed.trans hentered
  waiting := hcommitted ▸ Nat.lt_of_lt_of_le h.waiting hentered.length_le
  succeeded := hcommitted ▸ h.succeeded
  failed := hcommitted ▸ h.failed
  processing := hprocessing.trans h.processing
  queueIsProcessing := hflag.trans h.queueIsProcessing

/-- Such a step keeps the stage. -/
theorem Stage.untouched (h : Stage cfg script s calls) (hu : Untouched s t) :
    Stage cfg script t calls := by
  cases h with
  | idle hserving hprocessing hflag hqueue =>
    exact .idle (hserving.untouched hu) (hu.processing.trans hprocessing)
      (hu.queueIsProcessing.trans hflag) (hu.queue.trans hqueue)
  | awaiting hserving hprocessing hqueue hflag hcount =>
    refine .awaiting (hserving.untouched hu) (hu.processing.trans hprocessing)
      (hu.queue.trans hqueue) (hu.queueIsProcessing.trans hflag) ?_
    rw [hu.committed]
    exact hcount
  | stopped hstopped =>
    exact .stopped (hstopped.congr hu.errors hu.committed (hu.entered ▸ List.prefix_rfl)
      hu.processing hu.queueIsProcessing)

/-- A step that makes no call adds none to the record. -/
theorem called_nil {e : Event β γ} (h : t.nextCalls = s.nextCalls) : called cfg s e t = [] := by
  simp [called, h]

/-- A call is for a message that has entered. -/
theorem Booked.lt (h : Booked cfg script s calls) {k : Nat} (hk : k ∈ calls) :
    k < s.entered.length := by
  have hmem : s.entered[k]? ∈ s.nextCalls.map some :=
    h.attributed ▸ List.mem_map_of_mem hk
  obtain ⟨p, _, hp⟩ := List.mem_map.mp hmem
  exact (List.getElem?_eq_some_iff.mp hp.symm).1

/-- The front of the queue is the message after those committed. -/
theorem Serving.front (h : Serving cfg script s) : front s = s.committed.length := by
  have hlength := congrArg List.length h.split
  rw [List.length_append, List.length_map] at hlength
  rw [Consumer.front]
  omega

/-- The number of the message that the loop of `processQueue` hands to `observer.next`, if it
does. -/
def reads (s t : State β γ) : List Nat :=
  List.replicate (t.nextCalls.length - s.nextCalls.length) (front t)

/-- The loop awaits the promises of the asynchronous consumer and calls nothing. -/
theorem Serving.runQueue_nextCalls (h : Serving cfg script s) (hm : cfg.mode = .asynchronous)
    (errorCount : Nat) : (runQueue s errorCount).nextCalls = s.nextCalls := by
  cases hq : s.queue with
  | nil => rw [runQueue_nil hq]
  | cons element rest =>
    have hpromise := h.numbered 0 element (by rw [hq]; rfl)
    simp only [Config.promise, hm] at hpromise
    simp [runQueue_cons hq, hpromise]

/-- At the head of its loop a serving consumer reads the message after those committed. -/
theorem runQueue_kept (errorCount : Nat) (hserving : Serving cfg script s)
    (hbooked : Booked cfg script s calls) (hflag : s.queueIsProcessing = true)
    (hready : cfg.mode = .synchronous → errorCount ≤ cfg.maxRetries ∧
      Repeated (script s.committed.length) errorCount ∧
      calls.count s.committed.length = errorCount) :
    Booked cfg script (runQueue s errorCount) (calls ++ reads s (runQueue s errorCount)) ∧
      Stage cfg script (runQueue s errorCount) (calls ++ reads s (runQueue s errorCount)) := by
  cases hq : s.queue with
  | nil =>
    have hreads : reads s (runQueue s errorCount) = [] := by
      simp [reads, runQueue_nil hq]
    rw [hreads, List.append_nil, runQueue_nil hq]
    exact ⟨hbooked.congr rfl rfl rfl rfl rfl, .idle (hserving.congr rfl rfl rfl rfl) rfl rfl hq⟩
  | cons element rest =>
    have hpromise := hserving.numbered 0 element (by rw [hq]; rfl)
    have hfront : front (runQueue s errorCount) = s.committed.length := by
      rw [runQueue_cons hq]
      exact hserving.front
    cases hm : cfg.mode with
    | asynchronous =>
      have hreads : reads s (runQueue s errorCount) = [] := by
        simp [reads, hserving.runQueue_nextCalls hm]
      simp only [Config.promise, hm] at hpromise
      rw [hreads, List.append_nil, runQueue_cons hq]
      refine ⟨hbooked.congr rfl rfl rfl (by simp [hpromise]) rfl, ?_⟩
      refine .awaiting (hserving.congr rfl rfl rfl rfl) rfl hq hflag fun hsync => ?_
      simp [hm] at hsync
    | synchronous =>
      simp only [Config.promise, hm] at hpromise
      obtain ⟨hle, hrepeated, hcount⟩ := hready hm
      have hreads : reads s (runQueue s errorCount) = [s.committed.length] := by
        rw [reads, hfront]
        simp [runQueue_cons hq, hpromise]
      have hentered : s.entered[s.committed.length]? = some element.position := by
        rw [← hserving.split, hq]
        simp
      rw [hreads, runQueue_cons hq, hpromise]
      refine ⟨⟨hbooked.observer, ?_, fun k => ?_, fun _ k hk => ?_, hbooked.unpledged, ?_⟩, ?_⟩
      · simp [hbooked.attributed, hentered]
      · rw [List.count_append, List.count_singleton]
        split
        · rename_i hk
          rw [← eq_of_beq hk, hcount]
          exact hrepeated.tried hle
        · exact hbooked.tried k
      · rcases List.mem_append.mp hk with hk | hk
        · exact hbooked.prompt hm k hk
        · exact Nat.le_of_eq (List.mem_singleton.mp hk)
      · intro hasync
        simp [hm] at hasync
      · refine .awaiting (hserving.congr rfl rfl rfl rfl) rfl hq hflag fun _ => ?_
        refine ⟨hle, hrepeated, ?_⟩
        change (calls ++ [s.committed.length]).count s.committed.length = errorCount + 1
        rw [List.count_append, hcount, List.count_singleton_self]

/-- The number of the message for which `enqueue` calls `observer.next`, if it does. -/
def pushed (cfg : Config) (s : State β γ) : List Nat :=
  match cfg.mode with
  | .synchronous => []
  | .asynchronous => [s.entered.length]

/-- A message that enters is called for at once, or not yet. -/
theorem push_booked (h : Booked cfg script s calls) (m : Message γ) :
    Booked cfg script (push cfg s m) (calls ++ pushed cfg s) := by
  have hlt : ∀ {k}, k ∈ calls → (s.entered ++ [m.position])[k]? = s.entered[k]? :=
    fun hk => List.getElem?_append_left (h.lt hk)
  have hold : calls.map ((s.entered ++ [m.position])[·]?) = calls.map (s.entered[·]?) :=
    List.map_congr_left fun _ hk => hlt hk
  cases hm : cfg.mode with
  | synchronous =>
    have hno : cfg.mode ≠ .asynchronous := by simp [hm]
    simp only [pushed, push, enqueue, hm, List.append_nil]
    exact ⟨h.observer, hold.trans h.attributed, h.tried, h.prompt, h.unpledged,
      fun hasync => absurd hasync hno⟩
  | asynchronous =>
    have hno : cfg.mode ≠ .synchronous := by simp [hm]
    obtain ⟨hlength, hpledged⟩ := h.pledged hm
    have hnone : calls.count s.entered.length = 0 :=
      List.count_eq_zero.mpr fun hk => Nat.lt_irrefl _ (h.lt hk)
    have hcount : ∀ k, (calls ++ [s.entered.length]).count k =
        calls.count k + if s.entered.length = k then 1 else 0 := by
      intro k
      rw [List.count_append, List.count_singleton]
      simp only [beq_iff_eq]
    simp only [pushed, push, enqueue, hm, h.observer, if_true]
    refine ⟨rfl, ?_, fun k => ?_, fun hsync => absurd hsync hno, fun hsync => absurd hsync hno,
      fun _ => ⟨?_, fun k p hp => ?_⟩⟩
    · simp [hold, h.attributed]
    · rw [hcount]
      split
      · rename_i hk
        rw [← hk, hnone]
        exact Failed.zero.tried (Nat.zero_le _)
      · exact h.tried k
    · simp [hlength]
    · rw [hcount]
      rcases Nat.lt_or_ge k s.promises.length with hk | hk
      · rw [List.getElem?_append_left hk] at hp
        obtain ⟨hposition, hpledge⟩ := hpledged k p hp
        rw [if_neg (by omega), List.getElem?_append_left (by omega)]
        exact ⟨hposition, hpledge⟩
      · obtain ⟨hk', rfl⟩ : k = s.promises.length ∧ p = ⟨m, 0, .pending⟩ := by
          rw [List.getElem?_append_right hk] at hp
          obtain ⟨hlt, rfl⟩ := List.getElem?_eq_some_iff.mp hp
          rw [List.length_singleton] at hlt
          exact ⟨by omega, by simp⟩
        subst hk'
        rw [hlength, if_pos rfl, hnone]
        exact ⟨by simp, rfl, Nat.zero_le _, Failed.zero, nofun, nofun⟩

/-- It joins those that are queued. -/
theorem push_serving (h : Serving cfg script s) (hbooked : Booked cfg script s calls)
    (m : Message γ) : Serving cfg script (push cfg s m) := by
  obtain ⟨element, nextCalls, promises, hmessage, hp⟩ := push_eq cfg s m
  have hlength := congrArg List.length h.split
  rw [List.length_append, List.length_map] at hlength
  have hpromise : (enqueue cfg s m).1.promise =
      cfg.promise (s.committed.length + s.queue.length) := by
    cases hm : cfg.mode with
    | synchronous => simp [enqueue, Config.promise, hm]
    | asynchronous => simp [enqueue, Config.promise, hm, hlength, (hbooked.pledged hm).1]
  have helement : element = (enqueue cfg s m).1 := by
    have hqueue : (push cfg s m).queue = s.queue ++ [element] := by rw [hp]
    exact (List.head_eq_of_cons_eq (List.append_cancel_left hqueue)).symm
  rw [hp]
  refine ⟨h.errors, ?_, h.succeeded, fun j other hj => ?_⟩
  · simp [← h.split, QueueObject.position, hmessage]
  · rcases Nat.lt_or_ge j s.queue.length with hlt | hge
    · rw [List.getElem?_append_left hlt] at hj
      exact h.numbered j other hj
    · rw [List.getElem?_append_right hge] at hj
      obtain ⟨hlt, rfl⟩ := List.getElem?_eq_some_iff.mp hj
      rw [List.length_singleton] at hlt
      obtain rfl : j = s.queue.length := by omega
      simp [helement, hpromise]

end ChainIndexer.Consumer
