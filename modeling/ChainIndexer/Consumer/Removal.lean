import ChainIndexer.Consumer.Delivery
import ChainIndexer.Consumer.Session

/-!
# What `queue.shift()` removes

`processQueue` reads an element with `front`, awaits it, commits it and then removes
whatever stands at the front. While it is suspended the queue may be cleared and filled
again, also by another session of the same object. Elements are told apart by the order
in which they were queued.
-/

namespace ChainIndexer.Consumer

variable {β γ : Type} {cfg : Config} {s t u : State β γ} {a : Activation γ}

/-- What `safeCommitMessage` fails with in the end, if it does. -/
def commitFailure (cfg : Config) : List (Option Thrown) → Nat → Option Thrown
  | [], _ | none :: _, _ => none
  | some error :: attempts, errorCount =>
    if cfg.maxRetries ≤ errorCount then some error else commitFailure cfg attempts (errorCount + 1)

/-- The state in which `queue.shift()` is called. -/
def committing (cfg : Config) (s : State β γ) (a : Activation γ) (commits : List (Option Thrown)) :
    State β γ :=
  safeCommitMessage cfg (resolve s a) a.element.position commits 0

/-- The number of the element that `queue.shift()` removes. -/
def shifted (cfg : Config) (s : State β γ) : Event β γ → Option Nat
  | .settled none commits _ => match s.processing with
    | some a =>
      if (committing cfg s a commits).queue.isEmpty then none
      else some (front (committing cfg s a commits))
    | none => none
  | _ => none

/-- What an iteration of `processQueue` knows about the element it read. -/
structure Reading where
  /-- The number of the element. -/
  number : Nat := 0
  /-- The queue has not been empty since. -/
  kept : Bool := true
  /-- The numbers of the elements that `queue.shift()` has removed so far. -/
  removed : List Nat := []

/-- A step reads an element, or may find the queue empty. -/
def read (cfg : Config) (s : State β γ) (e : Event β γ) (t : State β γ) (r : Reading) :
    Reading where
  number := if s.awaited.length < t.awaited.length then front t else r.number
  kept := if s.awaited.length < t.awaited.length then true else r.kept && !t.queue.isEmpty
  removed := r.removed ++ (shifted cfg s e).toList

/-- The consumer with what its iteration knows. -/
abbrev readingMachine (cfg : Config) : Machine (State β γ × Reading) (Event β γ) :=
  (machine cfg).observe (read cfg)

/-- The element that is removed is the one that was read, it has been processed, and this very
step has committed it. -/
def RemovesRead (cfg : Config) (p : State β γ × Reading) (e : Event β γ) : Prop :=
  ∀ n ∈ shifted cfg p.1 e, n = p.2.number ∧ ∀ t, step cfg p.1 e = some t →
    ∀ q ∈ p.1.entered[n]?, q ∈ t.resolved ∧ t.committed = p.1.committed ++ [q]

/-- The error of a commit clears the queue, and after a commit it matters whether the queue has
been cleared since the element was read. -/
def spares (kept : Bool) : Option Thrown → Bool
  | none => kept
  | some error => (KafkaError.createUnknown error false).isFatal

/-- When the await of `processQueue` resolves, the queue is empty, or it has not been empty since
the element was read and the commit succeeds, or the commit fails with a fatal error. -/
def Uncleared (cfg : Config) (p : State β γ × Reading) : Event β γ → Prop
  | .settled none commits _ =>
    p.1.queue = [] ∨ spares p.2.kept (commitFailure cfg commits 0) = true
  | _ => True

instance (cfg : Config) (p : State β γ × Reading) : (e : Event β γ) →
    Decidable (Uncleared cfg p e)
  | .settled none commits _ => inferInstanceAs (Decidable (p.1.queue = [] ∨
      spares p.2.kept (commitFailure cfg commits 0) = true))
  | .settled (some _) _ _ | .start | .connected _ | .data _ | .seeked .. | .deserialized ..
  | .retried .. | .clientError _ | .disconnected | .stop | .disconnectCallback => .isTrue trivial

/-! ## What is known about the element that was read -/

/-- The queue holds the elements that entered last. While an iteration is suspended, its element
stands at the front, or the queue has been cleared and everything in it entered later. -/
structure Held (s : State β γ) (number : Nat) (kept : Bool) : Prop where
  queue : s.queue.map (·.position) <:+ s.entered
  element : ∀ a, s.processing = some a → s.entered[number]? = some a.element.position
  place : ∀ a, s.processing = some a → if kept then number = front s else number < front s

theorem Held.init : Held (State.init : State β γ) 0 true := ⟨List.nil_suffix, nofun, nofun⟩

/-- The queue is never longer than what has entered it. -/
theorem Held.length_le {number : Nat} {kept : Bool} (h : Held s number kept) :
    s.queue.length ≤ s.entered.length := by
  simpa using h.queue.length_le

/-- Without an activation nothing is claimed about its element. -/
theorem Held.idle (hq : s.queue.map (·.position) <:+ s.entered) (hp : s.processing = none)
    (number : Nat) (kept : Bool) : Held s number kept :=
  ⟨hq, by simp [hp], by simp [hp]⟩

/-- Some elements have entered, and the queue may have been cleared after that. -/
structure Filled (s t : State β γ) (added : List (QueueObject γ)) : Prop where
  processing : t.processing = s.processing
  awaited : t.awaited = s.awaited
  entered : t.entered = s.entered ++ added.map (·.position)
  queue : t.queue = s.queue ++ added ∨ t.queue = []

/-- Where nothing has entered. -/
theorem Filled.still (hp : t.processing = s.processing) (ha : t.awaited = s.awaited)
    (he : t.entered = s.entered) (hq : t.queue = s.queue) : Filled s t [] :=
  ⟨hp, ha, by simp [he], Or.inl (by simp [hq])⟩

/-- The queue may be cleared after that. -/
theorem Filled.quiet {added : List (QueueObject γ)} (h : Filled s t added) (hq : Quiet t u) :
    Filled s u added where
  processing := hq.processing.trans h.processing
  awaited := hq.awaited.trans h.awaited
  entered := hq.entered.trans h.entered
  queue := by
    obtain ⟨hqueue, _⟩ | ⟨hqueue, _⟩ := hq.queue
    · rw [hqueue]
      exact h.queue
    · exact Or.inr hqueue

/-- The message that enters is added behind the queue. -/
theorem push_filled (cfg : Config) (s : State β γ) (i : Nat) (m : Message γ) :
    ∃ added, Filled s (push cfg (decoded s i) m) added ∧
      (push cfg (decoded s i) m).queue = s.queue ++ added := by
  obtain ⟨element, nextCalls, promises, hm, h⟩ := push_eq cfg (decoded s i) m
  rw [h]
  exact ⟨[element], ⟨rfl, rfl, by simp [decoded, QueueObject.position, hm], Or.inl rfl⟩, rfl⟩

/-- Elements that enter do not move the front, and a clearing moves it behind all of them. -/
theorem Held.filled {number : Nat} {kept : Bool} {added : List (QueueObject γ)}
    (h : Held s number kept) (hf : Filled s t added) :
    Held t number (kept && !t.queue.isEmpty) where
  queue := by
    rw [hf.entered]
    obtain hqueue | hqueue := hf.queue
    · rw [hqueue, List.map_append, List.suffix_append_inj_of_length_eq rfl]
      exact ⟨h.queue, rfl⟩
    · rw [hqueue]
      exact List.nil_suffix
  element a ha := by
    have hold := h.element a (hf.processing ▸ ha)
    obtain ⟨hlt, _⟩ := List.getElem?_eq_some_iff.mp hold
    rw [hf.entered, List.getElem?_append_left hlt, hold]
  place a ha := by
    have ha := hf.processing ▸ ha
    have hold := h.place a ha
    obtain ⟨hlt, _⟩ := List.getElem?_eq_some_iff.mp (h.element a ha)
    have hentered : t.entered.length = s.entered.length + added.length := by simp [hf.entered]
    obtain hqueue | hqueue := hf.queue
    · have hlength : t.queue.length = s.queue.length + added.length := by simp [hqueue]
      have hfront : front t = front s := by
        unfold front
        omega
      rw [hfront]
      cases kept with
      | false => simpa using hold
      | true =>
        have hnonempty : t.queue.isEmpty = false := by
          rw [if_pos rfl, front] at hold
          rw [List.isEmpty_eq_false_iff, ← List.length_pos_iff]
          omega
        simpa [hnonempty] using hold
    · have hfront : front t = t.entered.length := by simp [front, hqueue]
      simp only [hqueue, List.isEmpty_nil, Bool.not_true, Bool.and_false, hfront, hentered]
      simp only [Bool.false_eq_true, if_false]
      omega

/-- A step in which nothing is read. -/
theorem Held.keep {added : List (QueueObject γ)} {e : Event β γ} {r : Reading}
    (h : Held s r.number r.kept) (hf : Filled s t added) :
    Held t (read cfg s e t r).number (read cfg s e t r).kept := by
  have hread : ¬ s.awaited.length < t.awaited.length := by simp [hf.awaited]
  simp only [read, if_neg hread]
  exact h.filled hf

/-- The element read at the head of the loop stands at the front. -/
theorem runQueue_held (hq : u.queue.map (·.position) <:+ u.entered)
    (hawaited : u.awaited = s.awaited) (errorCount : Nat) (e : Event β γ) (r : Reading) :
    Held (runQueue u errorCount) (read cfg s e (runQueue u errorCount) r).number
      (read cfg s e (runQueue u errorCount) r).kept := by
  cases hqueue : u.queue with
  | nil =>
    rw [runQueue_nil hqueue]
    exact Held.idle (s := { u with queueIsProcessing := false, processing := none }) hq rfl _ _
  | cons element rest =>
    rw [runQueue_cons hqueue]
    have hread : s.awaited.length < (u.awaited ++ [element.position]).length := by
      simp [hawaited]
    simp only [read, if_pos hread]
    refine ⟨hq, fun a ha => ?_, fun _ _ => rfl⟩
    obtain rfl := Option.some.inj ha
    obtain ⟨before, hbefore⟩ := hq
    have hfront : front u = before.length := by
      simp [front, ← hbefore]
    change u.entered[front u]? = some element.position
    rw [hfront, ← hbefore, hqueue]
    simp

/-- The catch block gives up, or reads the front again. -/
theorem caught_held (hq : u.queue.map (·.position) <:+ u.entered)
    (hawaited : u.awaited = s.awaited) (a : Activation γ) (error : Thrown) (e : Event β γ)
    (r : Reading) :
    Held (caught cfg u a error) (read cfg s e (caught cfg u a error) r).number
      (read cfg s e (caught cfg u a error) r).kept := by
  unfold caught
  split
  · refine .idle ?_ rfl _ _
    have hquiet := onError_quiet u (KafkaError.createUnknown error false)
    change (onError u (KafkaError.createUnknown error false)).queue.map (·.position) <:+
      (onError u (KafkaError.createUnknown error false)).entered
    rw [hquiet.entered]
    obtain ⟨hqueue, _⟩ | ⟨hqueue, _⟩ := hquiet.queue
    · rw [hqueue]
      exact hq
    · rw [hqueue]
      exact List.nil_suffix
  · exact runQueue_held hq hawaited _ e r

/-- Committing and shifting leave the elements that entered last. -/
theorem succeed_queue (hq : s.queue.map (·.position) <:+ s.entered) (a : Activation γ)
    (commits : List (Option Thrown)) :
    (succeed cfg s a commits).queue.map (·.position) <:+ (succeed cfg s a commits).entered ∧
      (succeed cfg s a commits).awaited = s.awaited := by
  obtain ⟨committed, _, hquiet⟩ :=
    safeCommitMessage_quiet cfg (resolve s a) a.element.position commits 0
  refine ⟨?_, hquiet.awaited⟩
  have hentered : (succeed cfg s a commits).entered = s.entered := hquiet.entered
  rw [hentered]
  simp only [succeed]
  obtain ⟨hqueue, _⟩ | ⟨hqueue, _⟩ := hquiet.queue
  · rw [hqueue, List.map_tail]
    exact (List.tail_suffix _).trans hq
  · rw [hqueue]
    exact List.nil_suffix

/-- Every step keeps what is known about the element that was read. -/
theorem step_held {e : Event β γ} {r : Reading} (h : Held s r.number r.kept)
    (hs : step cfg s e = some t) :
    Held t (read cfg s e t r).number (read cfg s e t r).kept := by
  have hsettle : ∀ {a commits u}, Throttled (succeed cfg s a commits) u →
      u.queue.map (·.position) <:+ u.entered ∧ u.awaited = s.awaited := by
    rintro a commits u ⟨_, _, rfl⟩
    exact succeed_queue h.queue a commits
  cases step_effect hs with
  | quiet _ hq => exact h.keep ((Filled.still rfl rfl rfl rfl).quiet hq)
  | arrive | retry | resolve => exact h.keep (.still rfl rfl rfl rfl)
  | @reject i m _ _ _ _ hq =>
    have hrejected : Filled s { decoded s i with dropped := s.dropped ++ [m.position] } [] :=
      .still rfl rfl rfl rfl
    exact h.keep (hrejected.quiet hq)
  | @enter i m value u hm hu =>
    obtain ⟨added, hfilled, _⟩ := push_filled cfg s i ⟨m.position, value⟩
    have hu := hfilled.quiet hu.quiet
    unfold processQueue
    split
    · exact runQueue_held (u := { u with queueIsProcessing := true }) (h.filled hu).queue
        hu.awaited 0 _ r
    · exact h.keep hu
  | @overflow i m value _ _ hm hq =>
    obtain ⟨added, hfilled, _⟩ := push_filled cfg s i ⟨m.position, value⟩
    exact h.keep (hfilled.quiet hq)
  | fail _ => exact caught_held h.queue rfl _ _ _ r
  | succeed _ _ hu =>
    obtain ⟨hqueue, hawaited⟩ := hsettle hu
    exact runQueue_held hqueue hawaited 0 _ r
  | underflow _ _ hu =>
    obtain ⟨hqueue, hawaited⟩ := hsettle hu
    exact caught_held hqueue hawaited _ _ _ r

/-! ## The shift -/

/-- Committing records the commit, or reports the error it fails with. -/
theorem safeCommitMessage_commitFailure (cfg : Config) (s : State β γ) (p : Position)
    (attempts : List (Option Thrown)) (errorCount : Nat) :
    safeCommitMessage cfg s p attempts errorCount =
      match commitFailure cfg attempts errorCount with
      | none => { s with committed := s.committed ++ [p] }
      | some error => onError s (KafkaError.createUnknown error false) := by
  induction attempts generalizing errorCount with
  | nil => rfl
  | cons attempt attempts ih =>
    cases attempt with
    | none => rfl
    | some error =>
      rw [safeCommitMessage, commitFailure]
      split
      · rfl
      · exact ih (errorCount + 1)

/-- Neither the loop nor back-pressure touches what has been resolved and committed. -/
def SameResults (s t : State β γ) : Prop := t.committed = s.committed ∧ t.resolved = s.resolved

theorem SameResults.trans (h : SameResults s t) (k : SameResults t u) : SameResults s u :=
  ⟨k.1.trans h.1, k.2.trans h.2⟩

/-- The head of the loop has no results. -/
theorem runQueue_sameResults (s : State β γ) (errorCount : Nat) :
    SameResults s (runQueue s errorCount) := by
  unfold runQueue
  split
  · exact ⟨rfl, rfl⟩
  · exact ⟨rfl, rfl⟩

/-- Nor has what it catches. -/
theorem caught_sameResults (s : State β γ) (a : Activation γ) (error : Thrown) :
    SameResults s (caught cfg s a error) := by
  unfold caught
  split
  · have hquiet := onError_quiet s (KafkaError.createUnknown error false)
    exact ⟨hquiet.committed, hquiet.resolved⟩
  · exact runQueue_sameResults s _

/-- After the commit of an iteration nothing more is resolved or committed in its step. -/
theorem settled_results {commits : List (Option Thrown)} {flow : Option Thrown}
    (ha : s.processing = some a) (h : settled cfg s none commits flow = some t) :
    SameResults (committing cfg s a commits) t ∧ outcomeOf s a.element none = true := by
  have hsucceed : ∀ {u}, Throttled (succeed cfg s a commits) u →
      SameResults (committing cfg s a commits) u := by
    rintro u ⟨_, _, rfl⟩
    exact ⟨rfl, rfl⟩
  cases settled_effect h with
  | quiet he _ => exact he.elim
  | succeed hb hout hu =>
    obtain rfl := Option.some.inj (ha.symm.trans hb)
    exact ⟨(hsucceed hu).trans (runQueue_sameResults _ 0), hout⟩
  | underflow hb hout hu =>
    obtain rfl := Option.some.inj (ha.symm.trans hb)
    exact ⟨(hsucceed hu).trans (caught_sameResults _ a _), hout⟩

/-- A fatal error of the commit leaves nothing to remove. -/
theorem shifted_eq (ha : s.processing = some a) (commits : List (Option Thrown))
    (flow : Option Thrown) : shifted cfg s (.settled none commits flow) =
      if s.queue = [] ∨ (commitFailure cfg commits 0).any
          (fun error => (KafkaError.createUnknown error false).isFatal) = true then none
      else some (front s) := by
  simp only [shifted, ha, committing, safeCommitMessage_commitFailure]
  cases commitFailure cfg commits 0 with
  | none => simp [resolve, front]
  | some error =>
    unfold onError
    cases hfatal : (KafkaError.createUnknown error false).isFatal with
    | true => simp [hfatal, stop, clear]
    | false => simp [hfatal, resolve, front]

/-- The element that was read is the one at the front exactly when the queue has been kept. -/
theorem Held.front_eq_iff {number : Nat} {kept : Bool} (h : Held s number kept)
    (ha : s.processing = some a) : front s = number ↔ kept = true := by
  have hfront := h.place a ha
  cases kept with
  | true => simpa using hfront.symm
  | false =>
    simp only [Bool.false_eq_true, if_false] at hfront
    simpa using Nat.ne_of_gt hfront

/-- Where the commit succeeds the queue has to be the one that was read from, and where it fails
the error has to have cleared it. -/
theorem Held.settled_removesRead_iff {commits : List (Option Thrown)} {flow : Option Thrown}
    {r : Reading} (h : Held s r.number r.kept) (hp : Promised s) (ha : s.processing = some a)
    (hs : settled cfg s none commits flow = some t) :
    RemovesRead cfg (s, r) (.settled none commits flow) ↔
      Uncleared cfg (s, r) (.settled none commits flow) := by
  obtain ⟨⟨hcommitted, hresolved⟩, hout⟩ := settled_results ha hs
  have hposition := hp.resolved ha hout
  have hfront := h.front_eq_iff ha
  simp only [RemovesRead, Uncleared, shifted_eq ha]
  rw [committing, safeCommitMessage_commitFailure] at hcommitted hresolved
  by_cases hempty : s.queue = []
  · simp [hempty]
  have hlt : front s < s.entered.length := by
    have hle := h.length_le
    have hpos := List.length_pos_iff.mpr hempty
    unfold front
    omega
  cases hfailure : commitFailure cfg commits 0 with
  | none =>
    rw [hfailure] at hcommitted hresolved
    simp only [hempty, Option.any_none, Bool.false_eq_true, or_self, if_false, false_or, spares]
    rw [← hfront]
    refine ⟨fun hall => (hall _ rfl).1, fun heq n hn => ?_⟩
    obtain rfl := Option.some.inj hn
    refine ⟨heq, fun v hv q hq => ?_⟩
    obtain rfl := Option.some.inj (hs.symm.trans hv)
    rw [heq, h.element a ha] at hq
    obtain rfl := Option.some.inj hq
    exact ⟨hresolved ▸ hposition, hcommitted⟩
  | some error =>
    rw [hfailure] at hcommitted
    cases hfatal : (KafkaError.createUnknown error false).isFatal with
    | true => simp [spares, hfatal]
    | false =>
      simp only [hempty, Option.any_some, hfatal, Bool.false_eq_true, or_self, if_false, spares,
        iff_false]
      intro hall
      have hnew := ((hall _ rfl).2 t hs _ (List.getElem?_eq_getElem hlt)).2
      have hold : t.committed = s.committed :=
        hcommitted.trans (onError_quiet (resolve s a) _).committed
      simp [hold] at hnew

/-- The shift of a step removes what was read exactly when the queue has been spared. -/
theorem removesRead_iff {e : Event β γ} {r : Reading} (h : Held s r.number r.kept)
    (hp : Promised s) (hs : step cfg s e = some t) :
    RemovesRead cfg (s, r) e ↔ Uncleared cfg (s, r) e := by
  cases e with
  | settled failure commits flow =>
    cases failure with
    | some error => simp [RemovesRead, Uncleared, shifted]
    | none =>
      cases ha : s.processing with
      | none => simp [step, settled, ha] at hs
      | some a =>
        exact h.settled_removesRead_iff hp ha hs
  | start | connected | data | seeked | deserialized | retried | clientError | disconnected | stop
  | disconnectCallback => simp [RemovesRead, Uncleared, shifted]

/-! ## Nothing else leaves the queue -/

/-- How many of the messages handed to `onData` are neither being decoded nor queued nor
dropped. -/
def gone (s : State β γ) : Int :=
  s.delivered.length - (s.arriving.length + s.queue.length + s.dropped.length)

/-- Clearing the queue drops what was in it. -/
theorem Quiet.gone (h : Quiet s t) : gone t = gone s := by
  unfold Consumer.gone
  rw [h.arriving, h.delivered]
  obtain ⟨hq, hd⟩ | ⟨hq, hd⟩ := h.queue
  · rw [hq, hd]
  · simp only [hq, hd, List.length_nil, List.length_append, List.length_map]
    omega

theorem runQueue_gone (s : State β γ) (errorCount : Nat) :
    gone (runQueue s errorCount) = gone s := by
  unfold runQueue
  split
  · rfl
  · rfl

private theorem processQueue_gone (s : State β γ) : gone (processQueue s) = gone s := by
  unfold processQueue
  split
  · exact runQueue_gone _ 0
  · rfl

theorem caught_gone (s : State β γ) (a : Activation γ) (error : Thrown) :
    gone (caught cfg s a error) = gone s := by
  unfold caught
  split
  · exact (onError_quiet s _).gone
  · exact runQueue_gone s _

/-- A decoded message moves from the activation of `onData` to the queue. -/
theorem push_gone {i : Nat} {m : Message β} (hm : s.arriving[i]? = some m) (n : Message γ) :
    gone (push cfg (decoded s i) n) = gone s := by
  obtain ⟨hlt, _⟩ := List.getElem?_eq_some_iff.mp hm
  obtain ⟨_, _, _, _, h⟩ := push_eq cfg (decoded s i) n
  rw [h]
  simp only [gone, decoded, List.length_eraseIdx, hlt, if_true, List.length_append,
    List.length_singleton]
  omega

/-- The shift takes one message off the queue, if there is one. -/
theorem succeed_gone (ha : s.processing = some a) (commits : List (Option Thrown))
    (flow : Option Thrown) : gone (succeed cfg s a commits) =
      gone s + (shifted cfg s (.settled none commits flow)).toList.length := by
  obtain ⟨_, _, hquiet⟩ :=
    safeCommitMessage_quiet cfg (resolve s a) a.element.position commits 0
  have hgone : gone (committing cfg s a commits) = gone s := hquiet.gone
  rw [← hgone]
  change gone { committing cfg s a commits with
    queue := (committing cfg s a commits).queue.tail } = _
  simp only [shifted, ha]
  cases hq : (committing cfg s a commits).queue with
  | nil => simp [gone, hq]
  | cons element rest =>
    simp only [gone, hq, List.tail_cons, List.isEmpty_cons, Bool.false_eq_true, if_false,
      Option.toList_some, List.length_cons, List.length_nil]
    omega

/-- Only a shift makes a message leave the consumer. -/
theorem step_gone {e : Event β γ} (hs : step cfg s e = some t) :
    gone t = gone s + (shifted cfg s e).toList.length := by
  have hnone : ∀ {e : Event β γ}, e.Quiet → shifted cfg s e = none := by
    intro e he
    cases e <;> first | rfl | exact he.elim
  cases step_effect hs with
  | quiet he hq =>
    rw [hnone he, hq.gone]
    exact (Int.add_zero _).symm
  | arrive =>
    simp only [gone, shifted, List.length_append, Option.toList_none, List.length_nil,
      List.length_singleton]
    omega
  | retry | resolve => exact (Int.add_zero _).symm
  | @reject i m _ _ _ hm hq =>
    obtain ⟨hlt, _⟩ := List.getElem?_eq_some_iff.mp hm
    rw [hq.gone]
    simp only [gone, shifted, decoded, List.length_eraseIdx, hlt, if_true, List.length_append,
      Option.toList_none, List.length_nil, List.length_singleton]
    omega
  | enter hm hu =>
    rw [processQueue_gone, hu.quiet.gone, push_gone hm]
    exact (Int.add_zero _).symm
  | overflow hm hq =>
    rw [hq.gone, push_gone hm]
    exact (Int.add_zero _).symm
  | fail ha =>
    rw [caught_gone]
    exact (Int.add_zero _).symm
  | succeed ha _ hu => rw [runQueue_gone, hu.quiet.gone, succeed_gone ha]
  | underflow ha _ hu => rw [caught_gone, hu.quiet.gone, succeed_gone ha]

/-- Every message handed to `onData` is being decoded, queued, dropped, or a shift has removed
it. -/
theorem delivered_accounted {es : List (Event β γ)} {p : State β γ × Reading}
    (h : (readingMachine cfg).Run Machine.Free (State.init, {}) es p) :
    p.1.delivered.length = p.1.arriving.length + p.1.queue.length + p.1.dropped.length +
      p.2.removed.length := by
  have hgone : gone p.1 = p.2.removed.length := by
    refine h.invariant (I := fun p => gone p.1 = p.2.removed.length) ?_ rfl
    rintro ⟨t, r⟩ e ⟨u, q⟩ ht _ hs
    obtain ⟨hstep, rfl⟩ := Machine.observe_step.mp hs
    simp only at ht
    rw [step_gone hstep, ht]
    simp [read]
  unfold gone at hgone
  omega

/-! ## Runs -/

/-- Every shift of a run removes the element its iteration read, processed and committed, or
nothing, exactly when the queue is spared in every step. -/
theorem removes_read_iff {es : List (Event β γ)} {p : State β γ × Reading}
    (h : (readingMachine cfg).Run Machine.Free (State.init, {}) es p) :
    (readingMachine cfg).Run (RemovesRead cfg) (State.init, {}) es p ↔
      (readingMachine cfg).Run (Uncleared cfg) (State.init, {}) es p := by
  refine h.congr (I := fun p => Held p.1 p.2.number p.2.kept ∧ Promised p.1)
    ⟨Held.init, Fresh.init.promised⟩ ?_ ?_
  · rintro ⟨t, r⟩ e ⟨u, q⟩ ⟨ht, hp⟩ _ hs
    obtain ⟨hstep, rfl⟩ := Machine.observe_step.mp hs
    exact ⟨step_held ht hstep, step_promised hp hstep⟩
  · rintro ⟨t, r⟩ e ⟨u, q⟩ ⟨ht, hp⟩ hs
    exact removesRead_iff ht hp (Machine.observe_step.mp hs).1

/-- A message of another partition. -/
def stray : Message Unit := ⟨⟨"blocks", 1, 0⟩, none⟩

/-- A message is being processed when the connection fails; the consumer is started again and a
message of another partition is queued. -/
def clearedWhileSuspended : List (Event Unit Unit) :=
  [.start, .connected true, .data (tombstone 0), .deserialized 0 (.ok none) none,
    .clientError ⟨"all broker connections are down", -187, true, "local"⟩, .disconnectCallback,
    .start, .connected true, .data stray, .deserialized 0 (.ok none) none]

/-- Then `observer.next` resolves for the first message: the other one leaves the queue without
having been handed to the observer. -/
theorem clearedWhileSuspended_removes_other : ∃ p,
    (readingMachine impatient).Run Machine.Free (State.init, {})
      (clearedWhileSuspended ++ [.settled none [] none]) p ∧
    p.1.queue = [] ∧ p.2.removed = [1] ∧ stray.position ∉ p.1.nextCalls ∧
    p.1.committed = [(tombstone 0).position] ∧ p.1.dropped = [(tombstone 0).position] ∧
    ¬ (readingMachine impatient).Run (RemovesRead impatient) (State.init, {})
      (clearedWhileSuspended ++ [.settled none [] none]) p := by
  obtain ⟨p, hr, hshifted, hnumber⟩ : ∃ p,
      (readingMachine impatient).Run Machine.Free ((State.init : State Unit Unit), {})
        clearedWhileSuspended p ∧
      shifted impatient p.1 (.settled none [] none) = some 1 ∧ p.2.number = 0 :=
    Machine.exists_run_of_exec (by decide)
  obtain ⟨q, hrun, hqueue, hremoved, hnext, hcommitted, hdropped⟩ : ∃ q,
      (readingMachine impatient).Run Machine.Free ((State.init : State Unit Unit), {})
        (clearedWhileSuspended ++ [.settled none [] none]) q ∧
      q.1.queue = [] ∧ q.2.removed = [1] ∧ stray.position ∉ q.1.nextCalls ∧
      q.1.committed = [(tombstone 0).position] ∧ q.1.dropped = [(tombstone 0).position] :=
    Machine.exists_run_of_exec (by decide)
  refine ⟨q, hrun, hqueue, hremoved, hnext, hcommitted, hdropped, fun hremoves => ?_⟩
  obtain ⟨v, hv, hg, _⟩ := hremoves.snoc_inv
  obtain rfl := hr.deterministic hv
  have hread := (hg 1 hshifted).1
  omega

/-- Two messages are queued, and the first one is processed and committed. -/
def spared : List (Event Unit Unit) :=
  [.start, .connected true, .data (tombstone 0), .deserialized 0 (.ok none) none, .data stray,
    .deserialized 0 (.ok none) none, .settled none [none] none]

/-- In this run each removal takes the message that was read. -/
theorem spared_removes_read : ∃ p,
    (readingMachine impatient).Run Machine.Free ((State.init : State Unit Unit), {}) spared p ∧
    p.2.removed = [0] ∧
    (readingMachine impatient).Run (RemovesRead impatient) (State.init, {}) spared p := by
  obtain ⟨p, hr, hremoved⟩ : ∃ p, (readingMachine impatient).Run (Uncleared impatient)
      ((State.init : State Unit Unit), {}) spared p ∧ p.2.removed = [0] :=
    Machine.exists_run_of_exec (by decide)
  have hfree := hr.mono (H := Machine.Free) fun _ _ _ => trivial
  exact ⟨p, hfree, hremoved, (removes_read_iff hfree).mpr hr⟩

end ChainIndexer.Consumer
