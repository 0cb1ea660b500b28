import ChainIndexer.Core.Observe
import ChainIndexer.Consumer.Errors

/-!
# Rejections of the promises in the queue

`retryPromise` runs from the moment its message is queued, and `processQueue` awaits the
promises one by one. A promise that rejects is handled only if it is the one awaited: any
other rejection has nobody behind it. An awaited rejection reaches `observer.error` as long
as `processQueue` comes back to the same element until it gives up on it. Both are so when
messages fail only at the front of the queue, which is not cleared under an iteration.
-/

namespace ChainIndexer.Consumer

variable {β γ : Type} {cfg : Config} {s t u : State β γ}

/-- The promise at which `processQueue` is suspended. -/
def awaiting (s : State β γ) : Option Nat := s.processing.bind (·.element.promise)

/-- The error a promise has rejected with. -/
def rejection (s : State β γ) (i : Nat) : Option BaseError :=
  match s.promises[i]? with
  | some ⟨_, _, .rejected error⟩ => some error
  | _ => none

/-- What has become of the promises that rejected. -/
structure Rejections where
  /-- Promises that rejected while nothing awaited them. -/
  unhandled : List Nat := []
  /-- Promises whose error `processQueue` has handed to `observer.error`. -/
  delivered : List Nat := []

/-- A rejection is unhandled where nothing awaits it, and delivered where the iteration that
awaited it tells the observer. -/
def Rejections.record (s : State β γ) (e : Event β γ) (t : State β γ) (r : Rejections) :
    Rejections :=
  match e with
  | .retried i _ =>
    if (rejection t i).isSome ∧ awaiting s ≠ some i then { r with unhandled := r.unhandled ++ [i] }
    else r
  | .settled .. => { r with
      delivered := r.delivered ++ (awaiting s).toList.filter fun i =>
        (rejection s i).any fun error => decide (t.errors = s.errors ++ [error]) }
  | _ => r

/-- The consumer with the fate of its rejections. -/
def watched (cfg : Config) : Machine (State β γ × Rejections) (Event β γ) :=
  (machine cfg).observe Rejections.record

/-- No rejection went unhandled, and each one is awaited or has been delivered. -/
structure Heard (p : State β γ × Rejections) : Prop where
  unhandled : p.2.unhandled = []
  rejected : ∀ i, (rejection p.1 i).isSome = true → awaiting p.1 = some i ∨ i ∈ p.2.delivered

/-- The failure of `observer.next` is one that `retryPromise` does not retry. -/
def failsForGood (cfg : Config) (s : State β γ) (i : Nat) (failure : Option Thrown) : Bool :=
  failure.any fun error => (s.promises[i]?).any fun promise =>
    decide (cfg.maxRetries ≤ promise.errorCount) || error.isFatalBase

/-- `observer.next` fails for good only for the element `processQueue` is suspended at, and
where `processQueue` is to retry that element, it still stands at the front of the queue. -/
def Heeds (cfg : Config) (s : State β γ) : Event β γ → Prop
  | .retried i failure => failsForGood cfg s i failure = true → awaiting s = some i
  | .settled (some error) _ _ => ∀ a ∈ s.processing, ∀ i ∈ a.element.promise,
      givesUp cfg a error = false → s.queue.head?.bind (·.promise) = some i
  | _ => True

instance (s : State β γ) : (e : Event β γ) → Decidable (Heeds cfg s e)
  | .retried i failure =>
    inferInstanceAs (Decidable (failsForGood cfg s i failure = true → awaiting s = some i))
  | .settled (some error) _ _ => inferInstanceAs (Decidable (∀ a ∈ s.processing,
      ∀ i ∈ a.element.promise,
      givesUp cfg a error = false → s.queue.head?.bind (·.promise) = some i))
  | .settled none _ _ | .start | .connected _ | .data _ | .seeked .. | .deserialized ..
  | .clientError _ | .disconnected | .stop | .disconnectCallback => .isTrue trivial

/-! ## Promises and their await -/

/-- The promises say which of them rejected. -/
theorem rejection_congr (h : t.promises = s.promises) (i : Nat) :
    rejection t i = rejection s i := by
  rw [rejection, rejection, h]

private theorem awaiting_congr (h : t.processing = s.processing) : awaiting t = awaiting s := by
  rw [awaiting, awaiting, h]

/-- A new promise has not rejected. -/
theorem push_rejection (cfg : Config) (s : State β γ) (m : Message γ) (i : Nat) :
    rejection (push cfg s m) i = rejection s i := by
  unfold push enqueue
  cases cfg.mode with
  | synchronous => rfl
  | asynchronous =>
    have hnew : ∀ settlement : Settlement, (∀ error, settlement ≠ .rejected error) →
        ∀ r : State β γ, r.promises = s.promises ++ [⟨m, 0, settlement⟩] →
          rejection r i = rejection s i := by
      intro settlement hnot r hr
      rw [rejection, rejection, hr]
      rcases Nat.lt_trichotomy i s.promises.length with hlt | heq | hgt
      · rw [List.getElem?_append_left hlt]
      · subst heq
        cases settlement with
        | pending | fulfilled => simp
        | rejected error => exact absurd rfl (hnot error)
      · have hnone : ∀ more : List (RetryPromise γ), more.length ≤ i → more[i]? = none :=
          fun _ => List.getElem?_eq_none
        rw [hnone _ (by simpa using Nat.succ_le_of_lt hgt), hnone _ (Nat.le_of_lt hgt)]
    dsimp only
    split
    · exact hnew .pending (by simp) _ rfl
    · exact hnew .fulfilled (by simp) _ rfl

/-- The head of the loop settles no promise. -/
theorem runQueue_promises (s : State β γ) (errorCount : Nat) :
    (runQueue s errorCount).promises = s.promises := by
  unfold runQueue
  split
  · rfl
  · rfl

/-- At the head of the loop the front element is awaited. -/
theorem awaiting_runQueue (s : State β γ) (errorCount : Nat) :
    awaiting (runQueue s errorCount) = s.queue.head?.bind (·.promise) := by
  cases hq : s.queue with
  | nil =>
    rw [runQueue_nil hq]
    rfl
  | cons element rest =>
    rw [runQueue_cons hq]
    rfl

/-- Nor does what it catches. -/
theorem caught_promises (s : State β γ) (a : Activation γ) (error : Thrown) :
    (caught cfg s a error).promises = s.promises := by
  unfold caught
  split
  · exact (onError_quiet s _).promises
  · exact runQueue_promises s _

theorem succeed_promises (cfg : Config) (s : State β γ) (a : Activation γ)
    (commits : List (Option Thrown)) : (succeed cfg s a commits).promises = s.promises := by
  obtain ⟨_, _, h⟩ := safeCommitMessage_quiet cfg (resolve s a) a.element.position commits 0
  exact h.promises

/-- Only a call of `observer.next` that settles moves a rejection. -/
theorem settled_promises {commits : List (Option Thrown)} {failure flow : Option Thrown}
    (h : settled cfg s failure commits flow = some t) : t.promises = s.promises := by
  have hsucceed : ∀ {a commits u}, Throttled (succeed cfg s a commits) u →
      u.promises = s.promises :=
    fun hu => hu.quiet.promises.trans (succeed_promises cfg s _ _)
  cases settled_effect h with
  | quiet he _ => exact he.elim
  | fail _ => exact caught_promises s _ _
  | succeed _ _ hu => exact (runQueue_promises _ 0).trans (hsucceed hu)
  | underflow _ _ hu => exact (caught_promises _ _ _).trans (hsucceed hu)

/-- An await that resolves awaits no rejection. -/
theorem outcomeOf_none {element : QueueObject γ} {i : Nat}
    (h : outcomeOf s element none = true) (hi : element.promise = some i) :
    rejection s i = none := by
  rw [outcomeOf, hi] at h
  unfold rejection
  dsimp only at h
  split at h
  · rename_i hp
    rw [hp]
  · simp at h
  · cases h

/-- An await of a promise that throws throws what the promise has rejected with. -/
theorem outcomeOf_some {element : QueueObject γ} {i : Nat} {error : Thrown}
    (h : outcomeOf s element (some error) = true) (hi : element.promise = some i) :
    ∃ reason, rejection s i = some reason ∧ error = .base reason := by
  rw [outcomeOf, hi] at h
  dsimp only at h
  split at h
  · simp at h
  · rename_i reason hp
    refine ⟨reason, ?_, ?_⟩
    · rw [rejection, hp]
    · simpa using h
  · cases h

/-- An await that throws goes to the catch block. -/
theorem settled_some {a : Activation γ} {error : Thrown} {commits : List (Option Thrown)}
    {flow : Option Thrown} (ha : s.processing = some a)
    (h : settled cfg s (some error) commits flow = some t) :
    outcomeOf s a.element (some error) = true ∧ t = caught cfg s a error := by
  unfold settled at h
  rw [ha] at h
  dsimp only at h
  split at h
  · rename_i hout
    exact ⟨hout, (Option.some.inj h).symm⟩
  · cases h

/-- A settled call of `observer.next` rejects its promise exactly when it fails for good. -/
theorem retried_rejection {i : Nat} {failure : Option Thrown}
    (h : retried cfg s i failure = some t) :
    t.processing = s.processing ∧ (∀ j, j ≠ i → rejection t j = rejection s j) ∧
      rejection s i = none ∧ ((rejection t i).isSome ↔ failsForGood cfg s i failure = true) := by
  unfold retried at h
  split at h
  · rename_i m errorCount hp
    obtain ⟨hlt, _⟩ := List.getElem?_eq_some_iff.mp hp
    have hself : rejection s i = none := by rw [rejection, hp]
    have hset : ∀ p, t.promises = s.promises.set i p →
        (∀ j, j ≠ i → rejection t j = rejection s j) ∧ t.promises[i]? = some p := by
      intro p hpromises
      refine ⟨fun j hj => ?_, ?_⟩
      · rw [rejection, rejection, hpromises, List.getElem?_set_ne (Ne.symm hj)]
      · rw [hpromises, List.getElem?_set_self hlt]
    cases failure with
    | none =>
      obtain rfl := Option.some.inj h
      obtain ⟨hothers, hat⟩ := hset ⟨m, errorCount, .fulfilled⟩ rfl
      exact ⟨rfl, hothers, hself, by simp [rejection, hat, failsForGood]⟩
    | some error =>
      dsimp only at h
      split at h
      · rename_i hfinal
        obtain rfl := Option.some.inj h
        obtain ⟨hothers, hat⟩ := hset ⟨m, errorCount, .rejected _⟩ rfl
        exact ⟨rfl, hothers, hself, by simpa [rejection, hat, failsForGood, hp] using hfinal⟩
      · rename_i hfinal
        obtain rfl := Option.some.inj h
        obtain ⟨hothers, hat⟩ := hset ⟨m, errorCount + 1, .pending⟩ rfl
        exact ⟨rfl, hothers, hself, by simpa [rejection, hat, failsForGood, hp] using hfinal⟩
  · cases h

/-! ## A step of the watched consumer -/

/-- An activation belongs to an observer, and none follows a rejection that was delivered. -/
structure Watched (p : State β γ × Rejections) : Prop where
  flagged : Flagged p.1
  observed : p.1.processing.isSome = true → p.1.observer = true
  ended : p.2.delivered ≠ [] → ¬ Attended p.1

variable {r : Rejections}

/-- Nothing has been delivered while an activation exists. -/
theorem Watched.undelivered (hw : Watched (s, r)) {a : Activation γ}
    (ha : s.processing = some a) : r.delivered = [] := by
  by_contra hne
  exact hw.ended hne fun _ => by simp [ha]

/-- While an activation exists, only the promise it awaits has rejected. -/
theorem Heard.only_awaiting (h : Heard (s, r)) (hw : Watched (s, r)) {a : Activation γ}
    (ha : s.processing = some a) {i : Nat} (hi : (rejection s i).isSome = true) :
    a.element.promise = some i := by
  have hwait := (h.rejected i hi).resolve_right (by simp [hw.undelivered ha])
  simpa [awaiting, ha] using hwait

/-- The step settles a promise or a call of `observer.next`. -/
def Event.settles : Event β γ → Bool
  | .retried .. | .settled .. => true
  | _ => false

/-- Where nothing settles, no promise rejects and `processQueue` goes on awaiting. -/
theorem step_waits {e : Event β γ} (hflagged : Flagged s) (he : e.settles = false)
    (hs : step cfg s e = some t) :
    (∀ i, rejection t i = rejection s i) ∧
      ∀ a, s.processing = some a → t.processing = some a := by
  have hquiet : ∀ {u t : State β γ}, (∀ i, rejection u i = rejection s i) → SameLoop s u →
      Quiet u t →
      (∀ i, rejection t i = rejection s i) ∧ ∀ a, s.processing = some a → t.processing = some a :=
    fun hu hloop hq => ⟨fun i => (rejection_congr hq.promises i).trans (hu i),
      fun _ ha => (hq.processing.trans hloop.processing).trans ha⟩
  have hpush : ∀ i m j, rejection (push cfg (decoded s i) m) j = rejection s j :=
    fun _ _ j => push_rejection cfg _ _ j
  cases step_effect hs with
  | quiet _ hq => exact hquiet (fun _ => rfl) (.refl s) hq
  | arrive => exact ⟨fun _ => rfl, fun _ ha => ha⟩
  | @reject i m _ _ _ _ hq =>
    exact hquiet (u := { decoded s i with dropped := s.dropped ++ [m.position] })
      (fun _ => rfl) ⟨rfl, rfl⟩ hq
  | overflow _ hq => exact hquiet (hpush _ _) (push_decoded_sameLoop cfg s _ _) hq
  | retry | resolve | fail | succeed | underflow => cases he
  | @enter i m value u _ hu =>
    obtain ⟨hrejection, hprocessing⟩ :=
      hquiet (hpush _ _) (push_decoded_sameLoop cfg s _ _) hu.quiet
    have hraised := ((push_decoded_sameLoop cfg s _ _).trans hu.quiet.sameLoop).flagged hflagged
    unfold processQueue
    split
    · rename_i hguard
      refine ⟨fun j => ?_, fun a ha => ?_⟩
      · rw [rejection_congr (runQueue_promises _ 0)]
        exact hrejection j
      · simp [hraised (by simp [hprocessing a ha])] at hguard
    · exact ⟨hrejection, hprocessing⟩

/-- An await that resolves delivers nothing. -/
theorem record_settled_none {commits : List (Option Thrown)} {flow : Option Thrown}
    (hs : settled cfg s none commits flow = some t) :
    (∃ a, s.processing = some a ∧ outcomeOf s a.element none = true) ∧
      Rejections.record s (.settled none commits flow) t r = r := by
  obtain ⟨a, ha, hout⟩ : ∃ a, s.processing = some a ∧ outcomeOf s a.element none = true := by
    cases settled_effect hs with
    | quiet he _ => exact he.elim
    | succeed ha hout _ => exact ⟨_, ha, hout⟩
    | underflow ha hout _ => exact ⟨_, ha, hout⟩
  refine ⟨⟨a, ha, hout⟩, ?_⟩
  have hawaiting : awaiting s = a.element.promise := by simp [awaiting, ha]
  cases hpromise : a.element.promise with
  | none => simp [Rejections.record, hawaiting, hpromise]
  | some i => simp [Rejections.record, hawaiting, hpromise, outcomeOf_none hout hpromise]

/-- An iteration delivers the error of the promise it awaited exactly when it gives up. -/
theorem record_caught (hw : Watched (s, r)) {a : Activation γ} (ha : s.processing = some a)
    {i : Nat} (hpromise : a.element.promise = some i) {reason : BaseError}
    (hreason : rejection s i = some reason) (commits : List (Option Thrown))
    (flow : Option Thrown) :
    Rejections.record s (.settled (some (.base reason)) commits flow)
        (caught cfg s a (.base reason)) r =
      if givesUp cfg a (.base reason) then { r with delivered := r.delivered ++ [i] } else r := by
  have hawaiting : awaiting s = some i := by simp [awaiting, ha, hpromise]
  have herrors : (caught cfg s a (.base reason)).errors = _ := caught_errors s a _
  rw [hw.observed (by simp [ha])] at herrors
  cases hgives : givesUp cfg a (.base reason) with
  | true =>
    rw [hgives] at herrors
    simp [Rejections.record, hawaiting, hreason, herrors, KafkaError.createUnknown]
  | false =>
    rw [hgives] at herrors
    simp [Rejections.record, hawaiting, herrors]

/-- Without a rejection at stake, an iteration leaves everything heard. -/
theorem Heard.settled_none (h : Heard (s, r)) (hw : Watched (s, r))
    {commits : List (Option Thrown)} {flow : Option Thrown}
    (hs : settled cfg s none commits flow = some t) :
    Heard (t, Rejections.record s (.settled none commits flow) t r) := by
  obtain ⟨⟨a, ha, hout⟩, hrecord⟩ := record_settled_none (r := r) hs
  rw [hrecord]
  refine ⟨h.unhandled, fun i hi => ?_⟩
  rw [rejection_congr (settled_promises hs)] at hi
  rw [outcomeOf_none hout (h.only_awaiting hw ha hi)] at hi
  cases hi

/-- An awaited promise that throws stays heard exactly when `processQueue` gives up on it or
comes back to it. -/
theorem caught_heard_iff (h : Heard (s, r)) (hw : Watched (s, r)) {a : Activation γ}
    (ha : s.processing = some a) {error : Thrown}
    (hout : outcomeOf s a.element (some error) = true) (commits : List (Option Thrown))
    (flow : Option Thrown) :
    Heard (caught cfg s a error,
        Rejections.record s (.settled (some error) commits flow) (caught cfg s a error) r) ↔
      Heeds cfg s (.settled (some error) commits flow) := by
  have hpromises : (caught cfg s a error).promises = s.promises := caught_promises s a error
  have hheeds : Heeds cfg s (.settled (some error) commits flow) ↔
      ∀ i, a.element.promise = some i → givesUp cfg a error = false →
        s.queue.head?.bind (·.promise) = some i := by
    simp [Heeds, ha]
  rw [hheeds]
  cases hpromise : a.element.promise with
  | none =>
    -- the synchronous consumer awaits no promise, and none has rejected
    refine iff_of_true ⟨h.unhandled, fun i hi => ?_⟩ (by simp)
    rw [rejection_congr hpromises] at hi
    cases hpromise.symm.trans (h.only_awaiting hw ha hi)
  | some i =>
    obtain ⟨reason, hreason, rfl⟩ := outcomeOf_some hout hpromise
    rw [record_caught hw ha hpromise hreason]
    have honly : ∀ j, (rejection (caught cfg s a (.base reason)) j).isSome = true → j = i := by
      intro j hj
      rw [rejection_congr hpromises] at hj
      exact (Option.some.inj (hpromise.symm.trans (h.only_awaiting hw ha hj))).symm
    cases hgives : givesUp cfg a (.base reason) with
    | true =>
      refine iff_of_true ⟨h.unhandled, fun j hj => Or.inr ?_⟩ (by simp)
      simp [honly j hj]
    | false =>
      have hcaught : caught cfg s a (.base reason) = runQueue s (a.errorCount + 1) := by
        rw [caught, hgives]
        rfl
      have hback : awaiting (caught cfg s a (.base reason)) = s.queue.head?.bind (·.promise) := by
        rw [hcaught, awaiting_runQueue]
      constructor
      · intro hheard j hj _
        obtain rfl := Option.some.inj hj
        rw [← hback]
        refine (hheard.rejected i ?_).resolve_right (by simp [hw.undelivered ha])
        rw [rejection_congr hpromises, hreason]
        rfl
      · intro hfront
        refine ⟨h.unhandled, fun j hj => Or.inl ?_⟩
        rw [honly j hj, hback]
        exact hfront i rfl rfl

/-- A settled call of `observer.next` stays heard exactly when it does not reject a promise
nothing awaits. -/
theorem retried_heard_iff (h : Heard (s, r)) {i : Nat} {failure : Option Thrown}
    (hs : retried cfg s i failure = some t) :
    Heard (t, Rejections.record s (.retried i failure) t r) ↔
      Heeds cfg s (.retried i failure) := by
  obtain ⟨hprocessing, hothers, _, hself⟩ := retried_rejection hs
  have hawaiting := awaiting_congr hprocessing
  by_cases hlost : (rejection t i).isSome ∧ awaiting s ≠ some i
  · refine iff_of_false (fun hheard => ?_) fun hheeds => hlost.2 (hheeds (hself.mp hlost.1))
    have hunhandled := hheard.unhandled
    simp [Rejections.record, hlost] at hunhandled
  · have hheeds : Heeds cfg s (.retried i failure) := by
      intro hfails
      by_contra hne
      exact hlost ⟨hself.mpr hfails, hne⟩
    refine iff_of_true ?_ hheeds
    rw [Rejections.record, if_neg hlost]
    refine ⟨h.unhandled, fun j hj => ?_⟩
    rw [hawaiting]
    by_cases hij : j = i
    · subst hij
      exact Or.inl (hheeds (hself.mp hj))
    · rw [hothers j hij] at hj
      exact h.rejected j hj

/-- Every step leaves all rejections heard exactly when it heeds the awaited one. -/
theorem step_heard_iff {e : Event β γ} (h : Heard (s, r)) (hw : Watched (s, r))
    (hs : step cfg s e = some t) :
    Heard (t, Rejections.record s e t r) ↔ Heeds cfg s e := by
  cases e with
  | retried i failure => exact retried_heard_iff h hs
  | settled failure commits flow =>
    cases failure with
    | none => exact iff_of_true (h.settled_none hw hs) trivial
    | some error =>
      cases ha : s.processing with
      | none => simp [step, settled, ha] at hs
      | some a =>
        have hs : settled cfg s (some error) commits flow = some t := hs
        obtain ⟨hout, rfl⟩ := settled_some ha hs
        exact caught_heard_iff h hw ha hout commits flow
  | deserialized | start | connected | data | seeked | clientError | disconnected | stop
  | disconnectCallback =>
    obtain ⟨hrejection, hprocessing⟩ := step_waits hw.flagged rfl hs
    refine iff_of_true ⟨h.unhandled, fun i hi => ?_⟩ trivial
    rw [hrejection] at hi
    refine (h.rejected i hi).imp_left fun hwait => ?_
    obtain ⟨a, ha, hpromise⟩ := Option.bind_eq_some_iff.mp hwait
    exact Option.bind_eq_some_iff.mpr ⟨a, hprocessing a ha, hpromise⟩

/-- Only an iteration that gives up delivers, and no activation follows it. -/
theorem Watched.step (hw : Watched (s, r)) {e : Event β γ} (hs : step cfg s e = some t) :
    Watched (t, Rejections.record s e t r) := by
  refine ⟨step_flagged hw.flagged hs, step_observed hw.observed hs, fun hne hatt => ?_⟩
  obtain ⟨hbefore, hendures⟩ := (step_attended_iff hw.flagged hs).mp hatt
  have hnone : r.delivered = [] := by
    by_contra hsome
    exact hw.ended hsome hbefore
  cases e with
  | settled failure commits flow =>
    cases failure with
    | none =>
      rw [(record_settled_none hs).2] at hne
      exact hne hnone
    | some error =>
      cases ha : s.processing with
      | none => simp [Rejections.record, awaiting, ha, hnone] at hne
      | some a =>
        cases hpromise : a.element.promise with
        | none => simp [Rejections.record, awaiting, ha, hpromise, hnone] at hne
        | some i =>
          have hs : settled cfg s (some error) commits flow = some t := hs
          obtain ⟨hout, rfl⟩ := settled_some ha hs
          obtain ⟨reason, hreason, rfl⟩ := outcomeOf_some hout hpromise
          have hgives : givesUp cfg a (.base reason) = false := by
            simpa [Endures, ha] using hendures
          rw [record_caught hw ha hpromise hreason, hgives] at hne
          exact hne hnone
  | retried i failure =>
    refine hne ?_
    unfold Rejections.record
    dsimp only
    split
    · exact hnone
    · exact hnone
  | deserialized | start | connected | data | seeked | clientError | disconnected | stop
  | disconnectCallback => exact hne hnone

/-! ## Runs -/

/-- The event ends an await of `processQueue`. -/
def Event.iterates : Event β γ → Bool
  | .settled .. => true
  | _ => false

/-- A rejection has been delivered, or `processQueue` has been thrown it once for each of the
iterations since and still has retries left. -/
def Pursued (cfg : Config) (i : Nat) (es : List (Event β γ)) (p : State β γ × Rejections) : Prop :=
  i ∈ p.2.delivered ∨ (rejection p.1 i).isSome = true ∧ ∃ a, p.1.processing = some a ∧
    a.element.promise = some i ∧ es.countP Event.iterates ≤ a.errorCount ∧
    es.countP Event.iterates ≤ cfg.maxRetries

private theorem record_delivered (s : State β γ) (e : Event β γ) (t : State β γ) (r : Rejections) :
    r.delivered ⊆ (Rejections.record s e t r).delivered := by
  unfold Rejections.record
  split
  · split
    · exact List.Subset.refl _
    · exact List.Subset.refl _
  · exact List.subset_append_left _ _
  · exact List.Subset.refl _

/-- A rejection that ends the await of its promise is delivered, or thrown again in the next
iteration. -/
theorem Pursued.caught {i : Nat} {es : List (Event β γ)} {a : Activation γ} {error : Thrown}
    {commits : List (Option Thrown)} {flow : Option Thrown} (hw : Watched (s, r))
    (ha : s.processing = some a) (hpromise : a.element.promise = some i)
    (hcount : es.countP Event.iterates ≤ a.errorCount)
    (hheeds : Heeds cfg s (.settled (some error) commits flow))
    (hs : settled cfg s (some error) commits flow = some t) :
    Pursued cfg i (es ++ [.settled (some error) commits flow])
      (t, Rejections.record s (.settled (some error) commits flow) t r) := by
  obtain ⟨hout, rfl⟩ := settled_some ha hs
  obtain ⟨reason, hreason, rfl⟩ := outcomeOf_some hout hpromise
  cases hgives : givesUp cfg a (.base reason) with
  | true =>
    refine Or.inl ?_
    rw [record_caught hw ha hpromise hreason, hgives]
    exact List.mem_append_right _ (List.mem_singleton_self i)
  | false =>
    obtain ⟨element, hfront, hagain⟩ :=
      Option.bind_eq_some_iff.mp (hheeds a ha i hpromise hgives)
    obtain ⟨rest, hqueue⟩ := List.head?_eq_some_iff.mp hfront
    have hcaught : caught cfg s a (.base reason) = runQueue s (a.errorCount + 1) := by
      rw [Consumer.caught, hgives]
      rfl
    have hleft : a.errorCount + 1 ≤ cfg.maxRetries := by
      simp only [givesUp, Bool.or_eq_false_iff, decide_eq_false_iff_not] at hgives
      omega
    have hmore := Nat.add_le_add_right hcount 1
    refine Or.inr ⟨?_, ⟨element, a.errorCount + 1⟩, ?_, hagain, ?_⟩
    · rw [rejection_congr (caught_promises s a _), hreason]
      rfl
    · rw [hcaught, runQueue_cons hqueue]
    · rw [List.countP_append]
      exact ⟨hmore, Nat.le_trans hmore hleft⟩

/-- A step that heeds the awaited promise pursues its rejection. -/
theorem Pursued.step {i : Nat} {es : List (Event β γ)} (h : Pursued cfg i es (s, r))
    (hw : Watched (s, r)) {e : Event β γ} (hheeds : Heeds cfg s e)
    (hs : step cfg s e = some t) : Pursued cfg i (es ++ [e]) (t, Rejections.record s e t r) := by
  obtain hdelivered | ⟨hrejected, a, ha, hpromise, hcount, hretries⟩ := h
  · exact Or.inl (record_delivered s e t r hdelivered)
  have hkeep : e.iterates = false →
      (es ++ [e]).countP Event.iterates = es.countP Event.iterates := by
    intro he
    simp [List.countP_append, he]
  cases e with
  | retried j failure =>
    obtain ⟨hprocessing, hothers, hself, _⟩ := retried_rejection hs
    have hij : i ≠ j := by
      rintro rfl
      rw [hself] at hrejected
      cases hrejected
    refine Or.inr ⟨?_, a, hprocessing.trans ha, hpromise, ?_⟩
    · rw [hothers i hij]
      exact hrejected
    · rw [hkeep rfl]
      exact ⟨hcount, hretries⟩
  | settled failure commits flow =>
    have hs : settled cfg s failure commits flow = some t := hs
    cases failure with
    | none =>
      obtain ⟨⟨b, hb, hout⟩, _⟩ := record_settled_none (r := r) hs
      obtain rfl := Option.some.inj (ha.symm.trans hb)
      rw [outcomeOf_none hout hpromise] at hrejected
      cases hrejected
    | some error =>
      exact Pursued.caught hw ha hpromise hcount hheeds hs
  | deserialized | start | connected | data | seeked | clientError | disconnected | stop
  | disconnectCallback =>
    obtain ⟨hrejection, hprocessing⟩ := step_waits hw.flagged rfl hs
    refine Or.inr ⟨?_, a, hprocessing a ha, hpromise, ?_⟩
    · rw [hrejection]
      exact hrejected
    · rw [hkeep rfl]
      exact ⟨hcount, hretries⟩

variable {p q : State β γ × Rejections} {es fs : List (Event β γ)}

/-- A consumer whose rejections have all been heard. -/
structure Attentive (p : State β γ × Rejections) : Prop where
  heard : Heard p
  kept : Watched p

theorem Attentive.init : Attentive ((State.init, {}) : State β γ × Rejections) :=
  ⟨⟨rfl, fun i hi => by simp [rejection, State.init] at hi⟩,
    ⟨nofun, nofun, fun hne => (hne rfl).elim⟩⟩

/-- The rejections stay heard exactly if the step heeds them. -/
theorem Attentive.step (h : Attentive p) {e : Event β γ} (hs : (watched cfg).step p e = some q) :
    (Heard q ↔ Heeds cfg p.1 e) ∧ (Heeds cfg p.1 e → Attentive q) := by
  obtain ⟨t, r⟩ := q
  obtain ⟨hstep, rfl⟩ := Machine.observe_step.mp hs
  have hiff := step_heard_iff h.heard h.kept hstep
  exact ⟨hiff, fun hheeds => ⟨hiff.mpr hheeds, h.kept.step hstep⟩⟩

/-- Where the awaited promise is always heeded, its rejection is pursued until it is delivered. -/
theorem Attentive.pursued (h : Attentive p) {i : Nat} (hi : (rejection p.1 i).isSome = true)
    (hr : (watched cfg).Run (fun p e => Heeds cfg p.1 e) p fs q) : Pursued cfg i fs q := by
  have hstart : Pursued cfg i [] p := by
    obtain hwait | hdelivered := h.heard.rejected i hi
    · obtain ⟨a, ha, hpromise⟩ := Option.bind_eq_some_iff.mp hwait
      exact Or.inr ⟨hi, a, ha, hpromise, Nat.zero_le _, Nat.zero_le _⟩
    · exact Or.inl hdelivered
  have hrun : Attentive q ∧ Pursued cfg i fs q := by
    refine hr.invariant_history (I := fun fs q => Attentive q ∧ Pursued cfg i fs q) ?_ ⟨h, hstart⟩
    rintro fs t e ⟨u, r⟩ ht hheeds hs
    refine ⟨(ht.1.step hs).2 hheeds, ?_⟩
    obtain ⟨hstep, rfl⟩ := Machine.observe_step.mp hs
    exact ht.2.step ht.1.kept hheeds hstep
  exact hrun.2

/-- In a history every rejection is awaited when it happens and told to the observer after at
most one iteration more than there are retries, exactly when its steps heed the element at which
`processQueue` is suspended. -/
theorem rejections_heard_iff
    (h : (watched cfg).Run Machine.Free (State.init, {}) es p) :
    ((∀ fs q, fs <+: es → (watched cfg).Run Machine.Free (State.init, {}) fs q → Heard q) ∧
      ∀ fs gs q u i, fs ++ gs <+: es → (watched cfg).Run Machine.Free (State.init, {}) fs q →
        (watched cfg).Run Machine.Free q gs u → (rejection q.1 i).isSome = true →
        cfg.maxRetries < gs.countP Event.iterates → i ∈ u.2.delivered) ↔
      (watched cfg).Run (fun p e => Heeds cfg p.1 e) (State.init, {}) es p := by
  have hiff := h.always_iff_guarded (H := fun p e => Heeds cfg p.1 e)
    (fun _ hp => Attentive.heard hp) (fun _ _ _ hp hs => hp.step hs) Attentive.init
  constructor
  · rintro ⟨hheard, _⟩
    exact hiff.mp hheard
  · intro hr
    refine ⟨hiff.mpr hr, ?_⟩
    rintro fs gs q u i ⟨more, rfl⟩ hfs hgs hi hmany
    obtain ⟨v, hv, _⟩ := hr.append_inv
    obtain ⟨w, hw, hwv⟩ := hv.append_inv
    obtain rfl := hw.deterministic hfs
    obtain rfl := hwv.deterministic hgs
    have hattentive : Attentive w :=
      hw.invariant (fun _ _ _ hp hheeds hs => (hp.step hs).2 hheeds) Attentive.init
    refine (hattentive.pursued hi hwv).resolve_right ?_
    rintro ⟨_, _, _, _, _, hretries⟩
    omega

/-! ## Failures in turn -/

/-- `processQueue` is suspended at an element of the queue, which has not been cleared since. -/
def AtWork (s : State β γ) : Prop := ∃ a ∈ s.processing, a.element ∈ s.queue

/-- A message fails for good only at the front of the queue, when all messages queued before it
have been shifted and `processQueue` is at work; and the queue is not cleared before an element
that is to be retried. -/
def FailsInTurn (cfg : Config) (s : State β γ) : Event β γ → Prop
  | .retried i failure => failsForGood cfg s i failure = true →
      s.queue.head?.bind (·.promise) = some i ∧ AtWork s
  | .settled (some error) _ _ => ∀ a ∈ s.processing, givesUp cfg a error = false →
      a.element ∈ s.queue
  | _ => True

instance [DecidableEq γ] (s : State β γ) : Decidable (AtWork s) :=
  inferInstanceAs (Decidable (∃ a ∈ s.processing, a.element ∈ s.queue))

instance [DecidableEq γ] (s : State β γ) : (e : Event β γ) → Decidable (FailsInTurn cfg s e)
  | .retried i failure => inferInstanceAs (Decidable (failsForGood cfg s i failure = true →
      s.queue.head?.bind (·.promise) = some i ∧ AtWork s))
  | .settled (some error) _ _ => inferInstanceAs (Decidable (∀ a ∈ s.processing,
      givesUp cfg a error = false → a.element ∈ s.queue))
  | .settled none _ _ | .start | .connected _ | .data _ | .seeked .. | .deserialized ..
  | .clientError _ | .disconnected | .stop | .disconnectCallback => .isTrue trivial

/-- The element has a promise, one of these many. -/
def Numbered (count : Nat) (element : QueueObject γ) : Prop :=
  ∃ i ∈ element.promise, i < count

/-- Further promises leave the element its own. -/
theorem Numbered.mono {count count' : Nat} {element : QueueObject γ} (h : Numbered count element)
    (hle : count ≤ count') : Numbered count' element := by
  obtain ⟨i, hi, hlt⟩ := h
  exact ⟨i, hi, Nat.lt_of_lt_of_le hlt hle⟩

/-- The element that `processQueue` is suspended at is at the front of the queue, unless the queue
has been cleared. -/
structure Frontal (s : State β γ) : Prop where
  queued : ∀ element ∈ s.queue, Numbered s.promises.length element
  awaited : ∀ a ∈ s.processing, Numbered s.promises.length a.element
  front : ∀ a ∈ s.processing, a.element ∈ s.queue → s.queue.head? = some a.element

theorem Frontal.init : Frontal (State.init : State β γ) := ⟨nofun, nofun, nofun⟩

/-- What moves no message keeps this. -/
theorem Frontal.quiet (h : Frontal s) (hq : Quiet s t) : Frontal t := by
  obtain ⟨hsame, _⟩ | ⟨hempty, _⟩ := hq.queue
  · refine ⟨?_, ?_, ?_⟩
    · rw [hsame, hq.promises]
      exact h.queued
    · rw [hq.processing, hq.promises]
      exact h.awaited
    · rw [hq.processing, hsame]
      exact h.front
  · refine ⟨?_, ?_, ?_⟩
    · rw [hempty]
      exact nofun
    · rw [hq.processing, hq.promises]
      exact h.awaited
    · rw [hempty]
      exact fun _ _ hmem => (by cases hmem)

/-- A queued message has a promise of its own. -/
theorem Frontal.push (hmode : cfg.mode = .asynchronous) (h : Frontal s) (m : Message γ) :
    Frontal (push cfg s m) := by
  have hqueue : (Consumer.push cfg s m).queue = s.queue ++ [⟨m, some s.promises.length⟩] := by
    simp [Consumer.push, enqueue, hmode]
  have hprocessing : (Consumer.push cfg s m).processing = s.processing := by
    obtain ⟨_, _, _, _, heq⟩ := push_eq cfg s m
    rw [heq]
  have hlength : (Consumer.push cfg s m).promises.length = s.promises.length + 1 := by
    simp only [Consumer.push, enqueue, hmode]
    split
    · simp
    · simp
  refine ⟨?_, ?_, ?_⟩
  · rw [hqueue, hlength]
    intro element hmem
    rcases List.mem_append.mp hmem with hold | hnew
    · exact (h.queued element hold).mono (Nat.le_succ _)
    · rw [List.mem_singleton.mp hnew]
      exact ⟨_, rfl, Nat.lt_succ_self _⟩
  · rw [hprocessing, hlength]
    exact fun a ha => (h.awaited a ha).mono (Nat.le_succ _)
  · rw [hprocessing, hqueue]
    intro a ha hmem
    rcases List.mem_append.mp hmem with hold | hnew
    · rw [List.head?_append, h.front a ha hold]
      rfl
    · -- the new promise is none of those before
      obtain ⟨i, hi, hlt⟩ := h.awaited a ha
      rw [List.mem_singleton.mp hnew] at hi
      obtain rfl := Option.some.inj hi
      exact absurd hlt (Nat.lt_irrefl _)

/-- The loop of `processQueue` goes to the front. -/
theorem Frontal.runQueue (h : ∀ element ∈ s.queue, Numbered s.promises.length element)
    (errorCount : Nat) : Frontal (runQueue s errorCount) := by
  cases hq : s.queue with
  | nil =>
    rw [runQueue_nil hq]
    exact ⟨h, nofun, nofun⟩
  | cons element rest =>
    rw [runQueue_cons hq]
    refine ⟨h, ?_, ?_⟩
    · rintro _ ⟨⟩
      exact h element (hq ▸ List.mem_cons_self)
    · rintro _ ⟨⟩ _
      change s.queue.head? = _
      rw [hq]
      rfl

/-- The loop that goes on reads the front. -/
theorem Frontal.caught (h : ∀ element ∈ s.queue, Numbered s.promises.length element)
    (a : Activation γ) (error : Thrown) : Frontal (caught cfg s a error) := by
  unfold Consumer.caught
  split
  · have hidle : Frontal { s with processing := none } := ⟨h, nofun, nofun⟩
    exact hidle.quiet { onError_quiet s (KafkaError.createUnknown error false) with
      processing := rfl }
  · exact Frontal.runQueue h _

/-- What is left after a commit was in the queue before. -/
theorem Frontal.succeed (h : Frontal s) {a : Activation γ} {commits : List (Option Thrown)}
    (hu : Throttled (succeed cfg s a commits) u) :
    ∀ element ∈ u.queue, Numbered u.promises.length element := by
  have hpromises : u.promises = s.promises :=
    hu.quiet.promises.trans (succeed_promises cfg s a commits)
  have hqueue : u.queue ⊆ s.queue := by
    obtain ⟨_, _, rfl⟩ := hu
    obtain ⟨_, _, hcommit⟩ :=
      safeCommitMessage_quiet cfg (resolve s a) a.element.position commits 0
    refine List.Subset.trans (fun _ => List.mem_of_mem_tail) ?_
    obtain ⟨hsame, _⟩ | ⟨hempty, _⟩ := hcommit.queue
    · exact fun element hmem => hsame ▸ hmem
    · rw [hempty]
      exact List.nil_subset _
  intro element hmem
  rw [hpromises]
  exact h.queued element (hqueue hmem)

/-- Every event keeps this. -/
theorem step_frontal {e : Event β γ} (hmode : cfg.mode = .asynchronous) (h : Frontal s)
    (hs : step cfg s e = some t) : Frontal t := by
  cases step_effect hs with
  | quiet _ hq => exact h.quiet hq
  | arrive => exact ⟨h.queued, h.awaited, h.front⟩
  | retry | resolve =>
    refine ⟨?_, ?_, h.front⟩
    · simpa using h.queued
    · simpa using h.awaited
  | @reject i m _ _ _ _ hq =>
    have hdecoded : Frontal { decoded s i with dropped := s.dropped ++ [m.position] } :=
      ⟨h.queued, h.awaited, h.front⟩
    exact hdecoded.quiet hq
  | @enter i m value u _ hu =>
    have hdecoded : Frontal (decoded s i) := ⟨h.queued, h.awaited, h.front⟩
    have hpushed := (hdecoded.push hmode ⟨m.position, value⟩).quiet hu.quiet
    unfold processQueue
    split
    · exact Frontal.runQueue (s := { u with queueIsProcessing := true }) hpushed.queued 0
    · exact hpushed
  | @overflow i m value _ _ _ hq =>
    have hdecoded : Frontal (decoded s i) := ⟨h.queued, h.awaited, h.front⟩
    exact (hdecoded.push hmode ⟨m.position, value⟩).quiet hq
  | fail _ => exact Frontal.caught h.queued _ _
  | succeed _ _ hu => exact Frontal.runQueue (h.succeed hu) 0
  | underflow _ _ hu => exact Frontal.caught (h.succeed hu) _ _

/-- What fails in turn is awaited. -/
theorem FailsInTurn.heeds {e : Event β γ} (hs : Frontal s) (h : FailsInTurn cfg s e) :
    Heeds cfg s e := by
  cases e with
  | retried i failure =>
    intro hfails
    obtain ⟨hfront, a, ha, hmem⟩ := h hfails
    rw [hs.front a ha hmem] at hfront
    exact Option.bind_eq_some_iff.mpr ⟨a, ha, hfront⟩
  | settled failure commits flow =>
    cases failure with
    | none => trivial
    | some error =>
      intro a ha i hi hgives
      rw [hs.front a ha (h a ha hgives)]
      exact hi
  | start | connected | data | seeked | deserialized | clientError | disconnected | stop
  | disconnectCallback => trivial

/-- As long as messages of an asynchronous consumer fail in turn, every rejection is awaited when it
happens, and told to the observer after at most one iteration more than there are retries. -/
theorem rejections_heard (hmode : cfg.mode = .asynchronous)
    (h : (watched cfg).Run (fun p e => FailsInTurn cfg p.1 e) (State.init, {}) es p) :
    (∀ fs q, fs <+: es → (watched cfg).Run Machine.Free (State.init, {}) fs q → Heard q) ∧
      ∀ fs gs q u i, fs ++ gs <+: es → (watched cfg).Run Machine.Free (State.init, {}) fs q →
        (watched cfg).Run Machine.Free q gs u → (rejection q.1 i).isSome = true →
        cfg.maxRetries < gs.countP Event.iterates → i ∈ u.2.delivered := by
  have hheeds := h.strengthen (H := fun p e => Heeds cfg p.1 e) (I := fun p => Frontal p.1)
    (fun _ _ _ hs _ hstep => step_frontal hmode hs (Machine.observe_step.mp hstep).1)
    (fun _ _ _ hs hg _ => hg.heeds hs) Frontal.init
  exact (rejections_heard_iff (h.mono fun _ _ _ => trivial)).mpr hheeds

/-- A concurrent consumer that retries once. -/
def concurrentOnce : Config where
  mode := .asynchronous
  maxBufferLength := 10
  maxRetries := 1
  startOffset _ := 0

/-- Two messages are queued, and the second fails for good while the first is still processed. -/
def secondFails : List (Event Unit Unit) :=
  [.start, .connected true, .data (tombstone 0), .deserialized 0 (.ok none) none,
    .data (tombstone 1), .deserialized 0 (.ok none) none,
    .retried 1 (some (.unknown "boom")), .retried 1 (some (.unknown "boom"))]

/-- The second promise rejects while the first is awaited, and the observer is told nothing. -/
theorem secondFails_unhandled : ∃ p,
    (watched concurrentOnce).Run Machine.Free (State.init, {}) secondFails p ∧
      p.2.unhandled = [1] ∧ awaiting p.1 = some 0 ∧ p.1.errors = [] ∧ ¬ Heard p := by
  obtain ⟨p, hr, hunhandled, hrest⟩ : ∃ p,
      (watched concurrentOnce).Run Machine.Free (State.init, {}) secondFails p ∧
        p.2.unhandled = [1] ∧ awaiting p.1 = some 0 ∧ p.1.errors = [] :=
    Machine.exists_run_of_exec (by decide)
  refine ⟨p, hr, hunhandled, hrest.1, hrest.2, fun hheard => ?_⟩
  cases hunhandled.symm.trans hheard.unhandled

/-- The first of two messages rejects with an error that is not fatal. -/
def firstFails : List (Event Unit Unit) :=
  [.start, .connected true, .data (tombstone 0), .deserialized 0 (.ok none) none,
    .data (tombstone 1), .deserialized 0 (.ok none) none, .retried 1 none,
    .retried 0 (some (.base (CoderError.verificationFailed "boom"))),
    .retried 0 (some (.base (CoderError.verificationFailed "boom")))]

/-- The awaits of the rejected promise that follow. -/
def secondAwait : List (Event Unit Unit) :=
  [.settled (some (.base (CoderError.verificationFailed "boom"))) [] none,
    .settled (some (.base (CoderError.verificationFailed "boom"))) [] none]

/-- A first message that fails for good is heard, and its rejection is delivered. -/
theorem firstFails_heard : ∃ p q,
    (watched concurrentOnce).Run Machine.Free (State.init, {}) firstFails p ∧
      (watched concurrentOnce).Run Machine.Free p secondAwait q ∧
      (rejection p.1 0).isSome = true ∧ Heard p ∧ 0 ∈ q.2.delivered := by
  obtain ⟨p, hp, hrejected⟩ : ∃ p, (watched concurrentOnce).Run Machine.Free (State.init, {})
      firstFails p ∧ (rejection p.1 0).isSome = true := Machine.exists_run_of_exec (by decide)
  obtain ⟨q, hq, _⟩ : ∃ q, (watched concurrentOnce).Run
      (fun p e => FailsInTurn concurrentOnce p.1 e) (State.init, {}) (firstFails ++ secondAwait) q ∧
        q.2.unhandled = [] := Machine.exists_run_of_exec (by decide)
  have hfree := hq.mono (H := Machine.Free) fun _ _ _ => trivial
  obtain ⟨v, hv, hrest⟩ := hfree.append_inv
  obtain rfl := hv.deterministic hp
  obtain ⟨hheard, hdelivered⟩ := rejections_heard rfl hq
  exact ⟨v, q, hp, hrest, hrejected, hheard _ _ (List.prefix_append _ _) hp,
    hdelivered _ _ _ _ 0 (List.prefix_refl _) hp hrest hrejected (by decide)⟩

end ChainIndexer.Consumer
