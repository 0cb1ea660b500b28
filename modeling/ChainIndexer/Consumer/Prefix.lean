import ChainIndexer.Consumer.Flag
import ChainIndexer.Consumer.Session

/-!
# The committed prefix

Every step of a session keeps the books about the calls of `observer.next` and the
stage of the loop. So what has been committed is always a prefix of what has
entered, and once nothing is awaited it is the longest one whose messages succeed.
-/

namespace ChainIndexer.Consumer

open Retry

variable {β γ : Type} {cfg : Config} {s t u : State β γ} {script : Script} {calls : List Nat}
  {a : Activation γ} {error : Thrown}

/-- A step of a session keeps the books and the stage. -/
def Keeps (cfg : Config) (script : Script) (s : State β γ) (calls : List Nat) (e : Event β γ)
    (t : State β γ) : Prop :=
  Booked cfg script t (calls ++ called cfg s e t) ∧
    Stage cfg script t (calls ++ called cfg s e t)

/-- A step that calls nothing and changes nothing of them. -/
theorem Untouched.keeps (hu : Untouched s t) (hb : Booked cfg script s calls)
    (hs : Stage cfg script s calls) (e : Event β γ) : Keeps cfg script s calls e t := by
  rw [Keeps, called_nil hu.nextCalls, List.append_nil]
  exact ⟨hb.untouched hu, hs.untouched hu⟩

/-- The call for a message that enters, and then those of the loop. -/
theorem called_deserialized {i : Nat} (value : Option γ) {m : Message γ}
    (hobserver : s.observer = true)
    (hnextCalls : u.nextCalls = (push cfg (decoded s i) m).nextCalls)
    (hasync : cfg.mode = .asynchronous → (processQueue u).nextCalls = u.nextCalls) :
    called cfg s (.deserialized i (.ok value) none) (processQueue u) =
      pushed cfg s ++ reads u (processQueue u) := by
  cases hm : cfg.mode with
  | synchronous =>
    simp [called, pushed, reads, hm, hnextCalls, push, enqueue, decoded]
  | asynchronous =>
    simp [called, pushed, reads, hm, hasync hm, hnextCalls, push, enqueue, decoded, hobserver]

/-- A loop that has ended begins again with the message that enters. -/
theorem idle_keeps {i : Nat} {value : Option γ} {m : Message γ} (hb : Booked cfg script s calls)
    (hserving : Serving cfg script s) (hflag : s.queueIsProcessing = false) (hqueue : s.queue = [])
    (hu : Throttled (push cfg (decoded s i) m) u) :
    Keeps cfg script s calls (.deserialized i (.ok value) none) (processQueue u) := by
  have hdecoded : Untouched s (decoded s i) := {}
  have hbooked : Booked cfg script u (calls ++ pushed cfg s) :=
    (push_booked (hb.untouched hdecoded) m).untouched hu.untouched
  obtain ⟨element, nextCalls, promises, _, hp⟩ := push_eq cfg (decoded s i) m
  have hfields := hu.untouched
  rw [hp] at hfields
  have hrun : processQueue u = runQueue { u with queueIsProcessing := true } 0 := by
    have hobserver : u.observer = true := hbooked.observer
    have hidle : u.queueIsProcessing = false := hfields.queueIsProcessing.trans hflag
    simp [processQueue, hobserver, hidle]
  have hserving' : Serving cfg script { u with queueIsProcessing := true } :=
    ((push_serving (hserving.untouched hdecoded) (hb.untouched hdecoded) m).untouched
      hu.untouched).congr rfl rfl rfl rfl
  have hcommitted : u.committed = s.committed := hfields.committed
  obtain ⟨hkept, hstage⟩ := runQueue_kept 0 hserving'
    (hbooked.congr rfl rfl rfl rfl rfl) rfl fun hsync => by
      refine ⟨Nat.zero_le _, Failed.zero, ?_⟩
      have hlength := congrArg List.length hserving.split
      rw [hqueue, List.map_nil, List.append_nil] at hlength
      simp only [pushed, hsync, List.append_nil]
      rw [hcommitted, hlength]
      exact List.count_eq_zero.mpr fun hk => Nat.lt_irrefl _ (hb.lt hk)
  have hreads : reads { u with queueIsProcessing := true } (processQueue u) =
      reads u (processQueue u) := rfl
  have hloop := called_deserialized value hb.observer hu.untouched.nextCalls
    fun hasync => by
      rw [hrun]
      exact hserving'.runQueue_nextCalls hasync 0
  rw [← hrun, hreads, List.append_assoc, ← hloop] at hkept hstage
  exact ⟨hkept, hstage⟩

/-- A loop that is at work is left to it. -/
theorem busy_keeps {i : Nat} {value : Option γ} {m : Message γ} (hb : Booked cfg script s calls)
    (hu : Throttled (push cfg (decoded s i) m) u) (hflag : u.queueIsProcessing = true)
    (hstage : Stage cfg script u (calls ++ pushed cfg s)) :
    Keeps cfg script s calls (.deserialized i (.ok value) none) (processQueue u) := by
  have hdecoded : Untouched s (decoded s i) := {}
  have hsame : processQueue u = u := by simp [processQueue, hflag]
  have hnone : reads u u = [] := by simp [reads]
  have hcalled := called_deserialized value hb.observer hu.untouched.nextCalls
    fun _ => congrArg State.nextCalls hsame
  rw [hsame, hnone, List.append_nil] at hcalled
  rw [Keeps, hsame, hcalled]
  exact ⟨(push_booked (hb.untouched hdecoded) m).untouched hu.untouched, hstage⟩

/-- A message enters the queue; a loop that has ended begins again. -/
theorem deserialized_keeps {i : Nat} {value : Option γ} (hb : Booked cfg script s calls)
    (hs : Stage cfg script s calls) (h : deserialized cfg s i (.ok value) none = some t) :
    Keeps cfg script s calls (.deserialized i (.ok value) none) t := by
  obtain ⟨m, u, hu, rfl⟩ : ∃ m u, Throttled (push cfg (decoded s i) m) u ∧ t = processQueue u := by
    cases deserialized_effect h with
    | quiet he _ => exact he.elim
    | enter _ hu => exact ⟨_, _, hu, rfl⟩
  have hdecoded : Untouched s (decoded s i) := {}
  obtain ⟨element, nextCalls, promises, _, hp⟩ := push_eq cfg (decoded s i) m
  have hfields := hu.untouched
  rw [hp] at hfields
  cases hs with
  | idle hserving hprocessing hflag hqueue => exact idle_keeps hb hserving hflag hqueue hu
  | @awaiting a rest hserving hprocessing hqueue hflag hcount =>
    have hqueue' : u.queue = a.element :: (rest ++ [element]) := by
      rw [hfields.queue]
      exact congrArg (· ++ [element]) hqueue
    have hflag' : u.queueIsProcessing = true := hfields.queueIsProcessing.trans hflag
    have hserving' := (push_serving (hserving.untouched hdecoded) (hb.untouched hdecoded)
      m).untouched hu.untouched
    refine busy_keeps hb hu hflag' ?_
    refine .awaiting hserving' (hfields.processing.trans hprocessing) hqueue' hflag' fun hsync => ?_
    simp only [pushed, hsync, List.append_nil]
    rw [show u.committed = s.committed from hfields.committed]
    exact hcount hsync
  | stopped hstopped =>
    have hentered : s.entered <+: u.entered := by
      rw [hfields.entered]
      exact List.prefix_append _ _
    have hstopped' := hstopped.congr hfields.errors hfields.committed hentered
      hfields.processing hfields.queueIsProcessing
    exact busy_keeps hb hu hstopped'.queueIsProcessing (.stopped hstopped')

/-- Only the calls of the synchronous consumer matter to the stage. -/
theorem Stage.retried (h : Stage cfg script s calls) (hm : cfg.mode = .asynchronous)
    (promises : List (RetryPromise γ)) (nextCalls resolved : List Position) (calls' : List Nat) :
    Stage cfg script { s with promises := promises, nextCalls := nextCalls, resolved := resolved }
      calls' := by
  cases h with
  | idle hserving hprocessing hflag hqueue =>
    exact .idle (hserving.congr rfl rfl rfl rfl) hprocessing hflag hqueue
  | awaiting hserving hprocessing hqueue hflag _ =>
    refine .awaiting (hserving.congr rfl rfl rfl rfl) hprocessing hqueue hflag fun hsync => ?_
    simp [hm] at hsync
  | stopped hstopped => exact .stopped (hstopped.congr rfl rfl List.prefix_rfl rfl rfl)

/-- A promise that has been retried once more, or not again. -/
theorem Booked.setPromise {k errorCount : Nat} {m : Message γ} {p : RetryPromise γ}
    (h : Booked cfg script s calls) (hm : cfg.mode = .asynchronous)
    (hk : s.promises[k]? = some ⟨m, errorCount, .pending⟩) (hmessage : p.message = m)
    (again : Bool) (hpledge : Pledge cfg (script k) p (errorCount + 1 + if again then 1 else 0))
    (resolved : List Position) :
    Booked cfg script { s with
      promises := s.promises.set k p
      nextCalls := s.nextCalls ++ if again then [m.position] else []
      resolved := resolved } (calls ++ if again then [k] else []) := by
  have hno : cfg.mode ≠ .synchronous := by simp [hm]
  obtain ⟨hlength, hpledged⟩ := h.pledged hm
  obtain ⟨hposition, hold⟩ := hpledged k _ hk
  have hcount : ∀ j, (calls ++ if again then [k] else []).count j =
      calls.count j + if again ∧ k = j then 1 else 0 := by
    intro j
    cases again <;> simp [List.count_append, List.count_singleton]
  have hthis : calls.count k = errorCount + 1 := hold.counted
  have hnew : Pledge cfg (script k) p ((calls ++ if again then [k] else []).count k) := by
    rw [hcount, hthis]
    simpa using hpledge
  refine ⟨h.observer, ?_, fun j => ?_, fun hsync => absurd hsync hno, fun hsync => absurd hsync hno,
    fun _ => ⟨?_, fun j q hq => ?_⟩⟩
  · cases again with
    | false => simpa using h.attributed
    | true => simp [h.attributed, hposition]
  · by_cases hj : k = j
    · subst hj
      rw [hnew.counted]
      exact hnew.repeated.tried hnew.bounded
    · rw [hcount, if_neg (by simp [hj])]
      exact h.tried j
  · simpa using hlength
  · by_cases hj : k = j
    · subst hj
      obtain rfl : p = q := by
        obtain ⟨hlt, _⟩ := List.getElem?_eq_some_iff.mp hk
        simpa [hlt] using hq
      exact ⟨by rw [hmessage]; exact hposition, hnew⟩
    · have hsame : (calls ++ if again then [k] else []).count j = calls.count j := by
        rw [hcount]
        simp [hj]
      rw [hsame]
      rw [List.getElem?_set_ne hj] at hq
      exact hpledged j q hq

/-- An attempt of `retryPromise` ends as the script says. -/
theorem retried_keeps {i : Nat} {failure : Option Thrown} (hb : Booked cfg script s calls)
    (hs : Stage cfg script s calls) (hg : Session script s (.retried i failure))
    (h : retried cfg s i failure = some t) :
    Keeps cfg script s calls (.retried i failure) t := by
  unfold retried at h
  split at h
  · rename_i m errorCount hi
    have hm : cfg.mode = .asynchronous := by
      cases hmode : cfg.mode with
      | asynchronous => rfl
      | synchronous =>
        rw [hb.unpledged hmode] at hi
        cases hi
    have hscript : failure = script i errorCount := hg _ hi
    obtain ⟨hposition, hpledge⟩ := (hb.pledged hm).2 i _ hi
    have hlast : ∀ p : RetryPromise γ, p.message = m → Pledge cfg (script i) p (errorCount + 1) →
        ∀ resolved, Keeps cfg script s calls (.retried i failure)
          { s with promises := s.promises.set i p, resolved := resolved } := by
      intro p hmessage hp resolved
      have hkept := hb.setPromise hm hi hmessage false hp resolved
      simp only [Bool.false_eq_true, if_false, List.append_nil] at hkept
      rw [Keeps, called_nil (by rfl), List.append_nil]
      exact ⟨hkept, hs.retried hm _ s.nextCalls resolved _⟩
    obtain rfl := Option.some.inj h
    cases failure with
    | none =>
      exact hlast ⟨m, errorCount, .fulfilled⟩ rfl
        ⟨rfl, hpledge.bounded, hpledge.repeated, fun _ => hscript.symm, by simp⟩ _
    | some error =>
      dsimp only
      split
      · rename_i hgives
        refine hlast ⟨m, errorCount, .rejected (KafkaError.createUnknown error false)⟩ rfl ?_
          s.resolved
        refine ⟨rfl, hpledge.bounded, hpledge.repeated, by simp, fun raised hraised => ?_⟩
        exact ⟨error, hscript.symm, hgives, (Settlement.rejected.inj hraised).symm⟩
      · rename_i hgives
        rw [not_or, Nat.not_le, Bool.not_eq_true] at hgives
        have hcalled : ∀ u : State β γ, u.nextCalls = s.nextCalls ++ [m.position] →
            called cfg s (.retried i (some error)) u = [i] := by
          intro u hu
          simp [called, hu]
        have hkept := hb.setPromise (p := ⟨m, errorCount + 1, .pending⟩) hm hi rfl true
          ⟨rfl, hgives.1, hpledge.repeated.succ hscript.symm hgives.2, by simp, by simp⟩ s.resolved
        rw [Keeps, hcalled _ rfl]
        exact ⟨hkept, hs.retried hm _ _ s.resolved _⟩
  · cases h

theorem safeCommitMessage_ok (cfg : Config) (s : State β γ) (p : Position)
    {commits : List (Option Thrown)} (h : ∀ thrown ∈ commits.head?, thrown = none) :
    safeCommitMessage cfg s p commits 0 = { s with committed := s.committed ++ [p] } := by
  cases commits with
  | nil => rfl
  | cons thrown rest =>
    obtain rfl := h thrown rfl
    rfl

/-- The loop awaits the message after those committed. -/
theorem Serving.awaits {rest : List (QueueObject γ)} (h : Serving cfg script s)
    (hqueue : s.queue = a.element :: rest) :
    a.element.promise = cfg.promise s.committed.length ∧
      s.entered[s.committed.length]? = some a.element.position := by
  refine ⟨h.numbered 0 a.element (by rw [hqueue]; rfl), ?_⟩
  rw [← h.split, hqueue]
  simp

/-- A promise that the loop awaits. -/
theorem Booked.awaits {rest : List (QueueObject γ)} (h : Booked cfg script s calls)
    (hserving : Serving cfg script s) (hqueue : s.queue = a.element :: rest)
    (hm : cfg.mode = .asynchronous) :
    ∃ p, s.promises[s.committed.length]? = some p ∧
      Pledge cfg (script s.committed.length) p (calls.count s.committed.length) := by
  obtain ⟨hlength, hpledged⟩ := h.pledged hm
  have hlt := (List.getElem?_eq_some_iff.mp (hserving.awaits hqueue).2).1
  have hp : s.promises[s.committed.length]? = some s.promises[s.committed.length] :=
    List.getElem?_eq_getElem (by omega)
  exact ⟨_, hp, (hpledged _ _ hp).2⟩

/-- What the await of the loop settles with is what comes of the attempts; the synchronous
consumer has still to count a failure. -/
theorem settled_verdict {failure : Option Thrown} {rest : List (QueueObject γ)}
    (hb : Booked cfg script s calls) (hserving : Serving cfg script s)
    (hqueue : s.queue = a.element :: rest)
    (hcount : cfg.mode = .synchronous → a.errorCount ≤ cfg.maxRetries ∧
      Repeated (script s.committed.length) a.errorCount ∧
      calls.count s.committed.length = a.errorCount + 1)
    (hscript : a.element.promise = none → failure = script (front s) a.errorCount)
    (hout : outcomeOf s a.element failure = true) :
    (failure = none → cfg.verdict (script s.committed.length) = .ok ()) ∧
      ∀ error, failure = some error → givesUp cfg a error = true →
        ∃ thrown, cfg.verdict (script s.committed.length) = .error thrown ∧
          KafkaError.createUnknown error false = KafkaError.createUnknown thrown false := by
  have hpromise := (hserving.awaits hqueue).1
  cases hm : cfg.mode with
  | synchronous =>
    obtain ⟨hle, hrepeated, _⟩ := hcount hm
    simp only [Config.promise, hm] at hpromise
    have hfailure := hscript hpromise
    rw [hserving.front] at hfailure
    refine ⟨fun hnone => hrepeated.verdict_ok hle (hfailure ▸ hnone), ?_⟩
    intro error herror hgives
    rw [givesUp, Bool.or_eq_true, decide_eq_true_eq, Nat.lt_succ_iff] at hgives
    exact ⟨error, hrepeated.verdict_error hle (hfailure ▸ herror) hgives, rfl⟩
  | asynchronous =>
    simp only [Config.promise, hm] at hpromise
    obtain ⟨⟨m, errorCount, settlement⟩, hp, hpledge⟩ := hb.awaits hserving hqueue hm
    simp only [outcomeOf, hpromise, hp] at hout
    cases settlement with
    | pending => simp at hout
    | fulfilled =>
      have hscript := hpledge.fulfilled rfl
      refine ⟨fun _ => hpledge.repeated.verdict_ok hpledge.bounded hscript, ?_⟩
      intro error herror
      simp [herror] at hout
    | rejected raised =>
      obtain ⟨thrown, hthrown, hlast, rfl⟩ := hpledge.rejected raised rfl
      have hverdict := hpledge.repeated.verdict_error hpledge.bounded hthrown hlast
      rw [decide_eq_true_eq] at hout
      refine ⟨fun hnone => ?_, fun error herror _ => ⟨thrown, hverdict, ?_⟩⟩
      · simp [hnone] at hout
      · rw [hout] at herror
        rw [← Option.some.inj herror]
        rfl

/-- A message that succeeds is committed and leaves the queue. -/
theorem succeed_kept {commits : List (Option Thrown)} {rest : List (QueueObject γ)}
    (hb : Booked cfg script s calls) (hserving : Serving cfg script s)
    (hqueue : s.queue = a.element :: rest)
    (hcommits : ∀ thrown ∈ commits.head?, thrown = none)
    (hok : cfg.verdict (script s.committed.length) = .ok ()) :
    Booked cfg script (succeed cfg s a commits) calls ∧
      Serving cfg script (succeed cfg s a commits) ∧
      (succeed cfg s a commits).committed.length = s.committed.length + 1 := by
  have hlength : (s.committed ++ [a.element.position]).length = s.committed.length + 1 := by simp
  rw [succeed, safeCommitMessage_ok cfg _ _ hcommits]
  refine ⟨⟨hb.observer, hb.attributed, hb.tried, fun hsync k hk => ?_, hb.unpledged, hb.pledged⟩,
    ⟨hserving.errors, ?_, fun k hk => ?_, fun j element hj => ?_⟩, hlength⟩
  · exact Nat.le_trans (hb.prompt hsync k hk) (by simp [resolve])
  · simp [resolve, ← hserving.split, hqueue]
  · simp only [resolve, hlength] at hk
    rcases Nat.lt_succ_iff_lt_or_eq.mp hk with hlt | rfl
    · exact hserving.succeeded k hlt
    · exact hok
  · simp only [resolve, hqueue, List.tail_cons] at hj
    simp only [resolve, hlength]
    rw [Nat.add_assoc, Nat.add_comm 1 j]
    exact hserving.numbered (j + 1) element (by rw [hqueue]; exact hj)

/-- A message that fails for good stops the session. -/
theorem onError_stopped {rest : List (QueueObject γ)} {thrown : Thrown}
    (hserving : Serving cfg script s) (hobserver : s.observer = true)
    (hqueue : s.queue = a.element :: rest) (hflag : s.queueIsProcessing = true)
    (hverdict : cfg.verdict (script s.committed.length) = .error thrown)
    (hraised : KafkaError.createUnknown error false = KafkaError.createUnknown thrown false) :
    Stopped cfg script thrown
      { onError s (KafkaError.createUnknown error false) with processing := none } := by
  have hquiet := onError_quiet s (KafkaError.createUnknown error false)
  have hwaiting := (List.getElem?_eq_some_iff.mp (hserving.awaits hqueue).2).1
  refine ⟨?_, ?_, ?_, ?_, ?_, rfl, hquiet.queueIsProcessing.trans hflag⟩
  · rw [hraised]
    unfold onError
    cases (KafkaError.createUnknown thrown false).isFatal <;>
      simp [hobserver, stop, clear, hserving.errors]
  · change (onError _ _).committed <+: (onError _ _).entered
    rw [hquiet.committed, hquiet.entered, ← hserving.split]
    exact List.prefix_append _ _
  · change (onError _ _).committed.length < (onError _ _).entered.length
    rw [hquiet.committed, hquiet.entered]
    exact hwaiting
  · change ∀ k < (onError _ _).committed.length, _
    rw [hquiet.committed]
    exact hserving.succeeded
  · change cfg.verdict (script (onError _ _).committed.length) = _
    rw [hquiet.committed]
    exact hverdict

theorem called_settled {failure : Option Thrown} {commits : List (Option Thrown)}
    {flow : Option Thrown} (hu : u.nextCalls = s.nextCalls)
    (hasync : cfg.mode = .asynchronous → t.nextCalls = u.nextCalls) :
    called cfg s (.settled failure commits flow) t = reads u t := by
  cases hm : cfg.mode with
  | synchronous => simp [called, reads, hm, hu]
  | asynchronous => simp [called, reads, hm, hasync hm, hu]

/-- A message that succeeds is followed by the next one. -/
theorem succeed_keeps {commits : List (Option Thrown)} {rest : List (QueueObject γ)}
    (hb : Booked cfg script s calls) (hserving : Serving cfg script s)
    (hqueue : s.queue = a.element :: rest) (hflag : s.queueIsProcessing = true)
    (hcommits : ∀ thrown ∈ commits.head?, thrown = none)
    (hok : cfg.verdict (script s.committed.length) = .ok ())
    (hu : Throttled (succeed cfg s a commits) u) :
    Keeps cfg script s calls (.settled none commits none) (runQueue u 0) := by
  obtain ⟨hbooked, hserving', hlength⟩ := succeed_kept hb hserving hqueue hcommits hok
  have hfields := hu.untouched
  have hserving'' := hserving'.untouched hfields
  have hnextCalls : u.nextCalls = s.nextCalls := by
    rw [hfields.nextCalls, succeed, safeCommitMessage_ok cfg _ _ hcommits]
    rfl
  have hflag' : u.queueIsProcessing = true := by
    rw [hfields.queueIsProcessing, succeed, safeCommitMessage_ok cfg _ _ hcommits]
    exact hflag
  rw [Keeps, called_settled hnextCalls fun hm => hserving''.runQueue_nextCalls hm 0]
  refine runQueue_kept 0 hserving'' (hbooked.untouched hfields) hflag' fun hsync => ?_
  refine ⟨Nat.zero_le _, Failed.zero, List.count_eq_zero.mpr fun hk => ?_⟩
  have hle := hb.prompt hsync _ hk
  rw [hfields.committed, hlength] at hle
  omega

/-- A message that fails is attempted again, or stops the session. -/
theorem caught_keeps {commits : List (Option Thrown)} {rest : List (QueueObject γ)}
    (hb : Booked cfg script s calls) (hserving : Serving cfg script s)
    (hqueue : s.queue = a.element :: rest) (hflag : s.queueIsProcessing = true)
    (hcount : cfg.mode = .synchronous → a.errorCount ≤ cfg.maxRetries ∧
      Repeated (script s.committed.length) a.errorCount ∧
      calls.count s.committed.length = a.errorCount + 1)
    (hscript : a.element.promise = none → some error = script (front s) a.errorCount)
    (hverdict : givesUp cfg a error = true →
      ∃ thrown, cfg.verdict (script s.committed.length) = .error thrown ∧
        KafkaError.createUnknown error false = KafkaError.createUnknown thrown false) :
    Keeps cfg script s calls (.settled (some error) commits none) (caught cfg s a error) := by
  unfold caught
  split
  · rename_i hgives
    obtain ⟨thrown, hthrown, hraised⟩ := hverdict hgives
    have hquiet := onError_quiet s (KafkaError.createUnknown error false)
    have hcalled : called cfg s (.settled (some error) commits none)
        { onError s (KafkaError.createUnknown error false) with processing := none } = [] :=
      called_nil hquiet.nextCalls
    rw [Keeps, hcalled, List.append_nil]
    refine ⟨?_, .stopped (onError_stopped hserving hb.observer hqueue hflag hthrown hraised)⟩
    exact hb.congr ((hquiet.observer hb.observer).trans hb.observer.symm) hquiet.promises
      hquiet.entered hquiet.nextCalls hquiet.committed
  · rename_i hgives
    rw [Bool.not_eq_true, givesUp, Bool.or_eq_false_iff, decide_eq_false_iff_not,
      Nat.not_lt] at hgives
    rw [Keeps, called_settled rfl fun hm => hserving.runQueue_nextCalls hm _]
    refine runQueue_kept _ hserving hb hflag fun hsync => ?_
    obtain ⟨hle, hrepeated, hcalls⟩ := hcount hsync
    refine ⟨hgives.1, ?_, hcalls⟩
    have hpromise := (hserving.awaits hqueue).1
    simp only [Config.promise, hsync] at hpromise
    have hfailure := hscript hpromise
    rw [hserving.front] at hfailure
    exact hrepeated.succ hfailure.symm hgives.2

/-- The await of the loop settles: the message is committed, attempted again or given up. -/
theorem settled_keeps {failure : Option Thrown} {commits : List (Option Thrown)}
    {flow : Option Thrown} (hb : Booked cfg script s calls) (hs : Stage cfg script s calls)
    (hg : Session script s (.settled failure commits flow))
    (h : settled cfg s failure commits flow = some t) :
    Keeps cfg script s calls (.settled failure commits flow) t := by
  obtain ⟨rfl, hcommits, hscript⟩ := hg
  obtain ⟨a, ha, hout⟩ : ∃ a, s.processing = some a ∧ outcomeOf s a.element failure = true := by
    unfold settled at h
    split at h
    · cases h
    · rename_i a ha
      split at h
      · rename_i hout
        exact ⟨a, ha, hout⟩
      · cases h
  cases hs with
  | idle _ hprocessing _ _ =>
    rw [hprocessing] at ha
    cases ha
  | stopped hstopped =>
    rw [hstopped.processing] at ha
    cases ha
  | @awaiting b rest hserving hprocessing hqueue hflag hcount =>
    obtain rfl : b = a := Option.some.inj (hprocessing.symm.trans ha)
    obtain ⟨hnone, hsome⟩ := settled_verdict hb hserving hqueue hcount (hscript b ha) hout
    cases settled_effect h with
    | quiet he _ => exact he.elim
    | @succeed c _ u hc _ hu =>
      obtain rfl : b = c := Option.some.inj (hprocessing.symm.trans hc)
      exact succeed_keeps hb hserving hqueue hflag hcommits (hnone rfl) hu
    | @fail c error _ _ hc =>
      obtain rfl : b = c := Option.some.inj (hprocessing.symm.trans hc)
      exact caught_keeps hb hserving hqueue hflag hcount (hscript b ha) (hsome error rfl)

/-- After a message has failed for good, a disconnect only clears the queue. -/
theorem onDisconnect_keeps {e : Event β γ} (hb : Booked cfg script s calls)
    (hs : Stage cfg script s calls) (hfatal : ∃ error ∈ s.errors, error.isFatal = true)
    (hquiet : Quiet s t) (herrors : t.errors = s.errors) : Keeps cfg script s calls e t := by
  rw [Keeps, called_nil hquiet.nextCalls, List.append_nil]
  refine ⟨hb.congr ((hquiet.observer hb.observer).trans hb.observer.symm) hquiet.promises
    hquiet.entered hquiet.nextCalls hquiet.committed, ?_⟩
  have hnone : s.errors ≠ [] := by
    obtain ⟨error, hmem, _⟩ := hfatal
    exact List.ne_nil_of_mem hmem
  cases hs with
  | idle hserving _ _ _ => exact absurd hserving.errors hnone
  | awaiting hserving _ _ _ _ => exact absurd hserving.errors hnone
  | stopped hstopped =>
    exact .stopped (hstopped.congr herrors hquiet.committed (hquiet.entered ▸ List.prefix_rfl)
      hquiet.processing hquiet.queueIsProcessing)

/-- Every step of a session keeps the books and the stage. -/
theorem step_keeps {e : Event β γ} (hb : Booked cfg script s calls)
    (hs : Stage cfg script s calls) (hg : Session script s e) (h : step cfg s e = some t) :
    Keeps cfg script s calls e t := by
  cases e with
  | start | stop | clientError error => exact hg.elim
  | deserialized i result flow =>
    cases result with
    | error error => exact hg.elim
    | ok value =>
      cases flow with
      | some error => exact hg.elim
      | none => exact deserialized_keeps hb hs h
  | retried i failure => exact retried_keeps hb hs hg h
  | settled failure commits flow => exact settled_keeps hb hs hg h
  | connected ok =>
    cases step_transition h with
    | connected | refused => exact Untouched.keeps {} hb hs _
  | data m =>
    cases step_transition h with
    | below | seek | arrive => exact Untouched.keeps {} hb hs _
  | seeked i failure =>
    cases step_transition h with
    | seeked => exact Untouched.keeps {} hb hs _
    | seekFailed => exact hg.elim
  | disconnected =>
    cases step_transition h with
    | disconnected =>
      exact onDisconnect_keeps hb hs hg (onDisconnect_quiet s) (onDisconnect_errors s)
  | disconnectCallback =>
    cases step_transition h with
    | disconnectCallback =>
      exact onDisconnect_keeps hb hs hg ((calledBack_quiet s).trans (onDisconnect_quiet _))
        (onDisconnect_errors _)

/-- Nothing has been called when a session is opened. -/
theorem Opened.booked (h : Opened s) : Booked cfg script s [] where
  observer := h.observer
  attributed := by simp [h.nextCalls]
  tried := fun _ => Retry.Tried.zero
  prompt := nofun
  unpledged := fun _ => h.promises
  pledged := fun _ => by simp [h.promises, h.entered]

/-- And its loop is idle. -/
theorem Opened.stage (h : Opened s) : Stage cfg script s [] :=
  .idle ⟨h.errors, by simp [h.committed, h.queue, h.entered], by simp [h.committed],
    by simp [h.queue]⟩ h.processing h.queueIsProcessing h.queue

/-- A call of `observer.next` or the await of the loop settles. -/
def Event.Completes : Event β γ → Prop
  | .retried .. | .settled .. => True
  | .start | .connected _ | .data _ | .seeked .. | .deserialized .. | .clientError _
  | .disconnected | .stop | .disconnectCallback => False

private theorem settled_isSome {failure : Option Thrown} (ha : s.processing = some a)
    (hout : outcomeOf s a.element failure = true) :
    ∃ t, settled cfg s failure [] none = some t := by
  unfold settled
  rw [ha]
  dsimp only
  rw [if_pos hout]
  cases failure with
  | some error => exact ⟨_, rfl⟩
  | none =>
    obtain ⟨u, hu⟩ := handleBackpressure_none cfg (succeed cfg s a []) a.element.position
    dsimp only
    rw [hu]
    exact ⟨_, rfl⟩

/-- While the loop awaits something, that goes on. -/
theorem completes (hb : Booked cfg script s calls) (hs : Stage cfg script s calls)
    (hsome : s.processing.isSome = true) :
    ∃ e t, e.Completes ∧ Session script s e ∧ step cfg s e = some t := by
  obtain ⟨a, ha⟩ := Option.isSome_iff_exists.mp hsome
  cases hs with
  | idle _ hprocessing _ _ => simp [hprocessing] at ha
  | stopped hstopped => simp [hstopped.processing] at ha
  | @awaiting b rest hserving hprocessing hqueue _ _ =>
    obtain rfl : b = a := Option.some.inj (hprocessing.symm.trans ha)
    have hpromise := (hserving.awaits hqueue).1
    have hsettled : ∀ failure, outcomeOf s b.element failure = true →
        (b.element.promise = none → failure = script (front s) b.errorCount) →
        ∃ e t, e.Completes ∧ Session script s e ∧ step cfg s e = some t := by
      intro failure hout hscript
      obtain ⟨t, ht⟩ := settled_isSome ha hout
      refine ⟨.settled failure [] none, t, trivial, ⟨rfl, nofun, fun c hc => ?_⟩, ht⟩
      obtain rfl : b = c := Option.some.inj (ha.symm.trans hc)
      exact hscript
    cases hm : cfg.mode with
    | synchronous =>
      simp only [Config.promise, hm] at hpromise
      exact hsettled (script (front s) b.errorCount) (by simp [outcomeOf, hpromise]) fun _ => rfl
    | asynchronous =>
      simp only [Config.promise, hm] at hpromise
      obtain ⟨⟨m, errorCount, settlement⟩, hp, _⟩ := hb.awaits hserving hqueue hm
      have hno : b.element.promise ≠ none := by simp [hpromise]
      cases settlement with
      | fulfilled =>
        exact hsettled none (by simp [outcomeOf, hpromise, hp]) fun hnone => absurd hnone hno
      | rejected error =>
        exact hsettled (some (.base error)) (by simp [outcomeOf, hpromise, hp])
          fun hnone => absurd hnone hno
      | pending =>
        obtain ⟨t, ht⟩ : ∃ t, retried cfg s s.committed.length
            (script s.committed.length errorCount) = some t := by
          unfold retried
          rw [hp]
          exact ⟨_, rfl⟩
        refine ⟨.retried s.committed.length _, t, trivial, fun promise hpromise => ?_, ht⟩
        obtain rfl := Option.some.inj (hp.symm.trans hpromise)
        rfl

/-- What a session has come to, given the messages for which `observer.next` was called. -/
structure Outcome (cfg : Config) (script : Script) (s : State β γ) (calls : List Nat) : Prop where
  /-- Messages are committed once each in the order of entry, and each of them succeeded. -/
  committed : s.committed <+: s.entered
  succeeded : ∀ k < s.committed.length, cfg.verdict (script k) = .ok ()
  /-- While the loop awaits something, that goes on. -/
  goesOn : s.processing.isSome = true →
    ∃ e t, e.Completes ∧ Session script s e ∧ step cfg s e = some t
  /-- At rest the message after those committed has failed for good, and that is reported. -/
  longest : s.processing = none → s.committed.length < s.entered.length →
    ∃ error, cfg.verdict (script s.committed.length) = .error error ∧
      s.errors = [KafkaError.createUnknown error false]
  /-- Nothing else is reported. -/
  errors : s.errors = [] ∨ s.processing = none ∧ s.committed.length < s.entered.length
  attributed : calls.map (s.entered[·]?) = s.nextCalls.map some
  tried : ∀ k, cfg.Tried (script k) (calls.count k)
  /-- The synchronous consumer calls `observer.next` only for the message after those
  committed. -/
  prompt : cfg.mode = .synchronous → ∀ k ∈ calls, k ≤ s.committed.length

/-- Each stage is one of the outcomes. -/
theorem Stage.outcome (hb : Booked cfg script s calls) (hs : Stage cfg script s calls) :
    Outcome cfg script s calls := by
  have hserving : ∀ _ : Serving cfg script s, (s.processing = none → s.queue = []) →
      Outcome cfg script s calls := by
    intro hserving hrest
    refine ⟨?_, hserving.succeeded, completes hb hs, fun hnone hlt => ?_, Or.inl hserving.errors,
      hb.attributed, hb.tried, hb.prompt⟩
    · rw [← hserving.split]
      exact List.prefix_append _ _
    · rw [← hserving.split, hrest hnone] at hlt
      simp at hlt
  cases hs with
  | idle h _ _ hqueue => exact hserving h fun _ => hqueue
  | awaiting h hprocessing _ _ _ =>
    refine hserving h fun hnone => ?_
    rw [hprocessing] at hnone
    cases hnone
  | stopped h =>
    exact ⟨h.committed, h.succeeded, completes hb (.stopped h), fun _ _ => ⟨_, h.failed, h.errors⟩,
      Or.inr ⟨h.processing, h.waiting⟩, hb.attributed, hb.tried, hb.prompt⟩

/-- In every session, with either consumer, what is committed is the longest prefix of messages
that succeed, and what is reported is why the next one failed. -/
theorem committed_prefix {s₀ : State β γ} {es : List (Event β γ)} (h₀ : Opened s₀)
    (h : (machine cfg).Run (Session script) s₀ es s) :
    ∃ calls, ((machine cfg).observe (attributeCalls cfg)).Run (fun p e => Session script p.1 e)
      (s₀, []) es (s, calls) ∧ Outcome cfg script s calls := by
  obtain ⟨calls, hr⟩ := h.observe (attributeCalls cfg) []
  obtain ⟨hb, hs⟩ : Booked cfg script s calls ∧ Stage cfg script s calls := by
    refine hr.invariant (I := fun p => Booked cfg script p.1 p.2 ∧ Stage cfg script p.1 p.2)
      (fun p e q hi hg hs => ?_) ⟨h₀.booked, h₀.stage⟩
    obtain ⟨hstep, hrecord⟩ := Machine.observe_step.mp hs
    rw [← hrecord]
    exact step_keeps hi.1 hi.2 hg hstep
  exact ⟨calls, hr, hs.outcome hb⟩

/-- The consumer that makes its attempts concurrently, each message once more at most. -/
def concurrent : Config where
  mode := .asynchronous
  maxBufferLength := 2
  maxRetries := 1
  startOffset _ := 0

/-- The first message fails once, the second one for good, and the third one succeeds. -/
def mixed : Script
  | 0, 0 => some (.unknown "boom")
  | 1, _ => some (.unknown "boom")
  | _, _ => none

/-- The attempts at the later messages end first. -/
def crossed : List (Event Unit Unit) :=
  [.connected true, .data (tombstone 0), .data (tombstone 1), .data (tombstone 2),
    .deserialized 0 (.ok none) none, .deserialized 0 (.ok none) none,
    .deserialized 0 (.ok none) none, .retried 2 none, .retried 1 (mixed 1 0),
    .retried 1 (mixed 1 1), .retried 0 (mixed 0 0), .retried 0 none, .settled none [] none,
    .settled (some (.base (KafkaError.createUnknown (.unknown "boom") false))) [] none]

/-- The consumer commits the first message and reports why the second one failed. -/
theorem crossed_committed_prefix : Opened (start State.init : State Unit Unit) ∧ ∃ s,
    (machine concurrent).Run (Session mixed) (start State.init) crossed s ∧
    s.committed.map (·.offset) = [0] ∧
    s.errors = [KafkaError.createUnknown (.unknown "boom") false] ∧
    ∃ calls, ((machine concurrent).observe (attributeCalls concurrent)).Run
      (fun p e => Session mixed p.1 e) (start State.init, []) crossed (s, calls) ∧
      Outcome concurrent mixed s calls := by
  have hopened : Opened (start State.init : State Unit Unit) :=
    ⟨rfl, rfl, rfl, rfl, rfl, rfl, rfl, rfl, rfl⟩
  obtain ⟨s, hr, hcommitted, herrors⟩ : ∃ s,
      (machine concurrent).Run (Session mixed) (start State.init) crossed s ∧
      s.committed.map (·.offset) = [0] ∧
      s.errors = [KafkaError.createUnknown (.unknown "boom") false] :=
    Machine.exists_run_of_exec (by decide)
  exact ⟨hopened, s, hr, hcommitted, herrors, committed_prefix hopened hr⟩

end ChainIndexer.Consumer
