import ChainIndexer.Subscription.Line

/-!
# The phases of a subscription that the client leaves alone

Subscribed once, the object is either back filling, with one loop and nothing that
could call `processQueue`, or it is live or on its way to be, with at most one
activation that can start the next phase. In both phases every height below a
bound has been emitted, and only heights within the bound come next.
-/

namespace ChainIndexer.Subscription

open Climbs (rise lt_rise)

variable {cfg : Config} {s t : State} {start bound : Nat}

/-- The heights of the awaited job and of the queued ones, whatever they were queued for. -/
def heights (s : State) : List Nat := (waiting s).map Job.level

/-- Every height from the start block up to the bound has been emitted. -/
def Covered (start bound : Nat) (calls : List Call) : Prop :=
  ∀ height, start ≤ height → height < bound → ∃ emission ∈ emissions calls,
    emission.2.number = height

/-- A block above the start block is emitted after one of the height below it. -/
def Preceded (start : Nat) (calls : List Call) (call : Call) : Prop :=
  ∀ emission ∈ call.emission, start < emission.2.number →
    ∃ earlier ∈ emissions calls, earlier.2.number + 1 = emission.2.number

/-- The emissions so far have no gap. -/
structure Gapless (start bound : Nat) (calls : List Call) : Prop where
  preceded : Each (Preceded start) calls
  covered : Covered start bound calls

theorem Gapless.init : Gapless start start [] := by
  refine ⟨Each.nil, fun height hle hlt => ?_⟩
  omega

/-- Calls that emit nothing leave no gap. -/
theorem Gapless.append {calls more : List Call} (h : Gapless start bound calls)
    (hmore : ∀ call ∈ more, call.emission = none) : Gapless start bound (calls ++ more) where
  preceded := by
    refine (Each.append_iff fun call hcall calls emission hemission => ?_).mpr h.preceded
    rw [hmore call hcall] at hemission
    cases hemission
  covered := by
    rw [Covered, emissions_append, show emissions more = [] from
      List.filterMap_eq_nil_iff.mpr hmore, List.append_nil]
    exact h.covered

/-- A block within the bound may be emitted, and raises it. -/
theorem Gapless.next {calls : List Call} {block : Block} (h : Gapless start bound calls)
    (source : Source) (hb : block.number ≤ bound) :
    Gapless start (rise bound block.number) (calls ++ [.next source block]) where
  preceded := by
    refine Each.snoc_iff.mpr ⟨h.preceded, ?_⟩
    rintro emission ⟨⟩ hlt
    change start < block.number at hlt
    obtain ⟨earlier, hmem, hn⟩ := h.covered (block.number - 1) (by omega) (by omega)
    refine ⟨earlier, hmem, ?_⟩
    change earlier.2.number + 1 = block.number
    omega
  covered := by
    intro height hle hlt
    rw [emissions_append, emissions_next]
    by_cases hold : height < bound
    · obtain ⟨emission, hmem, hn⟩ := h.covered height hle hold
      exact ⟨emission, List.mem_append_left _ hmem, hn⟩
    · refine ⟨_, List.mem_append_right _ (List.mem_singleton_self _), ?_⟩
      change block.number = height
      unfold rise at hlt
      omega

/-- The next height that a log event requests is within what the waiting heights raise the
bound to. -/
def Received (bound : Nat) (s : State) : Prop :=
  s.fatalError = false → s.lastReceivedBlockNumber < ((heights s).foldl rise bound : Nat)

/-- The one activation that starts the next phase. -/
def Switching (bound : Nat) (s : State) : Task → Prop
  | .finalized _ _ | .restarting _ => True
  | .latest _ _ | .asleep _ _ => s.queue = [] ∧ Received bound s
  | .backFill _ _ | .unsubscribing _ => False

/-- Only the timer can start the next phase; log events may come. -/
structure Attended (bound : Nat) (s : State) : Prop where
  tasks : s.tasks = []
  timers : s.timers.length ≤ 1
  received : s.listening ≠ [] → Received bound s

/-- One activation starts the next phase, and no log event can come. -/
structure Between (bound : Nat) (s : State) (task : Task) : Prop where
  tasks : s.tasks = [task]
  timers : s.timers = []
  listening : s.listening = []
  switching : Switching bound s task

/-- The subscription is live or on its way to be. -/
structure Live (bound : Nat) (s : State) : Prop where
  inactive : s.activeBackFillingId = none
  climbs : s.fatalError = false → Climbs rise bound (heights s)
  closes : ∀ id ∈ s.listening, s.subscription = some id
  control : Attended bound s ∨ ∃ task, Between bound s task

/-- The loop of `backFillBlocks` is alone. -/
structure Filling (s : State) (id : Nat) (job : Job) : Prop where
  active : s.activeBackFillingId = some id
  tasks : s.tasks = [.backFill id job]
  timers : s.timers = []
  listening : s.listening = []
  idle : s.processing = none
  errorless : s.fatalError = false
  /-- The loop awaits the next block, and the ones after it are queued in order. -/
  height : job.height = s.nextBlock
  queued : s.queue.map Job.height = (List.range' (s.nextBlock + 1) s.queue.length).map Nat.cast

/-- The one activation has ended. -/
theorem Between.ended {task : Task} (h : Between bound s task) : s.tasks.eraseIdx 0 = [] := by
  rw [h.tasks]
  rfl

/-- The one activation has moved to another await. -/
theorem Between.moved {task : Task} (h : Between bound s task) (other : Task) :
    s.tasks.set 0 other = [other] := by
  rw [h.tasks]
  rfl

/-- The only activation satisfies a condition on the start block if its own does. -/
theorem starts_of_tasks {task : Task} (htasks : s.tasks = [task])
    (htask : ∀ caller startBlock, task = .finalized caller startBlock → startBlock ≤ bound) :
    ∀ caller startBlock, Task.finalized caller startBlock ∈ s.tasks → startBlock ≤ bound := by
  intro caller startBlock hmem
  rw [htasks, List.mem_singleton] at hmem
  exact htask caller startBlock hmem.symm

/-- What starts the next phase stays the same while the activations and timers do. -/
theorem control_congr {bound' : Nat} (htasks : t.tasks = s.tasks) (htimers : t.timers = s.timers)
    (hlistening : t.listening = s.listening) (hqueue : s.queue = [] → t.queue = [])
    (hreceived : Received bound s → Received bound' t)
    (h : Attended bound s ∨ ∃ task, Between bound s task) :
    Attended bound' t ∨ ∃ task, Between bound' t task := by
  refine h.imp (fun ha => ?_) (Exists.imp fun task hb => ?_)
  · exact ⟨htasks.trans ha.tasks, htimers ▸ ha.timers,
      fun hne => hreceived (ha.received (hlistening ▸ hne))⟩
  · refine ⟨htasks.trans hb.tasks, htimers.trans hb.timers, hlistening.trans hb.listening, ?_⟩
    have hswitching := hb.switching
    cases task with
    | finalized _ _ => trivial
    | restarting _ => trivial
    | latest _ _ => exact ⟨hqueue hswitching.1, hreceived hswitching.2⟩
    | asleep _ _ => exact ⟨hqueue hswitching.1, hreceived hswitching.2⟩
    | backFill _ _ => exact hswitching
    | unsubscribing _ => exact hswitching

/-- The invariant of a subscription that the client leaves alone. -/
structure Steady (start bound : Nat) (s : State) : Prop where
  gapless : Gapless start bound s.calls
  starts : ∀ caller startBlock, Task.finalized caller startBlock ∈ s.tasks → startBlock ≤ bound
  next : s.fatalError = false → s.nextBlock ≤ bound
  awaited : ∀ job ∈ s.processing, job.level ≤ bound
  phase : Live bound s ∨ ∃ id job, Filling s id job

/-- The object after the client's one call of `subscribe`. -/
theorem Steady.init (start : Nat) : Steady start start (subscribe State.init .client start) where
  gapless := Gapless.init
  starts := by
    intro caller startBlock hmem
    cases List.mem_singleton.mp hmem
    exact Nat.le_refl _
  next := fun _ => Nat.zero_le _
  awaited := nofun
  phase := Or.inl ⟨rfl, fun _ => trivial, nofun, Or.inr ⟨_, rfl, rfl, rfl, trivial⟩⟩

theorem getElem?_singleton_eq_some {α : Type*} {a b : α} {i : Nat} :
    [a][i]? = some b ↔ i = 0 ∧ a = b := by
  cases i <;> simp

/-- An activation that is not the loop of `backFillBlocks` is the one that starts the next
phase. -/
theorem Steady.between {i : Nat} {task : Task} (hs : Steady start bound s)
    (hi : s.tasks[i]? = some task) (htask : ∀ id job, task ≠ .backFill id job) :
    i = 0 ∧ Live bound s ∧ Between bound s task := by
  rcases hs.phase with hlive | ⟨id, job, hfilling⟩
  · rcases hlive.control with hattended | ⟨other, hbetween⟩
    · rw [hattended.tasks] at hi
      cases hi
    · rw [hbetween.tasks, getElem?_singleton_eq_some] at hi
      obtain ⟨rfl, rfl⟩ := hi
      exact ⟨rfl, hlive, hbetween⟩
  · rw [hfilling.tasks, getElem?_singleton_eq_some] at hi
    exact absurd hi.2.symm (htask id job)

/-- The loop of `backFillBlocks` is suspended only while the subscription is back filling. -/
theorem Steady.filling {i id : Nat} {job : Job} (hs : Steady start bound s)
    (hi : s.tasks[i]? = some (.backFill id job)) : i = 0 ∧ Filling s id job := by
  rcases hs.phase with hlive | ⟨id', job', hfilling⟩
  · rcases hlive.control with hattended | ⟨other, hbetween⟩
    · rw [hattended.tasks] at hi
      cases hi
    · rw [hbetween.tasks, getElem?_singleton_eq_some] at hi
      obtain ⟨_, rfl⟩ := hi
      exact hbetween.switching.elim
  · have hsame := hi
    rw [hfilling.tasks, getElem?_singleton_eq_some] at hsame
    obtain ⟨rfl, heq⟩ := hsame
    cases heq
    exact ⟨rfl, hfilling⟩

/-- Where a timer is set, only a timer can start the next phase, and it is the only one. -/
theorem Steady.timed {i : Nat} {timer : Timer} (hs : Steady start bound s)
    (hi : s.timers[i]? = some timer) :
    Live bound s ∧ Attended bound s ∧ s.timers.eraseIdx i = [] := by
  rcases hs.phase with hlive | ⟨_, _, hfilling⟩
  · rcases hlive.control with hattended | ⟨_, hbetween⟩
    · refine ⟨hlive, hattended, ?_⟩
      obtain ⟨hlt, _⟩ := List.getElem?_eq_some_iff.mp hi
      have hle := hattended.timers
      rw [← List.length_eq_zero_iff, List.length_eraseIdx_of_lt hlt]
      omega
    · simp [hbetween.timers] at hi
  · simp [hfilling.timers] at hi

/-- While `processQueue` awaits a job, the subscription is not back filling. -/
theorem Steady.live {job : Job} (hs : Steady start bound s) (hp : s.processing = some job) :
    Live bound s := by
  rcases hs.phase with hlive | ⟨_, _, hfilling⟩
  · exact hlive
  · simp [hfilling.idle] at hp

/-- Where log events can come, only the timer can start the next phase. -/
theorem Steady.attended {id : Nat} (hs : Steady start bound s) (hid : id ∈ s.listening) :
    Live bound s ∧ Attended bound s := by
  rcases hs.phase with hlive | ⟨_, _, hfilling⟩
  · rcases hlive.control with hattended | ⟨other, hbetween⟩
    · exact ⟨hlive, hattended⟩
    · rw [hbetween.listening] at hid
      cases hid
  · rw [hfilling.listening] at hid
    cases hid

/-- An activation that ends with an error leaves nothing that could start a phase. -/
theorem Steady.thrown {task : Task} {error : BaseError} (hs : Steady start bound s)
    (hlive : Live bound s) (hbetween : Between bound s task) (caller : Caller) :
    Steady start bound (thrown (finish s 0) caller error) := by
  have hended : Attended bound (finish s 0) := by
    refine ⟨hbetween.ended, ?_, fun hne => absurd hbetween.listening hne⟩
    change s.timers.length ≤ 1
    rw [hbetween.timers]
    exact Nat.zero_le _
  have hstarts : ∀ caller startBlock, Task.finalized caller startBlock ∈ s.tasks.eraseIdx 0 →
      startBlock ≤ bound := by
    rw [hbetween.ended]
    exact nofun
  cases caller with
  | client =>
    exact ⟨hs.gapless, hstarts, hs.next, hs.awaited,
      Or.inl ⟨hlive.inactive, hlive.climbs, hlive.closes, Or.inl hended⟩⟩
  | backFillBlocks =>
    refine ⟨hs.gapless.append (List.forall_mem_singleton.mpr rfl), hstarts, nofun, hs.awaited,
      Or.inl ⟨rfl, nofun, hlive.closes, Or.inl ⟨hended.tasks, hended.timers, ?_⟩⟩⟩
    exact fun hne => absurd hbetween.listening hne
  | checkIfLive =>
    exact ⟨hs.gapless.append (List.forall_mem_singleton.mpr rfl), hstarts, hs.next, hs.awaited,
      Or.inl ⟨hlive.inactive, hlive.climbs, hlive.closes,
        Or.inl ⟨hended.tasks, hended.timers, hended.received⟩⟩⟩

end ChainIndexer.Subscription
