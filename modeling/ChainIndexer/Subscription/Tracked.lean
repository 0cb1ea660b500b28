import ChainIndexer.Subscription.Effect
import ChainIndexer.Core.Observe

/-!
# Log subscriptions and jobs by their numbers

A log subscription is open from its creation until `unsubscribe` has closed it,
whether or not the object still remembers it. Its handlers are attached only while
it is open. Jobs are numbered as they are created, so a job that is awaited or
queued is known to the workers.
-/

namespace ChainIndexer.Subscription

variable {cfg : Config} {s t u : State} {opened : List Nat}

/-- The log subscription that an event closes. -/
def closing (s : State) : Event → Option Nat
  | .unsubscribed i (.ok ()) => match s.tasks[i]? with
    | some (.unsubscribing subscription) | some (.restarting subscription) => subscription
    | _ => none
  | _ => none

/-- The log subscriptions that are open: created, and not closed since. -/
def openAfter (s : State) (e : Event) (t : State) (opened : List Nat) : List Nat :=
  (opened ++ List.range' s.subscriptions (t.subscriptions - s.subscriptions)).filter
    fun id => closing s e ≠ some id

/-- The subscription with a record of the log subscriptions that are open. -/
def watched (cfg : Config) : Machine (State × List Nat) Event :=
  (machine cfg).observe openAfter

/-- The job that a suspended activation awaits. -/
def Task.job : Task → Option Job
  | .backFill _ job => some job
  | .finalized .. | .latest .. | .asleep .. | .unsubscribing _ | .restarting _ => none

/-- The log subscription that a suspended activation is closing. -/
def Task.closing : Task → Option Nat
  | .unsubscribing subscription | .restarting subscription => subscription
  | .finalized .. | .latest .. | .asleep .. | .backFill .. => none

/-- The activation closes a log subscription whose handlers are removed, and awaits a job that
exists. -/
structure Sound (s : State) (task : Task) : Prop where
  closing : ∀ id ∈ task.closing, id ∉ s.listening ∧ id < s.subscriptions
  job : ∀ job ∈ task.job, job.id < s.jobs

/-- Every number in use has been given out, and handlers belong to open log subscriptions. -/
structure Tracked (s : State) (opened : List Nat) : Prop where
  listening : ∀ id ∈ s.listening, id ∈ opened
  current : ∀ id ∈ s.subscription, id < s.subscriptions
  tasks : ∀ task ∈ s.tasks, Sound s task
  jobs : ∀ job ∈ waiting s, job.id < s.jobs

theorem Tracked.init : Tracked State.init [] := ⟨nofun, nofun, nofun, nofun⟩

/-- An activation that neither closes nor awaits anything is sound. -/
theorem Sound.plain {task : Task} (hc : task.closing = none) (hj : task.job = none) :
    Sound s task := by
  refine ⟨?_, ?_⟩
  · rw [hc]
    exact nofun
  · rw [hj]
    exact nofun

/-- Numbers stay given out, and handlers stay removed. -/
theorem Sound.mono {task : Task} (h : Sound s task)
    (hl : ∀ id ∈ t.listening, id ∈ s.listening ∨ s.subscriptions ≤ id)
    (hn : s.subscriptions ≤ t.subscriptions) (hj : s.jobs ≤ t.jobs) : Sound t task := by
  refine ⟨fun id hid => ?_, fun job hjob => Nat.lt_of_lt_of_le (h.job job hjob) hj⟩
  obtain ⟨hnot, hlt⟩ := h.closing id hid
  refine ⟨fun hmem => ?_, Nat.lt_of_lt_of_le hlt hn⟩
  rcases hl id hmem with hold | hnew
  · exact hnot hold
  · omega

/-- No log subscription is opened; numbers stay given out. -/
structure Unopened (s t : State) : Prop where
  listening : t.listening ⊆ s.listening
  current : ∀ id ∈ t.subscription, id ∈ s.subscription
  subscriptions : t.subscriptions = s.subscriptions
  count : s.jobs ≤ t.jobs
  tasks : ∀ task ∈ t.tasks, task ∈ s.tasks ∨ Sound t task
  jobs : ∀ job ∈ waiting t, job ∈ waiting s ∨ job.id < t.jobs

theorem Unopened.refl (s : State) : Unopened s s :=
  ⟨List.Subset.refl _, fun _ => id, rfl, Nat.le_refl _, fun _ => Or.inl, fun _ => Or.inl⟩

/-- What opens nothing keeps the tracks. -/
theorem Tracked.unopened (h : Tracked s opened) (hu : Unopened s t) : Tracked t opened where
  listening id hid := h.listening id (hu.listening hid)
  current id hid := hu.subscriptions ▸ h.current id (hu.current id hid)
  tasks task hmem := (hu.tasks task hmem).elim
    (fun hold => (h.tasks task hold).mono (fun _ hid => Or.inl (hu.listening hid))
      (Nat.le_of_eq hu.subscriptions.symm) hu.count) id
  jobs job hmem := (hu.jobs job hmem).elim
    (fun hold => Nat.lt_of_lt_of_le (h.jobs job hold) hu.count) id

/-- One activation is added to those there were. -/
theorem sound_of_mem_append {task other : Task} (hnew : Sound t other)
    (hmem : task ∈ s.tasks ++ [other]) : task ∈ s.tasks ∨ Sound t task := by
  rcases List.mem_append.mp hmem with hold | hlast
  · exact Or.inl hold
  · obtain rfl := List.mem_singleton.mp hlast
    exact Or.inr hnew

/-- One activation moves to another await. -/
theorem sound_of_mem_set {i : Nat} {task other : Task} (hnew : Sound t other)
    (hmem : task ∈ s.tasks.set i other) : task ∈ s.tasks ∨ Sound t task := by
  rcases List.mem_or_eq_of_mem_set hmem with hold | rfl
  · exact Or.inl hold
  · exact Or.inr hnew

theorem thrown_unopened (s : State) (i : Nat) (caller : Caller) (error : BaseError) :
    Unopened s (thrown (finish s i) caller error) := by
  cases caller with
  | client | backFillBlocks | checkIfLive =>
    exact { Unopened.refl s with
      tasks := fun task hmem => Or.inl (List.mem_of_mem_eraseIdx hmem) }

/-- The head of the loop of `backFillBlocks` awaits a job of the queue, if any. -/
theorem runBackFill_unopened (h : ∀ job ∈ s.queue, job.id < s.jobs) (backFillingId : Nat) :
    Unopened s (runBackFill s backFillingId) := by
  have hagain : Unopened s (subscribe { s with activeBackFillingId := none } .backFillBlocks
      s.nextBlock) :=
    { Unopened.refl s with tasks := fun _ => sound_of_mem_append (.plain rfl rfl) }
  unfold runBackFill
  split
  · rename_i job rest hq
    split
    · rw [hq] at h
      refine { Unopened.refl s with
        tasks := fun _ => sound_of_mem_append ⟨nofun, ?_⟩, jobs := fun other hmem => ?_ }
      · rintro _ ⟨⟩
        exact h job List.mem_cons_self
      · refine (List.mem_append.mp hmem).imp (List.mem_append_left _) fun hrest => ?_
        exact h other (List.mem_cons_of_mem _ hrest)
    · exact hagain
  · exact hagain

/-- New jobs get numbers of their own. -/
theorem id_lt_of_mem_jobsFrom {source : Source} {count : Nat} {heights : List Int} {job : Job}
    (h : job ∈ jobsFrom source count heights) :
    count ≤ job.id ∧ job.id < count + heights.length := by
  induction heights generalizing count with
  | nil => cases h
  | cons height heights ih =>
    rw [List.length_cons]
    rcases List.mem_cons.mp h with rfl | h
    · exact ⟨Nat.le_refl _, by dsimp only; omega⟩
    · have hlt := ih h
      omega

/-- Back filling starts with jobs that have just been created. -/
theorem backFillBlocks_unopened (h : Tracked s opened) (i now : Nat) :
    Unopened s (backFillBlocks cfg (finish s i) now) := by
  obtain ⟨assignments, heq⟩ := assignments_eq now (List.range cfg.workers)
    { finish s i with activeBackFillingId := some now }
  have hjobs : ∀ job ∈ s.queue ++ jobsFrom .backFillBlocks s.jobs
      (((List.range cfg.workers).map (s.nextBlock + ·)).map Nat.cast),
      job.id < s.jobs + (List.range cfg.workers).length := by
    intro job hmem
    rcases List.mem_append.mp hmem with hold | hnew
    · have hlt := h.jobs job (List.mem_append_right _ hold)
      omega
    · have hlt := id_lt_of_mem_jobsFrom hnew
      rw [List.length_map, List.length_map] at hlt
      omega
  have hrun := runBackFill_unopened (s := { finish s i with
    activeBackFillingId := some now
    jobs := s.jobs + (List.range cfg.workers).length
    queue := s.queue ++ jobsFrom .backFillBlocks s.jobs
      (((List.range cfg.workers).map (s.nextBlock + ·)).map Nat.cast)
    assignments := assignments }) hjobs now
  unfold backFillBlocks
  dsimp only
  rw [heq]
  refine ⟨hrun.listening, hrun.current, hrun.subscriptions,
    Nat.le_trans (Nat.le_add_right _ _) hrun.count, fun task hmem => ?_, fun job hmem => ?_⟩
  · exact (hrun.tasks task hmem).imp_left List.mem_of_mem_eraseIdx
  · rcases hrun.jobs job hmem with hold | hlt
    · rcases List.mem_append.mp hold with hp | hq
      · exact Or.inl (List.mem_append_left _ hp)
      · exact Or.inr (Nat.lt_of_lt_of_le (hjobs job hq) hrun.count)
    · exact Or.inr hlt

/-- Closing a log subscription only forgets it. -/
theorem closed_eq (s : State) (subscription : Option Nat) :
    ∃ other, closed s subscription = { s with subscription := other } := by
  unfold closed
  split
  · exact ⟨none, rfl⟩
  · exact ⟨s.subscription, rfl⟩

/-- A closed log subscription is the one whose handlers were removed before. -/
theorem closed_tracked {i : Nat} {task : Task} (h : Tracked s opened)
    (hi : s.tasks[i]? = some task) :
    Tracked (closed (finish s i) task.closing)
      (opened.filter fun id => task.closing ≠ some id) := by
  have hsound := h.tasks task (List.mem_of_getElem? hi)
  have hfinish : Tracked (finish s i) opened :=
    h.unopened { Unopened.refl s with
      tasks := fun _ hmem => Or.inl (List.mem_of_mem_eraseIdx hmem) }
  have hlistening : ∀ id ∈ s.listening, id ∈ opened.filter fun id => task.closing ≠ some id := by
    intro id hid
    refine List.mem_filter.mpr ⟨h.listening id hid, ?_⟩
    simp only [ne_eq, decide_not, Bool.not_eq_true', decide_eq_false_iff_not]
    exact fun hclosing => (hsound.closing id hclosing).1 hid
  unfold closed
  split
  · exact ⟨hlistening, nofun, fun other hmem => (hfinish.tasks other hmem).mono (fun _ => Or.inl)
      (Nat.le_refl _) (Nat.le_refl _), hfinish.jobs⟩
  · exact ⟨hlistening, hfinish.current, hfinish.tasks, hfinish.jobs⟩

/-- Subscribing adds an activation that closes and awaits nothing. -/
theorem subscribe_unopened (s : State) (caller : Caller) (startBlock : Nat) :
    Unopened s (subscribe s caller startBlock) :=
  { Unopened.refl s with tasks := fun _ => sound_of_mem_append (.plain rfl rfl) }

/-- `unsubscribe` removes the handlers before it closes the log subscription. -/
theorem unsubscribe_unopened (h : Tracked s opened) {task : Task}
    (ht : task.closing = s.subscription) (hj : task.job = none) :
    Unopened s { unsubscribe s with tasks := s.tasks ++ [task] } := by
  have hnew : Sound { unsubscribe s with tasks := s.tasks ++ [task] } task := by
    refine ⟨fun id hid => ?_, hj ▸ nofun⟩
    rw [ht] at hid
    refine ⟨fun hmem => ?_, h.current id hid⟩
    have hne := (List.mem_filter.mp hmem).2
    simp only [ne_eq, decide_not, Bool.not_eq_true', decide_eq_false_iff_not] at hne
    exact hne hid
  refine { Unopened.refl s with
    listening := fun _ => List.mem_of_mem_filter
    tasks := fun _ => sound_of_mem_append hnew
    jobs := fun job hmem => Or.inl ?_ }
  rcases List.mem_append.mp hmem with hp | hq
  · exact List.mem_append_left _ hp
  · cases hq

/-- Nothing is opened or closed. -/
theorem openAfter_eq {e : Event} (hn : t.subscriptions = s.subscriptions)
    (hc : closing s e = none) : openAfter s e t opened = opened := by
  simp [openAfter, hn, hc]

/-- Where nothing is opened or closed, the record stays right. -/
theorem Tracked.same {e : Event} (h : Tracked s opened) (hc : closing s e = none)
    (hu : Unopened s t) : Tracked t (openAfter s e t opened) := by
  rw [openAfter_eq hu.subscriptions hc]
  exact h.unopened hu

private theorem latest_tracked {i now : Nat} {result : Except Thrown Nat} (h : Tracked s opened)
    (ht : latest cfg s i now result = some t) :
    Tracked t (openAfter s (.latest i now result) t opened) := by
  unfold latest at ht
  split at ht
  · rename_i caller startBlock hi
    obtain rfl := Option.some.inj ht
    cases result with
    | error error => exact h.same rfl (thrown_unopened s i caller _)
    | ok latestBlockNumber =>
      dsimp only
      split
      · exact h.same rfl { Unopened.refl s with
          tasks := fun _ => sound_of_mem_set (.plain rfl rfl) }
      · split
        · exact h.same rfl (backFillBlocks_unopened h i now)
        · have hopened : openAfter s (.latest i now (.ok latestBlockNumber))
              (subscribeLogs (finish s i)) opened = opened ++ [s.subscriptions] := by
            simp [openAfter, closing, subscribeLogs, finish, checkIfLive]
          rw [hopened]
          refine ⟨fun id hid => ?_, fun id hid => ?_, fun task hmem => ?_, h.jobs⟩
          · rcases List.mem_append.mp hid with hold | hnew
            · exact List.mem_append_left _ (h.listening id hold)
            · exact List.mem_append_right _ hnew
          · cases hid
            exact Nat.lt_succ_self _
          · refine (h.tasks task (List.mem_of_mem_eraseIdx hmem)).mono (fun id hid => ?_)
              (Nat.le_succ _) (Nat.le_refl _)
            refine (List.mem_append.mp hid).imp_right fun hnew => ?_
            exact Nat.le_of_eq (List.mem_singleton.mp hnew).symm
  · cases ht

private theorem unsubscribed_tracked {i : Nat} {result : Except Thrown Unit} (h : Tracked s opened)
    (ht : unsubscribed s i result = some t) :
    Tracked t (openAfter s (.unsubscribed i result) t opened) := by
  have hsame : ∀ subscription,
      (closed (finish s i) subscription).subscriptions = s.subscriptions := by
    intro subscription
    obtain ⟨other, hclosed⟩ := closed_eq (finish s i) subscription
    rw [hclosed]
    rfl
  unfold unsubscribed at ht
  split at ht
  · rename_i subscription hi
    obtain rfl := Option.some.inj ht
    have hopened : openAfter s (.unsubscribed i (.ok ())) (closed (finish s i) subscription)
        opened = opened.filter fun id => subscription ≠ some id := by
      simp [openAfter, closing, hi, hsame]
    rw [hopened]
    exact closed_tracked h hi
  · rename_i hi
    obtain rfl := Option.some.inj ht
    exact h.same rfl { Unopened.refl s with
      tasks := fun _ hmem => Or.inl (List.mem_of_mem_eraseIdx hmem) }
  · rename_i subscription hi
    obtain rfl := Option.some.inj ht
    have hopened : openAfter s (.unsubscribed i (.ok ()))
        (subscribe (closed (finish s i) subscription) .checkIfLive s.nextBlock) opened =
        opened.filter fun id => subscription ≠ some id := by
      simp [openAfter, closing, hi, hsame, subscribe]
    rw [hopened]
    exact (closed_tracked h hi).unopened (subscribe_unopened _ _ _)
  · rename_i error hi
    obtain rfl := Option.some.inj ht
    exact h.same rfl (thrown_unopened s i .checkIfLive _)
  · cases ht

private theorem finalized_unopened {i : Nat} {result : Except Thrown Nat}
    (ht : finalized cfg s i result = some t) : Unopened s t := by
  unfold finalized at ht
  split at ht
  · rename_i caller startBlock _
    obtain rfl := Option.some.inj ht
    cases result with
    | error error => exact thrown_unopened s i caller _
    | ok number =>
      refine { Unopened.refl s with
        tasks := fun _ => sound_of_mem_set (.plain rfl rfl), jobs := fun job hmem => ?_ }
      rcases List.mem_append.mp hmem with hp | hq
      · exact Or.inl (List.mem_append_left _ hp)
      · cases hq
  · cases ht

private theorem timeout_unopened {i : Nat} (h : Tracked s opened) (ht : timeout s i = some t) :
    Unopened s t := by
  unfold timeout at ht
  split at ht
  · obtain rfl := Option.some.inj ht
    dsimp only
    split
    · have hfired : Tracked { s with timers := s.timers.eraseIdx i } opened :=
        h.unopened { Unopened.refl s with tasks := fun _ => Or.inl }
      have hu := unsubscribe_unopened hfired
        (show (Task.restarting s.subscription).closing = s.subscription from rfl) rfl
      exact { hu with }
    · exact { Unopened.refl s with tasks := fun _ => Or.inl }
  · cases ht

/-- What is requested is numbered on from the jobs there are. -/
theorem requested_unopened {jobs : List Job} (hr : Requested s t jobs) (hc : s.jobs ≤ t.jobs)
    (hjobs : ∀ job ∈ jobs, job.id < t.jobs) : Unopened s t := by
  have hw : ∀ job ∈ waiting t, job ∈ waiting s ∨ job.id < t.jobs := by
    intro job hmem
    rw [hr.waiting] at hmem
    exact (List.mem_append.mp hmem).imp_right (hjobs job)
  rw [hr.frame] at hw ⊢
  exact { Unopened.refl s with tasks := fun _ => Or.inl, jobs := hw, count := hc }

private theorem data_unopened {subscription : Nat} {log : Log} (hm : Marked s)
    (ht : data s subscription log = some t) : Unopened s t := by
  obtain ⟨_, ⟨rfl, _⟩ | ⟨_, _, _, _, hjobs, hr⟩⟩ := data_cases hm ht
  · exact .refl t
  · have hu := requested_unopened hr (by rw [hjobs]; exact Nat.le_add_right _ _)
      (fun job hmem => by rw [hjobs]; exact (id_lt_of_mem_jobsFrom hmem).2)
    exact { hu with }

/-- The head of the loop of `processQueue` awaits a job of the queue, if any. -/
theorem runQueue_unopened (s : State) : Unopened s (runQueue s) := by
  have hqueue : ∀ job ∈ s.queue, job ∈ waiting s := fun _ => List.mem_append_right _
  unfold runQueue
  split
  · rename_i job rest hq
    split
    · refine { Unopened.refl s with
        tasks := fun _ => Or.inl, jobs := fun other hmem => Or.inl (hqueue other ?_) }
      rw [hq]
      exact hmem
    · exact { Unopened.refl s with
      tasks := fun _ => Or.inl, jobs := fun other hmem => Or.inl (hqueue other hmem) }
  · exact { Unopened.refl s with
      tasks := fun _ => Or.inl, jobs := fun other hmem => Or.inl (hqueue other hmem) }

private theorem processed_unopened {result : Except Thrown Block}
    (ht : processed s result = some t) : Unopened s t := by
  have hqueue : ∀ job ∈ s.queue, job ∈ waiting s := fun _ => List.mem_append_right _
  unfold processed at ht
  split at ht
  · obtain ⟨_, ht⟩ := Option.ite_none_right_eq_some.mp ht
    obtain rfl := Option.some.inj ht
    cases result with
    | error error =>
      exact { Unopened.refl s with
        tasks := fun _ => Or.inl, jobs := fun job hmem => Or.inl (hqueue job hmem) }
    | ok block =>
      dsimp only
      split
      · exact { Unopened.refl s with
          tasks := fun _ => Or.inl
          jobs := fun job hmem => Or.inl (hqueue job hmem) }
      · have hrun := runQueue_unopened { s with
          nextBlock := block.number + 1
          seen := s.seen ++ [block]
          calls := s.calls ++ [.next .processQueue block]
          lastEmittedBlock := some ⟨block.number, block.hash⟩ }
        exact { hrun with }
  · cases ht

private theorem backFilled_unopened {i : Nat} {result : Except Thrown Block} (h : Tracked s opened)
    (ht : backFilled s i result = some t) : Unopened s t := by
  unfold backFilled at ht
  split at ht
  · rename_i id job hi
    obtain ⟨_, ht⟩ := Option.ite_none_right_eq_some.mp ht
    obtain rfl := Option.some.inj ht
    cases result with
    | error error => exact thrown_unopened s i .backFillBlocks _
    | ok block =>
      dsimp only
      split
      · exact { Unopened.refl s with
          tasks := fun task hmem => Or.inl (List.mem_of_mem_eraseIdx hmem) }
      · have hrun := runBackFill_unopened (s := { finish s i with
          calls := s.calls ++ [.next .backFillBlocks block]
          nextBlock := s.nextBlock + 1 })
          (fun job hmem => h.jobs job (List.mem_append_right _ hmem)) id
        exact { hrun with
          tasks := fun task hmem => (hrun.tasks task hmem).imp_left List.mem_of_mem_eraseIdx }
  · cases ht

private theorem assigned_unopened {i : Nat} (ht : assigned s i = some t) : Unopened s t := by
  unfold assigned at ht
  split at ht
  · obtain rfl := Option.some.inj ht
    split
    · exact { Unopened.refl s with tasks := fun _ => Or.inl }
    · exact { Unopened.refl s with tasks := fun _ => Or.inl }
  · obtain ⟨_, ht⟩ := Option.ite_none_right_eq_some.mp ht
    obtain rfl := Option.some.inj ht
    split
    · refine { Unopened.refl s with
        count := Nat.le_succ _, tasks := fun _ => Or.inl, jobs := fun job hmem => ?_ }
      rcases List.mem_append.mp hmem with hp | hq
      · exact Or.inl (List.mem_append_left _ hp)
      · refine (List.mem_append.mp hq).imp (List.mem_append_right _) fun hnew => ?_
        obtain rfl := List.mem_singleton.mp hnew
        exact Nat.lt_succ_self _
    · exact { Unopened.refl s with tasks := fun _ => Or.inl }
  · cases ht

/-- Every step keeps the numbers given out and the record right. -/
theorem step_tracked {e : Event} (hm : Marked s) (h : Tracked s opened)
    (ht : step cfg s e = some t) : Tracked t (openAfter s e t opened) := by
  cases e with
  | latest i now result => exact latest_tracked h ht
  | unsubscribed i result => exact unsubscribed_tracked h ht
  | subscribe startBlock =>
    obtain rfl := Option.some.inj ht
    exact h.same rfl (subscribe_unopened s .client startBlock)
  | unsubscribe =>
    obtain rfl := Option.some.inj ht
    exact h.same rfl (unsubscribe_unopened h rfl rfl)
  | finalized i result => exact h.same rfl (finalized_unopened ht)
  | woken i =>
    change woken s i = some t at ht
    unfold woken at ht
    split at ht
    · obtain rfl := Option.some.inj ht
      exact h.same rfl { Unopened.refl s with tasks := fun _ => sound_of_mem_set (.plain rfl rfl) }
    · cases ht
  | timeout i => exact h.same rfl (timeout_unopened h ht)
  | data subscription log => exact h.same rfl (data_unopened hm ht)
  | failed subscription error =>
    obtain ⟨_, ht⟩ := Option.ite_none_right_eq_some.mp ht
    obtain rfl := Option.some.inj ht
    exact h.same rfl { Unopened.refl s with tasks := fun _ => Or.inl }
  | answer job =>
    obtain ⟨_, ht⟩ := Option.ite_none_right_eq_some.mp ht
    obtain rfl := Option.some.inj ht
    exact h.same rfl { Unopened.refl s with tasks := fun _ => Or.inl }
  | processed result => exact h.same rfl (processed_unopened ht)
  | backFilled i result => exact h.same rfl (backFilled_unopened h ht)
  | assigned i => exact h.same rfl (assigned_unopened ht)

end ChainIndexer.Subscription
