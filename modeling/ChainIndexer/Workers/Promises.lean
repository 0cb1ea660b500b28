import ChainIndexer.Workers.Routing

/-!
# Requests and the jobs they are made for

The jobs that a step creates are those it asks the workers for, so the requests are numbered as the
jobs are. A promise is settled exactly when the subscription takes its job for answered, and every
run with workers is a run of the subscription.
-/

namespace ChainIndexer.Workers

open Subscription (Job Task Marked waiting jobsFrom finish)

variable {cfg : Subscription.Config} {s t u : Subscription.State} {jobs : List Job}

/-- From the first state to the second, the workers were asked for these jobs. -/
structure Asks (s t : Subscription.State) (jobs : List Job) : Prop where
  ids : jobs.map Job.id = List.range' s.jobs jobs.length
  count : t.jobs = s.jobs + jobs.length
  answered : t.answered = s.answered
  asked : asked s t = jobs
  kept : ∀ job ∈ promised t, job ∈ promised s ∨ job ∈ jobs

/-- Every job that is held has been created. -/
def Known (s : Subscription.State) : Prop := ∀ job ∈ promised s, job.id < s.jobs

private theorem le_of_mem_new (hids : jobs.map Job.id = List.range' s.jobs jobs.length) {job : Job}
    (h : job ∈ jobs) : s.jobs ≤ job.id := by
  have hid := List.mem_map_of_mem (f := Job.id) h
  rw [hids, List.mem_range'_1] at hid
  exact hid.1

/-- Among old and new jobs, the new ones are told by their numbers. -/
theorem filter_new {old : List Job} (hold : ∀ job ∈ old, job.id < s.jobs)
    (hids : jobs.map Job.id = List.range' s.jobs jobs.length) :
    (old ++ jobs).filter (fun job => s.jobs ≤ job.id) = jobs := by
  have hnone : old.filter (fun job => s.jobs ≤ job.id) = [] := by
    rw [List.filter_eq_nil_iff]
    intro job hjob
    rw [decide_eq_true_eq]
    exact Nat.not_le_of_lt (hold job hjob)
  have hall : jobs.filter (fun job => s.jobs ≤ job.id) = jobs := by
    rw [List.filter_eq_self]
    intro job hjob
    exact decide_eq_true (le_of_mem_new hids hjob)
  rw [List.filter_append, hnone, hall, List.nil_append]

/-- A promised job is awaited by `processQueue` or a loop, or queued. -/
theorem mem_promised {job : Job} : job ∈ promised s ↔
    job ∈ s.processing.toList ∨ job ∈ s.tasks.filterMap Task.job ∨ job ∈ s.queue := by
  rw [promised, Subscription.held, List.mem_append, List.mem_append]

/-- Activations that go on await no more jobs. -/
theorem mem_tasks_of_mem (htasks : ∀ task ∈ t.tasks, task ∈ s.tasks ∨ task.job = none) {job : Job}
    (h : job ∈ t.tasks.filterMap Task.job) : job ∈ s.tasks.filterMap Task.job := by
  obtain ⟨task, htask, hjob⟩ := List.mem_filterMap.mp h
  rcases htasks task htask with hold | hnone
  · exact List.mem_filterMap.mpr ⟨task, hold, hjob⟩
  · rw [hnone] at hjob
    cases hjob

/-- Jobs are queued behind some of those there were. -/
theorem Asks.queued {queue : List Job} (hknown : Known s)
    (hids : jobs.map Job.id = List.range' s.jobs jobs.length)
    (hcount : t.jobs = s.jobs + jobs.length) (hanswered : t.answered = s.answered)
    (hprocessing : t.processing = s.processing) (hqueue : t.queue = queue ++ jobs)
    (hsub : queue ⊆ s.queue) (htasks : ∀ task ∈ t.tasks, task ∈ s.tasks ∨ task.job = none) :
    Asks s t jobs := by
  have hheld : promised t =
      (s.processing.toList ++ (t.tasks.filterMap Task.job ++ queue)) ++ jobs := by
    rw [promised, Subscription.held, hprocessing, hqueue]
    simp only [List.append_assoc]
  have hold : ∀ job ∈ s.processing.toList ++ (t.tasks.filterMap Task.job ++ queue),
      job ∈ promised s := by
    intro job hjob
    rw [List.mem_append, List.mem_append] at hjob
    exact mem_promised.mpr
      (hjob.imp_right fun h => h.imp (mem_tasks_of_mem htasks) fun h => hsub h)
  refine ⟨hids, hcount, hanswered, ?_, fun job hjob => ?_⟩
  · rw [Workers.asked, hheld]
    exact filter_new (fun job hjob => hknown job (hold job hjob)) hids
  · rw [hheld, List.mem_append] at hjob
    exact hjob.imp_left (hold job)

/-- Nothing is asked for, and no more jobs are held. -/
theorem Asks.fewer (hknown : Known s) (hjobs : t.jobs = s.jobs)
    (hanswered : t.answered = s.answered)
    (hsub : ∀ job ∈ promised t, job ∈ promised s) : Asks s t [] := by
  refine ⟨rfl, hjobs, hanswered, ?_, fun job hjob => Or.inl (hsub job hjob)⟩
  rw [Workers.asked, List.filter_eq_nil_iff]
  intro job hjob
  rw [decide_eq_true_eq]
  exact Nat.not_le_of_lt (hknown job (hsub job hjob))

/-- Only activations move. -/
theorem Asks.still {queue : List Job} (hknown : Known s) (hjobs : t.jobs = s.jobs)
    (hanswered : t.answered = s.answered) (hprocessing : t.processing = s.processing)
    (hqueue : t.queue = queue) (hsub : queue ⊆ s.queue)
    (htasks : ∀ task ∈ t.tasks, task ∈ s.tasks ∨ task.job = none) : Asks s t [] :=
  .queued hknown rfl hjobs hanswered hprocessing (hqueue.trans (List.append_nil _).symm) hsub htasks

/-- The same jobs are held. -/
theorem Asks.congr (h : Asks s t jobs) (hjobs : u.jobs = t.jobs)
    (hanswered : u.answered = t.answered)
    (hheld : promised u = promised t) : Asks s u jobs where
  ids := h.ids
  count := hjobs.trans h.count
  answered := hanswered.trans h.answered
  asked := by
    rw [Workers.asked, hheld]
    exact h.asked
  kept := by
    rw [hheld]
    exact h.kept

/-- The head of the loop of `backFillBlocks` holds the jobs there were. -/
theorem Asks.runBackFill (h : Asks s t jobs) (backFillingId : Nat) :
    Asks s (Subscription.runBackFill t backFillingId) jobs := by
  have hsubscribe : Asks s (Subscription.subscribe { t with activeBackFillingId := none }
      .backFillBlocks t.nextBlock) jobs := by
    refine h.congr rfl rfl ?_
    simp [promised, Subscription.held, Subscription.subscribe, Task.job]
  unfold Subscription.runBackFill
  split
  · rename_i job rest hqueue
    split
    · refine h.congr rfl rfl ?_
      simp [promised, Subscription.held, Task.job, hqueue]
    · exact hsubscribe
  · exact hsubscribe

/-- An activation that ends awaits no job. -/
theorem mem_finish {i : Nat} {task : Task} (h : task ∈ (finish s i).tasks) :
    task ∈ s.tasks ∨ task.job = none := Or.inl (List.mem_of_mem_eraseIdx h)

/-- One that goes on without a job awaits none. -/
theorem mem_set {i : Nat} {task other : Task} (hother : other.job = none)
    (h : task ∈ s.tasks.set i other) : task ∈ s.tasks ∨ task.job = none := by
  rcases List.mem_or_eq_of_mem_set h with hold | rfl
  · exact Or.inl hold
  · exact Or.inr hother

/-- Nor does a new one. -/
theorem mem_append_task {tasks : List Task} {task other : Task} (hother : other.job = none)
    (hsub : tasks ⊆ s.tasks) (h : task ∈ tasks ++ [other]) :
    task ∈ s.tasks ∨ task.job = none := by
  rcases List.mem_append.mp h with hold | hnew
  · exact Or.inl (hsub hold)
  · obtain rfl := List.mem_singleton.mp hnew
    exact Or.inr hother

/-- A call of `subscribe` that fails asks for nothing. -/
theorem thrown_asks (hknown : Known s) (i : Nat) (caller : Subscription.Caller)
    (error : BaseError) : Asks s (Subscription.thrown (finish s i) caller error) [] := by
  cases caller with
  | client | backFillBlocks | checkIfLive =>
    exact .still hknown rfl rfl rfl rfl (List.Subset.refl _) fun _ => mem_finish

private theorem finalized_asks {i : Nat} {result : Except Thrown Nat} (hknown : Known s)
    (h : Subscription.finalized cfg s i result = some t) : Asks s t [] := by
  unfold Subscription.finalized at h
  split at h
  · obtain rfl := Option.some.inj h
    cases result with
    | error error => exact thrown_asks hknown i _ _
    | ok number =>
      exact .still hknown rfl rfl rfl rfl (List.nil_subset _) fun _ => mem_set rfl
  · cases h

/-- Back filling asks each worker for one block. -/
theorem latest_asks {i now : Nat} {result : Except Thrown Nat} (hknown : Known s)
    (h : Subscription.latest cfg s i now result = some t) : ∃ jobs, Asks s t jobs := by
  unfold Subscription.latest at h
  split at h
  · obtain rfl := Option.some.inj h
    cases result with
    | error error => exact ⟨[], thrown_asks hknown i _ _⟩
    | ok latestBlockNumber =>
      dsimp only
      split
      · exact ⟨[], .still hknown rfl rfl rfl rfl (List.Subset.refl _) fun _ => mem_set rfl⟩
      · split
        · obtain ⟨assignments, heq⟩ := Subscription.assignments_eq now (List.range cfg.workers)
            { finish s i with activeBackFillingId := some now }
          unfold Subscription.backFillBlocks
          dsimp only
          rw [heq]
          refine ⟨jobsFrom .backFillBlocks s.jobs
            (((List.range cfg.workers).map (s.nextBlock + ·)).map Nat.cast), .runBackFill ?_ now⟩
          refine .queued hknown ?_ ?_ rfl rfl rfl (List.Subset.refl _) fun _ => mem_finish
          · rw [Subscription.jobsFrom_map_id, Subscription.length_jobsFrom]
          · simp [finish]
        · exact ⟨[], .still hknown rfl rfl rfl rfl (List.Subset.refl _) fun _ => mem_finish⟩
  · cases h

private theorem unsubscribed_asks {i : Nat} {result : Except Thrown Unit} (hknown : Known s)
    (h : Subscription.unsubscribed s i result = some t) : Asks s t [] := by
  have hclosed : ∀ subscription, Asks s (Subscription.closed (finish s i) subscription) [] := by
    intro subscription
    unfold Subscription.closed
    split
    · exact .still hknown rfl rfl rfl rfl (List.Subset.refl _) fun _ => mem_finish
    · exact .still hknown rfl rfl rfl rfl (List.Subset.refl _) fun _ => mem_finish
  unfold Subscription.unsubscribed at h
  split at h
  · obtain rfl := Option.some.inj h
    exact hclosed _
  · obtain rfl := Option.some.inj h
    exact .still hknown rfl rfl rfl rfl (List.Subset.refl _) fun _ => mem_finish
  · obtain rfl := Option.some.inj h
    refine (hclosed _).congr rfl rfl ?_
    simp [promised, Subscription.held, Subscription.subscribe, Task.job]
  · obtain rfl := Option.some.inj h
    exact thrown_asks hknown i .checkIfLive _
  · cases h

private theorem timeout_asks {i : Nat} (hknown : Known s) (h : Subscription.timeout s i = some t) :
    Asks s t [] := by
  unfold Subscription.timeout at h
  split at h
  · obtain rfl := Option.some.inj h
    dsimp only
    split
    · exact .still hknown rfl rfl rfl rfl (List.nil_subset _)
        fun _ => mem_append_task rfl (List.Subset.refl _)
    · exact .still hknown rfl rfl rfl rfl (List.Subset.refl _) fun _ => Or.inl
  · cases h

/-- The handler of a log event asks the first worker for the missed blocks and the new one. -/
theorem data_asks {subscription : Nat} {log : Subscription.Log} (hm : Marked s) (hknown : Known s)
    (h : Subscription.data s subscription log = some t) : ∃ jobs, Asks s t jobs := by
  obtain ⟨_, ⟨rfl, _⟩ | ⟨hash, number, _, _, hcount, hr⟩⟩ := Subscription.data_cases hm h
  · exact ⟨[], .still hknown rfl rfl rfl rfl (List.Subset.refl _) fun _ => Or.inl⟩
  · have htasks : t.tasks = s.tasks := by rw [hr.frame]
    have hheld : ∀ job, job ∈ promised t ↔ job ∈ waiting t ∨ job ∈ t.tasks.filterMap Task.job := by
      intro job
      rw [mem_promised, waiting, List.mem_append, or_assoc, or_comm (a := job ∈ t.queue)]
    have hids := Subscription.jobsFrom_map_id .processQueue s.jobs
      (Subscription.missedBlocks s number ++ [number])
    rw [← Subscription.length_jobsFrom .processQueue s.jobs] at hids hcount
    have hold : ∀ job ∈ waiting s, job.id < s.jobs := fun job hjob =>
      hknown job (mem_promised.mpr ((List.mem_append.mp hjob).imp_right Or.inr))
    refine ⟨_, hids, hcount, by rw [hr.frame], ?_, fun job hjob => ?_⟩
    · have hnone : (t.tasks.filterMap Task.job).filter (fun job => s.jobs ≤ job.id) = [] := by
        rw [htasks, List.filter_eq_nil_iff]
        intro job hjob
        rw [decide_eq_true_eq]
        exact Nat.not_le_of_lt (hknown job (mem_promised.mpr (Or.inr (Or.inl hjob))))
      have hnew := filter_new hold hids
      have hwaiting : waiting t = waiting s ++ _ := hr.waiting
      rw [← hwaiting, waiting, List.filter_append] at hnew
      rw [Workers.asked, promised, Subscription.held, List.filter_append, List.filter_append, hnone,
        List.nil_append]
      exact hnew
    · rcases (hheld job).mp hjob with hwaiting | htask
      · rw [hr.waiting] at hwaiting
        refine (List.mem_append.mp hwaiting).imp_left fun hjob => ?_
        exact mem_promised.mpr ((List.mem_append.mp hjob).imp_right Or.inr)
      · rw [htasks] at htask
        exact Or.inl (mem_promised.mpr (Or.inr (Or.inl htask)))

/-- `processQueue` goes on with a job that it held. -/
theorem processed_asks {result : Except Thrown Block} (hm : Marked s) (hknown : Known s)
    (h : Subscription.processed s result = some t) : Asks s t [] := by
  have hended : ∀ u : Subscription.State, u.jobs = s.jobs → u.answered = s.answered →
      u.processing = none → u.queue = s.queue → u.tasks = s.tasks → Asks s u [] := by
    intro u hjobs hanswered hprocessing hqueue htasks
    refine .fewer hknown hjobs hanswered fun job hjob => ?_
    rw [mem_promised, hprocessing, hqueue, htasks] at hjob
    exact mem_promised.mpr (Or.inr (hjob.resolve_left (by simp)))
  obtain ⟨job, hp, ⟨error, _, rfl⟩ | ⟨block, _, ⟨_, rfl⟩ | ⟨_, hjobs, hr⟩⟩⟩ :=
    Subscription.processed_cases hm h
  · exact hended _ rfl rfl rfl rfl rfl
  · exact hended _ rfl rfl rfl rfl rfl
  · refine .fewer hknown hjobs (by rw [hr.frame]) fun other hother => ?_
    have hwaiting : waiting t = s.queue := by
      rw [hr.waiting]
      simp [waiting]
    have htasks : t.tasks = s.tasks := by rw [hr.frame]
    rw [mem_promised, htasks] at hother
    rcases hother with hone | htask | hqueue
    · exact mem_promised.mpr (Or.inr (Or.inr (hwaiting ▸ List.mem_append_left _ hone)))
    · exact mem_promised.mpr (Or.inr (Or.inl htask))
    · exact mem_promised.mpr (Or.inr (Or.inr (hwaiting ▸ List.mem_append_right _ hqueue)))

private theorem backFilled_asks {i : Nat} {result : Except Thrown Block} (hknown : Known s)
    (h : Subscription.backFilled s i result = some t) : Asks s t [] := by
  unfold Subscription.backFilled at h
  split at h
  · obtain ⟨_, ht⟩ := Option.ite_none_right_eq_some.mp h
    obtain rfl := Option.some.inj ht
    cases result with
    | error error => exact thrown_asks hknown i .backFillBlocks _
    | ok block =>
      dsimp only
      split
      · exact .still hknown rfl rfl rfl rfl (List.Subset.refl _) fun _ => mem_finish
      · refine .runBackFill ?_ _
        exact .still hknown rfl rfl rfl rfl (List.Subset.refl _) fun _ => mem_finish
  · cases h

/-- A worker that has answered is asked for the block after the queued ones. -/
theorem assigned_asks {i : Nat} (hknown : Known s) (h : Subscription.assigned s i = some t) :
    ∃ jobs, Asks s t jobs := by
  unfold Subscription.assigned at h
  split at h
  · obtain rfl := Option.some.inj h
    split
    · exact ⟨[], .still hknown rfl rfl rfl rfl (List.Subset.refl _) fun _ => Or.inl⟩
    · exact ⟨[], .still hknown rfl rfl rfl rfl (List.Subset.refl _) fun _ => Or.inl⟩
  · obtain ⟨_, ht⟩ := Option.ite_none_right_eq_some.mp h
    obtain rfl := Option.some.inj ht
    split
    · refine ⟨[⟨s.jobs, (s.nextBlock + s.queue.length + 1 : Nat), .backFillBlocks⟩], ?_⟩
      exact .queued hknown rfl rfl rfl rfl rfl (List.Subset.refl _) fun _ => Or.inl
    · exact ⟨[], .still hknown rfl rfl rfl rfl (List.Subset.refl _) fun _ => Or.inl⟩
  · cases h

/-- Every step but an answer of a worker creates the jobs it asks the workers for. -/
theorem step_asks {e : Subscription.Event} (hm : Marked s) (hknown : Known s)
    (he : ∀ job, e ≠ .answer job) (h : Subscription.step cfg s e = some t) :
    ∃ jobs, Asks s t jobs := by
  cases e with
  | answer job => exact absurd rfl (he job)
  | subscribe startBlock =>
    obtain rfl := Option.some.inj h
    exact ⟨[], .still hknown rfl rfl rfl rfl (List.Subset.refl _)
      fun _ => mem_append_task rfl (List.Subset.refl _)⟩
  | unsubscribe =>
    obtain rfl := Option.some.inj h
    exact ⟨[], .still hknown rfl rfl rfl rfl (List.nil_subset _)
      fun _ => mem_append_task rfl (List.Subset.refl _)⟩
  | woken i =>
    simp only [Subscription.step, Subscription.woken] at h
    split at h
    · obtain rfl := Option.some.inj h
      exact ⟨[], .still hknown rfl rfl rfl rfl (List.Subset.refl _) fun _ => mem_set rfl⟩
    · cases h
  | failed subscription error =>
    obtain ⟨_, ht⟩ := Option.ite_none_right_eq_some.mp h
    obtain rfl := Option.some.inj ht
    exact ⟨[], .still hknown rfl rfl rfl rfl (List.Subset.refl _) fun _ => Or.inl⟩
  | finalized i result => exact ⟨[], finalized_asks hknown h⟩
  | latest i now result => exact latest_asks hknown h
  | unsubscribed i result => exact ⟨[], unsubscribed_asks hknown h⟩
  | timeout i => exact ⟨[], timeout_asks hknown h⟩
  | data subscription log => exact data_asks hm hknown h
  | processed result => exact ⟨[], processed_asks hm hknown h⟩
  | backFilled i result => exact ⟨[], backFilled_asks hknown h⟩
  | assigned i => exact assigned_asks hknown h

/-! ## The layer of the workers -/

/-- The requests are those of the jobs, and settled exactly where the jobs are answered. -/
structure Linked (s : State) : Prop where
  marked : Marked s.subscription
  count : s.requests.length = s.subscription.jobs
  heights : ∀ job ∈ promised s.subscription, ∃ request, s.requests[job.id]? = some request ∧
    request.blockNumber = job.height
  answered : ∀ r, r ∈ s.subscription.answered ↔
    ∃ request, s.requests[r]? = some request ∧ request.settled.isSome = true

theorem Linked.init : Linked State.init where
  marked := rfl
  count := rfl
  heights _ h := by cases h
  answered r := by simp [State.init, Subscription.State.init]

/-- The subscription knows the jobs whose promises are kept. -/
theorem Linked.known {s : State} (h : Linked s) : Known s.subscription := by
  intro job hjob
  obtain ⟨request, hget, _⟩ := h.heights job hjob
  rw [← h.count]
  exact (List.getElem?_eq_some_iff.mp hget).1

/-- The requests that an event posts are those of the jobs it creates. -/
theorem Linked.post {s : State} {e : Subscription.Event} (h : Linked s)
    (hasks : Asks s.subscription t jobs) (hm : Marked t) :
    Linked { s with subscription := t, requests := s.requests ++ posted cfg s e t } := by
  have hlength : (posted cfg s e t).length = jobs.length := by
    rw [posted, List.length_mapIdx, hasks.asked]
  refine ⟨hm, ?_, fun job hjob => ?_, fun r => ?_⟩
  · rw [List.length_append, hlength, h.count, hasks.count]
  · rcases hasks.kept job hjob with hold | hnew
    · obtain ⟨request, hget, hnumber⟩ := h.heights job hold
      exact ⟨request, by rw [List.getElem?_append_left (List.getElem?_eq_some_iff.mp hget).1, hget],
        hnumber⟩
    · obtain ⟨k, hk⟩ := List.mem_iff_getElem?.mp hnew
      have hid : job.id = s.subscription.jobs + k := by
        have hids : (jobs.map Job.id)[k]? = (List.range' s.subscription.jobs jobs.length)[k]? := by
          rw [hasks.ids]
        rw [List.getElem?_map, hk, Option.map_some, List.getElem?_range'
          (List.getElem?_eq_some_iff.mp hk).1, Nat.one_mul] at hids
        exact Option.some.inj hids
      rw [List.getElem?_append_right (by rw [hid, h.count]; exact Nat.le_add_right _ _), hid,
        h.count, Nat.add_sub_cancel_left, posted, hasks.asked, List.getElem?_mapIdx, hk,
        Option.map_some]
      exact ⟨_, rfl, rfl⟩
  · rw [hasks.answered, h.answered]
    constructor
    · rintro ⟨request, hget, hsettled⟩
      exact ⟨request, by rw [List.getElem?_append_left (List.getElem?_eq_some_iff.mp hget).1, hget],
        hsettled⟩
    · rintro ⟨request, hget, hsettled⟩
      rcases Nat.lt_or_ge r s.requests.length with hlt | hge
      · rw [List.getElem?_append_left hlt] at hget
        exact ⟨request, hget, hsettled⟩
      · rw [List.getElem?_append_right hge] at hget
        rw [posted_settled (List.mem_of_getElem? hget)] at hsettled
        cases hsettled

/-- A listener keeps the number and a settled promise. -/
structure Listens (listener : Request → Request) : Prop where
  blockNumber : ∀ request, (listener request).blockNumber = request.blockNumber
  settled : ∀ request, request.settled.isSome = true → (listener request).settled.isSome = true

private theorem onMessage_listens (worker : Worker) (callBackId : Int) (message : Settlement) :
    Listens (onMessage worker callBackId message) := by
  refine ⟨fun request => ?_, fun request h => ?_⟩
  · unfold onMessage
    split <;> rfl
  · unfold onMessage
    split
    · rfl
    · exact h

private theorem onError_listens (worker : Worker) (error : Thrown) :
    Listens (onError worker error) := by
  refine ⟨fun request => ?_, fun request h => ?_⟩
  · unfold onError
    split <;> rfl
  · unfold onError
    split
    · rfl
    · exact h

/-- The subscription can take these jobs for answered one after the other. -/
theorem answers_reach {answers : List Nat} (hnodup : answers.Nodup)
    (hnew : ∀ job ∈ answers, job < s.jobs ∧ job ∉ s.answered) :
    (Subscription.machine cfg).Reach Machine.Free s
      { s with answered := s.answered ++ answers } := by
  induction answers generalizing s with
  | nil =>
    rw [List.append_nil]
    exact .refl _ _
  | cons job answers ih =>
    obtain ⟨hfirst, hrest⟩ := List.nodup_cons.mp hnodup
    have hstep : Subscription.step cfg s (.answer job) =
        some { s with answered := s.answered ++ [job] } :=
      if_pos (hnew job List.mem_cons_self)
    have hafter := ih (s := { s with answered := s.answered ++ [job] }) hrest fun other hother => by
      obtain ⟨hlt, hnot⟩ := hnew other (List.mem_cons_of_mem _ hother)
      refine ⟨hlt, fun hmem => ?_⟩
      rcases List.mem_append.mp hmem with hold | hone
      · exact hnot hold
      · obtain rfl := List.mem_singleton.mp hone
        exact hfirst hother
    refine (Machine.Reach.single (e := .answer job) trivial hstep).trans ?_
    simpa only [List.append_assoc, List.singleton_append] using hafter

/-- An event of a worker answers the jobs whose promises it settles. -/
theorem Linked.emit {s : State} {listener : Request → Request} (h : Linked s)
    (hl : Listens listener) : Linked (emit s listener) ∧
      (Subscription.machine cfg).Reach Machine.Free s.subscription
        (emit s listener).subscription := by
  have hsettles : ∀ r, r ∈ (List.range s.requests.length).filter (settles s listener) ↔
      ∃ request, s.requests[r]? = some request ∧ request.settled.isSome = false ∧
        (listener request).settled.isSome = true := by
    intro r
    rw [List.mem_filter, List.mem_range, settles]
    constructor
    · rintro ⟨hlt, hany⟩
      rw [List.getElem?_eq_getElem hlt, Option.any_some, Bool.and_eq_true] at hany
      exact ⟨_, List.getElem?_eq_getElem hlt, by simpa using hany.1, hany.2⟩
    · rintro ⟨request, hget, hpending, hafter⟩
      refine ⟨(List.getElem?_eq_some_iff.mp hget).1, ?_⟩
      rw [hget, Option.any_some, hafter, Bool.and_true, ← Option.not_isSome, hpending]
      rfl
  refine ⟨⟨h.marked, ?_, fun job hjob => ?_, fun r => ?_⟩, answers_reach ?_ fun job hjob => ?_⟩
  · rw [Workers.emit, List.length_map]
    exact h.count
  · obtain ⟨request, hget, hnumber⟩ := h.heights job hjob
    refine ⟨listener request, ?_, (hl.blockNumber request).trans hnumber⟩
    rw [Workers.emit, List.getElem?_map, hget]
    rfl
  · simp only [Workers.emit, List.mem_append, h.answered, hsettles, List.getElem?_map,
      Option.map_eq_some_iff]
    constructor
    · rintro (⟨request, hget, hsettled⟩ | ⟨request, hget, _, hafter⟩)
      · exact ⟨_, ⟨request, hget, rfl⟩, hl.settled request hsettled⟩
      · exact ⟨_, ⟨request, hget, rfl⟩, hafter⟩
    · rintro ⟨_, ⟨request, hget, rfl⟩, hafter⟩
      cases hsettled : request.settled.isSome with
      | true => exact Or.inl ⟨request, hget, hsettled⟩
      | false => exact Or.inr ⟨request, hget, hsettled, hafter⟩
  · exact List.nodup_range.filter _
  · obtain ⟨request, hget, hpending, _⟩ := (hsettles job).mp hjob
    refine ⟨h.count ▸ (List.getElem?_eq_some_iff.mp hget).1, fun hmem => ?_⟩
    obtain ⟨other, hother, hsettled⟩ := (h.answered job).mp hmem
    obtain rfl := Option.some.inj (hget.symm.trans hother)
    rw [hpending] at hsettled
    cases hsettled

/-- Marking a request as answered moves no job. -/
theorem Linked.mark {s : State} {r : Nat} {own : Request} (h : Linked s)
    (hown : s.requests[r]? = some own) :
    Linked { s with requests := s.requests.set r { own with answered := true } } := by
  refine ⟨h.marked, ?_, fun job hjob => ?_, fun k => ?_⟩
  · rw [List.length_set]
    exact h.count
  · obtain ⟨request, hk, hnumber⟩ := h.heights job hjob
    obtain ⟨_, hget⟩ := getElem?_set_answered hown hk
    exact ⟨_, hget, hnumber⟩
  · rw [h.answered]
    constructor
    · rintro ⟨request, hk, hsettled⟩
      obtain ⟨_, hget⟩ := getElem?_set_answered hown hk
      exact ⟨_, hget, hsettled⟩
    · rintro ⟨request, hk, hsettled⟩
      have hlt := (List.getElem?_eq_some_iff.mp hk).1
      rw [List.length_set] at hlt
      have hold := List.getElem?_eq_getElem hlt
      obtain ⟨_, hget⟩ := getElem?_set_answered hown hold
      obtain rfl := Option.some.inj (hget.symm.trans hk)
      exact ⟨_, hold, hsettled⟩

/-- A step with workers is a run of the subscription. -/
theorem step_simulates {s u : State} {e : Event} (h : Linked s) (hs : step cfg s e = some u) :
    Linked u ∧ (Subscription.machine cfg).Reach Machine.Free s.subscription u.subscription := by
  cases e with
  | subscription e =>
    obtain ⟨hagrees, ht⟩ := Option.ite_none_right_eq_some.mp hs
    obtain ⟨t, hstep, rfl⟩ := Option.map_eq_some_iff.mp ht
    have hno : ∀ job, e ≠ .answer job := by
      rintro job rfl
      exact hagrees
    obtain ⟨jobs, hasks⟩ := step_asks h.marked h.known hno hstep
    exact ⟨h.post hasks ((Subscription.step_effect h.marked hstep).marked h.marked),
      .single trivial hstep⟩
  | tick now =>
    obtain ⟨_, ht⟩ := Option.ite_none_right_eq_some.mp hs
    obtain rfl := Option.some.inj ht
    exact ⟨⟨h.marked, h.count, h.heights, h.answered⟩, .refl _ _⟩
  | message r result =>
    simp only [step, message] at hs
    split at hs
    · cases hs
    · rename_i own hown
      split at hs
      · cases hs
      · rename_i worker hworker
        obtain ⟨_, ht⟩ := Option.ite_none_right_eq_some.mp hs
        obtain rfl := Option.some.inj ht
        exact (h.mark hown).emit (onMessage_listens _ _ _)
  | error worker error =>
    obtain ⟨_, ht⟩ := Option.ite_none_right_eq_some.mp hs
    obtain rfl := Option.some.inj ht
    exact h.emit (onError_listens _ _)
  | exit workerId =>
    obtain ⟨_, ht⟩ := Option.ite_none_right_eq_some.mp hs
    obtain rfl := Option.some.inj ht
    exact ⟨⟨h.marked, h.count, h.heights, h.answered⟩, .refl _ _⟩

/-- A run with workers is a run of the subscription. -/
theorem workers_simulate {es : List Event} {s : State}
    (h : (machine cfg).Run Machine.Free .init es s) : Linked s ∧
      (Subscription.machine cfg).Reach Machine.Free Subscription.State.init s.subscription :=
  h.simulate State.subscription (fun _ _ _ hl _ hs => step_simulates hl hs) Linked.init

/-- Where promises are settled by their own messages, `processQueue` gets the answer for the block
number that the job it awaits was asked for, or the error of the worker. -/
theorem processed_own {s u : State} {result : Except Thrown Block} (h : Linked s) (hr : Routed s)
    (hs : step cfg s (.subscription (.processed result)) = some u) :
    ∃ job request, s.subscription.processing = some job ∧
      s.requests[job.id]? = some request ∧ request.blockNumber = job.height ∧
      (request.settled = some (.message job.id result) ∨
        ∃ raised, request.settled = some (.failed raised)) := by
  obtain ⟨hgives, ht⟩ := Option.ite_none_right_eq_some.mp hs
  obtain ⟨t, hstep, _⟩ := Option.map_eq_some_iff.mp ht
  obtain ⟨job, hp, _⟩ := Subscription.processed_cases h.marked hstep
  obtain ⟨request, hget, hnumber⟩ :=
    h.heights job (mem_promised.mpr (Or.inl (by rw [hp]; exact List.mem_singleton_self _)))
  have hresult := hgives job hp
  rw [hget, Option.bind_some, Option.map_eq_some_iff] at hresult
  obtain ⟨settlement, hsettled, hgiven⟩ := hresult
  refine ⟨job, request, hp, hget, hnumber, ?_⟩
  cases settlement with
  | message answered answer =>
    obtain rfl := hr job.id request hget answered answer hsettled
    obtain rfl : answer = result := hgiven
    exact Or.inl hsettled
  | failed raised => exact Or.inr ⟨raised, hsettled⟩

end ChainIndexer.Workers
