import ChainIndexer.Subscription.Step

/-!
# What one step does to the queue and to the observer

The two loops meet in the queue: the handlers of log events append jobs for the one,
the activations of `addWorkerJobToQueue` for the other, and either loop shifts the
first job whatever it was queued for. The rest of a step only moves activations.
-/

namespace ChainIndexer.Subscription

variable {cfg : Config} {s t u : State}

/-- The flag tells whether `processQueue` is suspended. -/
def Marked (s : State) : Prop := s.processingQueue = s.processing.isSome

/-- The job `processQueue` awaits and the jobs behind it. -/
def waiting (s : State) : List Job := s.processing.toList ++ s.queue

/-- The height of a job as far as the order of blocks goes, which begins at zero. -/
def Job.level (job : Job) : Nat := job.height.toNat

/-- The answer with the block of the height asked for is at the level of the job. -/
theorem Job.level_eq {job : Job} {n : Nat} (h : n = job.height) : job.level = n := by
  rw [level, ← h, Int.toNat_natCast]

theorem map_level_eq {jobs : List Job} {levels : List Nat}
    (h : jobs.map Job.height = levels.map Nat.cast) : jobs.map Job.level = levels := by
  have hlevels := congrArg (List.map Int.toNat) h
  rw [List.map_map, List.map_map] at hlevels
  exact hlevels.trans (List.map_id levels)

/-- From the first state to the second, these jobs were queued for `processQueue`, which may
have shifted one, and nothing else changed. -/
structure Requested (s t : State) (jobs : List Job) : Prop where
  frame : t = { s with
    jobs := t.jobs, queue := t.queue, processing := t.processing,
    processingQueue := t.processingQueue }
  waiting : waiting t = waiting s ++ jobs
  marked : Marked t
  /-- Processing starts only where it was idle and no error has ended it. -/
  processing : t.processing = s.processing ∨ s.fatalError = false ∧ s.processing = none

/-- Jobs at these heights, numbered from the count on. -/
def jobsFrom (source : Source) : Nat → List Int → List Job
  | _, [] => []
  | count, height :: heights => ⟨count, height, source⟩ :: jobsFrom source (count + 1) heights

@[simp] theorem jobsFrom_map_height (source : Source) (count : Nat) (heights : List Int) :
    (jobsFrom source count heights).map Job.height = heights := by
  induction heights generalizing count with
  | nil => rfl
  | cons height heights ih => rw [jobsFrom, List.map_cons, ih]

@[simp] theorem length_jobsFrom (source : Source) (count : Nat) (heights : List Int) :
    (jobsFrom source count heights).length = heights.length := by
  rw [← List.length_map Job.height, jobsFrom_map_height]

/-- The jobs are for the heights that were asked for. -/
theorem jobsFrom_map_level (source : Source) (count : Nat) (heights : List Int) :
    (jobsFrom source count heights).map Job.level = heights.map Int.toNat := by
  calc (jobsFrom source count heights).map Job.level
    _ = ((jobsFrom source count heights).map Job.height).map Int.toNat := by
      rw [List.map_map]
      rfl
    _ = heights.map Int.toNat := by rw [jobsFrom_map_height]

/-- They are numbered from the count on. -/
theorem jobsFrom_map_id (source : Source) (count : Nat) (heights : List Int) :
    (jobsFrom source count heights).map Job.id = List.range' count heights.length := by
  induction heights generalizing count with
  | nil => rfl
  | cons height heights ih => rw [jobsFrom, List.map_cons, ih, List.length_cons, List.range'_succ]

/-- They have the source they were asked from. -/
theorem source_of_mem_jobsFrom {source : Source} {count : Nat} {heights : List Int} {job : Job}
    (h : job ∈ jobsFrom source count heights) : job.source = source := by
  induction heights generalizing count with
  | nil => cases h
  | cons height heights ih =>
    rcases List.mem_cons.mp h with rfl | h
    · rfl
    · exact ih h

/-- The jobs asked for one after the other, at these heights. -/
theorem requests_eq (source : Source) (heights : List Int) (s : State) :
    heights.foldl (fun s height => request s height source) s = { s with
      jobs := s.jobs + heights.length
      queue := s.queue ++ jobsFrom source s.jobs heights } := by
  induction heights generalizing s with
  | nil => simp [jobsFrom]
  | cons height heights ih =>
    rw [List.foldl_cons, ih]
    simp [request, jobsFrom, Nat.add_assoc, Nat.add_comm 1]

/-- The head of the loop of `processQueue` leaves the queued jobs waiting. -/
theorem runQueue_requested (s : State) (h : s.processingQueue = true) :
    Requested { s with processing := none, processingQueue := false } (runQueue s) [] := by
  unfold runQueue
  split
  · rename_i job rest hq
    split
    · rename_i hc
      rw [Bool.and_eq_true, Bool.not_eq_true'] at hc
      exact ⟨rfl, by simp [waiting, hq], h, Or.inr ⟨hc.1, rfl⟩⟩
    · exact ⟨rfl, (List.append_nil _).symm, rfl, Or.inl rfl⟩
  · exact ⟨rfl, (List.append_nil _).symm, rfl, Or.inl rfl⟩

/-- The loop of `processQueue` asks for no block. -/
theorem runQueue_jobs (s : State) : (runQueue s).jobs = s.jobs := by
  unfold runQueue
  split
  · split
    · rfl
    · rfl
  · rfl

/-- The head of `processQueue` calls nobody. -/
theorem runQueue_calls (s : State) : (runQueue s).calls = s.calls := by
  unfold runQueue
  split
  · split
    · rfl
    · rfl
  · rfl

/-- Nor does that of `backFillBlocks`. -/
theorem runBackFill_calls (s : State) (backFillingId : Nat) :
    (runBackFill s backFillingId).calls = s.calls := by
  unfold runBackFill
  split
  · split
    · rfl
    · rfl
  · rfl

/-- Jobs queued are processed unless that is being done. -/
theorem enqueued_requested (hm : Marked s) (count : Nat) (jobs : List Job) :
    Requested s
      (if s.processingQueue then { s with jobs := count, queue := s.queue ++ jobs }
        else processQueue { s with jobs := count, queue := s.queue ++ jobs }) jobs := by
  split
  · exact ⟨rfl, (List.append_assoc _ _ _).symm, hm, Or.inl rfl⟩
  · rename_i hidle
    rw [Bool.not_eq_true] at hidle
    have hnone : s.processing = none := by
      rw [← Option.isNone_iff_eq_none, ← Option.isSome_eq_false_iff, ← hm, hidle]
    have hrun := runQueue_requested { s with
      jobs := count, queue := s.queue ++ jobs, processingQueue := true } rfl
    refine ⟨hrun.frame, hrun.waiting.trans ?_, hrun.marked, ?_⟩
    · simp [waiting, hnone]
    · exact hrun.processing.imp (fun hp => hp.trans hnone.symm) fun hp => ⟨hp.1, hnone⟩

/-- The jobs `backFillBlocks` starts with are for the heights from the next block on. -/
theorem assignments_eq (backFillingId : Nat) (places : List Nat) (s : State) :
    ∃ assignments,
      places.foldl (fun s i => addWorkerJobToQueue s (s.nextBlock + i) backFillingId) s = { s with
        jobs := s.jobs + places.length
        queue := s.queue ++ jobsFrom .backFillBlocks s.jobs
          ((places.map (s.nextBlock + ·)).map Nat.cast)
        assignments := assignments } := by
  induction places generalizing s with
  | nil => exact ⟨s.assignments, by simp [jobsFrom]⟩
  | cons i places ih =>
    obtain ⟨assignments, heq⟩ := ih (addWorkerJobToQueue s (s.nextBlock + i) backFillingId)
    refine ⟨assignments, ?_⟩
    rw [List.foldl_cons, heq]
    simp [addWorkerJobToQueue, request, jobsFrom, Nat.add_assoc, Nat.add_comm 1]

/-- The loop that may shift a job when an event happens. -/
def Event.shifts : Event → Option Source
  | .data .. | .processed _ => some .processQueue
  | .latest .. | .backFilled .. => some .backFillBlocks
  | .subscribe _ | .unsubscribe | .finalized .. | .woken _ | .unsubscribed .. | .timeout _
  | .failed .. | .answer _ | .assigned _ => none

/-- The block that `processQueue` gets from a worker when an event happens. -/
def Event.block : Event → Option Block
  | .processed (.ok block) => some block
  | .processed (.error _) | .subscribe _ | .unsubscribe | .finalized .. | .latest .. | .woken _
  | .unsubscribed .. | .timeout _ | .data .. | .failed .. | .answer _ | .backFilled ..
  | .assigned _ => none

/-- The event continues the loop of `backFillBlocks`. -/
def Event.backFills : Event → Bool
  | .backFilled .. => true
  | .processed _ | .subscribe _ | .unsubscribe | .finalized .. | .latest .. | .woken _
  | .unsubscribed .. | .timeout _ | .data .. | .failed .. | .answer _ | .assigned _ => false

/-- The second state differs from the first only where activations are suspended, in what was
called and in the next block. -/
structure Quiet (s t : State) : Prop where
  fatalError : t.fatalError = s.fatalError := by rfl
  lastReceivedBlockNumber : t.lastReceivedBlockNumber = s.lastReceivedBlockNumber := by rfl
  lastEmittedBlock : t.lastEmittedBlock = s.lastEmittedBlock := by rfl
  queue : t.queue = s.queue := by rfl
  processing : t.processing = s.processing := by rfl
  processingQueue : t.processingQueue = s.processingQueue := by rfl
  dropped : t.dropped = s.dropped := by rfl
  seen : t.seen = s.seen := by rfl

/-- What an event can do to the queue, the check and the observer. -/
inductive Effect (s : State) : Event → State → Prop
  /-- Activations move; the observer may hear of errors. -/
  | quiet {e t} (errors : List BaseError) : e.block = none → Quiet s t →
    t.calls = s.calls ++ errors.map Call.error → Effect s e t
  /-- `unsubscribe` clears the queue. -/
  | clear {e t} : e.block = none →
    Quiet { s with queue := [], dropped := s.dropped || !s.queue.isEmpty } t →
    t.calls = s.calls → Effect s e t
  /-- The catch block of `backFillBlocks`. -/
  | abort {e t} (error : BaseError) : e.block = none → Quiet { s with fatalError := true } t →
    t.calls = s.calls ++ [.error error] → Effect s e t
  /-- `subscribe` resets the object. -/
  | reset {i caller number t} {startBlock : Nat} :
    s.tasks[i]? = some (.finalized caller startBlock) →
    Quiet { s with
      queue := [], fatalError := false, lastReceivedBlockNumber := (startBlock : Int) - 1,
      dropped := false } t →
    t.calls = s.calls → Effect s (.finalized i (.ok number)) t
  /-- Jobs are queued by `addWorkerJobToQueue`, and the loop of `backFillBlocks` may pass on a
  block and shift a job. -/
  | backFill {e t} (blocks : List Block) (jobs taken rest : List Job) : e.block = none →
    (blocks = [] ∨ e.backFills = true) →
    (∀ job ∈ jobs, job.source = .backFillBlocks) → s.queue ++ jobs = taken ++ rest →
    (taken ≠ [] → taken.length = 1 ∧ e.shifts = some .backFillBlocks) →
    Quiet { s with queue := rest } t →
    t.calls = s.calls ++ blocks.map (.next .backFillBlocks) → Effect s e t
  /-- The handler of a log event queues the missed blocks and the one it tells of. -/
  | request {subscription log blockHash blockNumber t} (jobs : List Job) :
    wellFormed s log = some (blockHash, blockNumber) →
    jobs.map Job.level = (missedBlocks s blockNumber ++ [blockNumber]).map Int.toNat →
    (∀ job ∈ jobs, job.source = .processQueue) →
    Requested { s with
      lastBlockHash := blockHash, lastReceivedBlockNumber := blockNumber } t jobs →
    Effect s (.data subscription log) t
  /-- A job of `processQueue` fails. -/
  | fail {job error} : s.processing = some job →
    Effect s (.processed (.error error))
      (caught s (.error (BlockProducerError.createUnknown error)))
  /-- `processQueue` reports a re-org instead of a block. -/
  | reorg {job block} : s.processing = some job → isReOrgedMissed s block = true →
    Effect s (.processed (.ok block))
      (caught { s with nextBlock := block.number + 1, seen := s.seen ++ [block] } (.reorg block))
  /-- `processQueue` passes a block on. -/
  | emit {job block t} : s.processing = some job → isReOrgedMissed s block = false →
    Requested { s with
      nextBlock := block.number + 1, seen := s.seen ++ [block],
      calls := s.calls ++ [.next .processQueue block],
      lastEmittedBlock := some ⟨block.number, block.hash⟩, processing := none,
      processingQueue := false } t [] →
    Effect s (.processed (.ok block)) t

/-- A step that only moves activations. -/
theorem Effect.still {e : Event} (he : e.block = none) (h : Quiet s t)
    (hc : t.calls = s.calls) : Effect s e t :=
  .quiet [] he h (by rw [hc, List.map_nil, List.append_nil])

/-- An error that is thrown is one of the effects. -/
theorem thrown_effect {e : Event} (he : e.block = none) (i : Nat) (caller : Caller)
    (error : BaseError) : Effect s e (thrown (finish s i) caller error) := by
  cases caller with
  | client => exact .still he {} rfl
  | backFillBlocks => exact .abort error he {} rfl
  | checkIfLive => exact .quiet [restartError error] he {} rfl

/-- The loop of `backFillBlocks` shifts at most one job, and only for its own events. -/
theorem runBackFill_effect {e : Event} (blocks : List Block) (jobs : List Job) (id : Nat)
    (hb : e.block = none) (hblocks : blocks = [] ∨ e.backFills = true)
    (he : e.shifts = some .backFillBlocks)
    (hjobs : ∀ job ∈ jobs, job.source = .backFillBlocks)
    (hq : u.queue = s.queue ++ jobs) (hu : Quiet { s with queue := u.queue } u)
    (hc : u.calls = s.calls ++ blocks.map (.next .backFillBlocks)) :
    Effect s e (runBackFill u id) := by
  unfold runBackFill
  split
  · rename_i job rest hcons
    split
    · refine .backFill blocks jobs [job] rest hb hblocks hjobs (hq.symm.trans hcons)
        (fun _ => ⟨rfl, he⟩) ?_ hc
      exact { hu with queue := rfl }
    · exact .backFill blocks jobs [] u.queue hb hblocks hjobs hq.symm (absurd rfl) { hu with } hc
  · exact .backFill blocks jobs [] u.queue hb hblocks hjobs hq.symm (absurd rfl) { hu with } hc

/-- So is the answer with the latest block. -/
theorem latest_effect {i now : Nat} {result : Except Thrown Nat}
    (h : latest cfg s i now result = some t) : Effect s (.latest i now result) t := by
  unfold latest at h
  split at h
  · obtain rfl := Option.some.inj h
    cases result with
    | error error => exact thrown_effect rfl i _ _
    | ok latestBlockNumber =>
      dsimp only
      split
      · exact .still rfl {} rfl
      · split
        · obtain ⟨assignments, heq⟩ := assignments_eq now (List.range cfg.workers)
            { finish s i with activeBackFillingId := some now }
          unfold backFillBlocks
          dsimp only
          rw [heq]
          exact runBackFill_effect [] _ now rfl (Or.inl rfl) rfl
            (fun _ => source_of_mem_jobsFrom) rfl {} (List.append_nil _).symm
        · exact .still rfl {} rfl
  · cases h

/-- So is the end of an unsubscription. -/
theorem unsubscribed_effect {i : Nat} {result : Except Thrown Unit}
    (h : unsubscribed s i result = some t) : Effect s (.unsubscribed i result) t := by
  have hclosed : ∀ subscription, Quiet s (closed (finish s i) subscription) ∧
      (closed (finish s i) subscription).calls = s.calls := by
    intro subscription
    unfold closed
    split
    · exact ⟨{}, rfl⟩
    · exact ⟨{}, rfl⟩
  unfold unsubscribed at h
  split at h
  · obtain rfl := Option.some.inj h
    exact .still rfl (hclosed _).1 (hclosed _).2
  · obtain rfl := Option.some.inj h
    exact .still rfl {} rfl
  · obtain rfl := Option.some.inj h
    exact .still rfl { (hclosed _).1 with } (hclosed _).2
  · obtain rfl := Option.some.inj h
    exact thrown_effect rfl i .checkIfLive _
  · cases h

private theorem timeout_effect {i : Nat} (h : timeout s i = some t) : Effect s (.timeout i) t := by
  unfold timeout at h
  split at h
  · obtain rfl := Option.some.inj h
    dsimp only
    split
    · exact .clear rfl {} rfl
    · exact .still rfl {} rfl
  · cases h

/-- A log event that is malformed or repeats the last hash is ignored. Otherwise the missed
blocks and its own are queued. -/
theorem data_cases {subscription : Nat} {log : Log} (hm : Marked s)
    (h : data s subscription log = some t) :
    subscription ∈ s.listening ∧
      (t = s ∧ (∀ blockHash blockNumber, wellFormed s log = some (blockHash, blockNumber) →
          s.lastBlockHash = blockHash) ∨
        ∃ blockHash blockNumber, wellFormed s log = some (blockHash, blockNumber) ∧
          s.lastBlockHash ≠ blockHash ∧
          t.jobs = s.jobs + (missedBlocks s blockNumber ++ [blockNumber]).length ∧
          Requested { s with
            lastBlockHash := blockHash, lastReceivedBlockNumber := blockNumber } t
            (jobsFrom .processQueue s.jobs (missedBlocks s blockNumber ++ [blockNumber]))) := by
  obtain ⟨hmem, ht⟩ := Option.ite_none_right_eq_some.mp h
  obtain rfl := Option.some.inj ht
  refine ⟨hmem, ?_⟩
  split
  · rename_i blockHash blockNumber hlog
    split
    · rename_i hsame
      refine Or.inl ⟨rfl, fun _ _ heq => ?_⟩
      rw [hlog] at heq
      cases heq
      exact hsame
    · rename_i hnew
      have heq : request { enqueueMissedBlocks s blockNumber with
            lastBlockHash := blockHash, lastReceivedBlockNumber := blockNumber } blockNumber
            .processQueue = { s with
          lastBlockHash := blockHash
          lastReceivedBlockNumber := blockNumber
          jobs := s.jobs + (missedBlocks s blockNumber ++ [blockNumber]).length
          queue := s.queue ++
            jobsFrom .processQueue s.jobs (missedBlocks s blockNumber ++ [blockNumber]) } := by
        have hall := requests_eq .processQueue (missedBlocks s blockNumber ++ [blockNumber]) s
        rw [List.foldl_append] at hall
        exact congrArg (fun u : State => { u with
          lastBlockHash := blockHash, lastReceivedBlockNumber := blockNumber }) hall
      refine Or.inr ⟨blockHash, blockNumber, hlog, hnew, ?_⟩
      have hreq := enqueued_requested (s := { s with
        lastBlockHash := blockHash, lastReceivedBlockNumber := blockNumber }) hm
        (s.jobs + (missedBlocks s blockNumber ++ [blockNumber]).length)
        (jobsFrom .processQueue s.jobs (missedBlocks s blockNumber ++ [blockNumber]))
      dsimp only
      rw [heq]
      refine ⟨?_, hreq⟩
      split
      · rfl
      · exact runQueue_jobs _
  · rename_i hnone
    exact Or.inl ⟨rfl, fun _ _ heq => by simp [hnone] at heq⟩

private theorem data_effect {subscription : Nat} {log : Log} (hm : Marked s)
    (h : data s subscription log = some t) : Effect s (.data subscription log) t := by
  obtain ⟨_, ⟨rfl, _⟩ | ⟨_, _, hlog, _, _, hr⟩⟩ := data_cases hm h
  · exact .still rfl {} rfl
  · exact .request _ hlog (jobsFrom_map_level _ _ _) (fun _ => source_of_mem_jobsFrom) hr

/-- `processQueue` ends with an error, reports a re-org, or passes a block on. -/
theorem processed_cases {result : Except Thrown Block} (hm : Marked s)
    (h : processed s result = some t) : ∃ job, s.processing = some job ∧
      ((∃ error, result = .error error ∧
          t = caught s (.error (BlockProducerError.createUnknown error))) ∨
        ∃ block, result = .ok block ∧
          (isReOrgedMissed s block = true ∧ t = caught
              { s with nextBlock := block.number + 1, seen := s.seen ++ [block] } (.reorg block) ∨
            isReOrgedMissed s block = false ∧ t.jobs = s.jobs ∧ Requested { s with
              nextBlock := block.number + 1, seen := s.seen ++ [block],
              calls := s.calls ++ [.next .processQueue block],
              lastEmittedBlock := some ⟨block.number, block.hash⟩, processing := none,
              processingQueue := false } t [])) := by
  unfold processed at h
  split at h
  · rename_i job hp
    obtain ⟨_, ht⟩ := Option.ite_none_right_eq_some.mp h
    obtain rfl := Option.some.inj ht
    refine ⟨job, hp, ?_⟩
    cases result with
    | error error => exact Or.inl ⟨error, rfl, rfl⟩
    | ok block =>
      have hflag : s.processingQueue = true := by
        rw [hm, hp]
        rfl
      refine Or.inr ⟨block, rfl, ?_⟩
      dsimp only
      split
      · rename_i hre
        exact Or.inl ⟨hre, rfl⟩
      · rename_i hre
        rw [Bool.not_eq_true] at hre
        exact Or.inr ⟨hre, runQueue_jobs _, runQueue_requested { s with
          nextBlock := block.number + 1
          seen := s.seen ++ [block]
          calls := s.calls ++ [.next .processQueue block]
          lastEmittedBlock := some ⟨block.number, block.hash⟩ } hflag⟩
  · cases h

/-- So is an answer to `processQueue`. -/
theorem processed_effect {result : Except Thrown Block} (hm : Marked s)
    (h : processed s result = some t) : Effect s (.processed result) t := by
  obtain ⟨job, hp, ⟨error, rfl, rfl⟩ | ⟨block, rfl, ⟨hre, rfl⟩ | ⟨hre, _, hr⟩⟩⟩ :=
    processed_cases hm h
  · exact .fail hp
  · exact .reorg hp hre
  · exact .emit hp hre hr

private theorem backFilled_effect {i : Nat} {result : Except Thrown Block}
    (h : backFilled s i result = some t) : Effect s (.backFilled i result) t := by
  unfold backFilled at h
  split at h
  · rename_i backFillingId job _
    obtain ⟨_, ht⟩ := Option.ite_none_right_eq_some.mp h
    obtain rfl := Option.some.inj ht
    cases result with
    | error error => exact thrown_effect rfl i _ _
    | ok block =>
      dsimp only
      split
      · exact .still rfl {} rfl
      · exact runBackFill_effect [block] [] backFillingId rfl (Or.inr rfl) rfl nofun
          (List.append_nil _).symm {} rfl
  · cases h

private theorem assigned_effect {i : Nat} (h : assigned s i = some t) :
    Effect s (.assigned i) t := by
  unfold assigned at h
  split at h
  · obtain rfl := Option.some.inj h
    split
    · exact .still rfl {} rfl
    · exact .still rfl {} rfl
  · rename_i backFillingId job _
    obtain ⟨_, ht⟩ := Option.ite_none_right_eq_some.mp h
    obtain rfl := Option.some.inj ht
    split
    · refine .backFill [] [⟨s.jobs, s.nextBlock + s.queue.length + 1, .backFillBlocks⟩] []
        (s.queue ++ [⟨s.jobs, s.nextBlock + s.queue.length + 1, .backFillBlocks⟩]) rfl
        (Or.inl rfl) ?_ rfl (absurd rfl) {} (List.append_nil _).symm
      rw [List.forall_mem_singleton]
    · exact .still rfl {} rfl
  · cases h

/-- Every step has one of these effects. -/
theorem step_effect {e : Event} (hm : Marked s) (h : step cfg s e = some t) : Effect s e t := by
  cases e with
  | subscribe startBlock =>
    obtain rfl := Option.some.inj h
    exact .still rfl {} rfl
  | unsubscribe =>
    obtain rfl := Option.some.inj h
    exact .clear rfl {} rfl
  | finalized i result =>
    change finalized cfg s i result = some t at h
    unfold finalized at h
    split at h
    · rename_i caller startBlock hi
      obtain rfl := Option.some.inj h
      cases result with
      | error error => exact thrown_effect rfl i _ _
      | ok number => exact .reset hi {} rfl
    · cases h
  | latest i now result => exact latest_effect h
  | woken i =>
    change woken s i = some t at h
    unfold woken at h
    split at h
    · obtain rfl := Option.some.inj h
      exact .still rfl {} rfl
    · cases h
  | unsubscribed i result => exact unsubscribed_effect h
  | timeout i => exact timeout_effect h
  | data subscription log => exact data_effect hm h
  | failed subscription error =>
    obtain ⟨_, ht⟩ := Option.ite_none_right_eq_some.mp h
    obtain rfl := Option.some.inj ht
    exact .quiet [_] rfl {} rfl
  | answer job =>
    obtain ⟨_, ht⟩ := Option.ite_none_right_eq_some.mp h
    obtain rfl := Option.some.inj ht
    exact .still rfl {} rfl
  | processed result => exact processed_effect hm h
  | backFilled i result => exact backFilled_effect h
  | assigned i => exact assigned_effect h

/-- The flag is kept exact by every step. -/
theorem Effect.marked {e : Event} (hm : Marked s) (h : Effect s e t) : Marked t := by
  have hquiet : ∀ {u : State}, Marked u → Quiet u t → Marked t := by
    intro u hu hq
    unfold Marked
    rw [hq.processingQueue, hq.processing]
    exact hu
  cases h with
  | quiet _ _ hq _ => exact hquiet hm hq
  | clear _ hq _ => exact hquiet (by exact hm) hq
  | abort _ _ hq _ => exact hquiet (by exact hm) hq
  | reset _ hq _ => exact hquiet (by exact hm) hq
  | backFill _ _ _ _ _ _ _ _ _ hq _ => exact hquiet (by exact hm) hq
  | request _ _ _ _ hr => exact hr.marked
  | fail _ => rfl
  | reorg _ _ => rfl
  | emit _ _ hr => exact hr.marked

end ChainIndexer.Subscription
