import ChainIndexer.Core.Observe
import ChainIndexer.Subscription.Tracked

/-!
# Back filling alone

The height after the queued ones is never stored. It is computed from the next block
and the length of the queue, which is right as long as the loop awaits the job for the
next block. A record beside the state keeps the calls of `getBlockFromWorker` and of
the observer, each of the latter with the job that the loop awaited.
-/

namespace ChainIndexer.Subscription

variable {cfg : Config} {s₀ s t u : State} {backFillingId : Nat}

/-- The events of a back filling that nothing else interferes with and that meets no error. -/
def FillsAlone (_ : State) : Event → Prop
  | .answer _ | .assigned _ | .backFilled _ (.ok _) => True
  | .subscribe _ | .unsubscribe | .finalized .. | .latest .. | .woken _ | .unsubscribed ..
  | .timeout _ | .data .. | .failed .. | .processed _ | .backFilled _ (.error _) => False

instance (s : State) : (e : Event) → Decidable (FillsAlone s e)
  | .answer _ | .assigned _ | .backFilled _ (.ok _) => .isTrue trivial
  | .subscribe _ | .unsubscribe | .finalized .. | .latest .. | .woken _ | .unsubscribed ..
  | .timeout _ | .data .. | .failed .. | .processed _ | .backFilled _ (.error _) => .isFalse id

/-- The queue is empty, and no loop of `backFillBlocks` is left from before. -/
structure Vacant (s : State) : Prop where
  queue : s.queue = []
  fatalError : s.fatalError = false
  tasks : ∀ task ∈ s.tasks, task.job = none

/-- The jobs that loops of `backFillBlocks` await, and the queued ones. -/
def held (s : State) : List Job := s.tasks.filterMap Task.job ++ s.queue

/-- The jobs that have been created from the first state to the second. -/
def requestedBy (s t : State) : List Job := (held t).filter fun job => s.jobs ≤ job.id

/-- The job whose await has settled. -/
def Event.awaited (s : State) : Event → Option Job
  | .backFilled i _ => s.tasks[i]?.bind Task.job
  | .answer _ | .assigned _ | .subscribe _ | .unsubscribe | .finalized .. | .latest .. | .woken _
  | .unsubscribed .. | .timeout _ | .data .. | .failed .. | .processed _ => none

/-- What has been seen of a back filling. -/
structure Progress where
  /-- The calls of `getBlockFromWorker`. -/
  requested : List Job
  /-- The calls of the observer, each with the job that the loop awaited. -/
  passed : List (Option Job × Call)

/-- `backFillBlocks` has run up to its first await. -/
def Progress.start (s t : State) : Progress := ⟨requestedBy s t, []⟩

def Progress.record (s : State) (e : Event) (t : State) (p : Progress) : Progress where
  requested := p.requested ++ requestedBy s t
  passed := p.passed ++ (t.calls.drop s.calls.length).map fun call => (e.awaited s, call)

/-- A block passed on by the loop, with the job it answers. -/
def passing (emission : Job × Block) : Option Job × Call :=
  (some emission.1, .next .backFillBlocks emission.2)

/-- These blocks have been passed on, and these jobs are awaited or queued. -/
structure Filled (cfg : Config) (s₀ s : State) (p : Progress) (emitted : List (Job × Block))
    (jobs : List Job) : Prop where
  ids : p.requested.map Job.id = List.range' s₀.jobs p.requested.length
  count : s.jobs = s₀.jobs + p.requested.length
  heights : p.requested.map Job.height =
    (List.range' s₀.nextBlock p.requested.length).map Nat.cast
  calls : s.calls = s₀.calls ++ p.passed.map Prod.snd
  passed : p.passed = emitted.map passing
  order : emitted.map Prod.fst ++ jobs = p.requested
  next : s.nextBlock = s₀.nextBlock + emitted.length
  finalized : s.lastFinalizedBlock = s₀.lastFinalizedBlock
  fatalError : s.fatalError = false
  /-- The last height requested and the last one passed on. -/
  highest : (s₀.nextBlock + p.requested.length : Int) - 1 ≤
    max s₀.lastFinalizedBlock (s₀.nextBlock + cfg.workers - 1)
  last : emitted ≠ [] → (s.nextBlock : Int) - 1 ≤ s₀.lastFinalizedBlock

/-- The loop is suspended, or it has ended and subscribes again. -/
inductive Stage (s₀ : State) (backFillingId : Nat) (s : State) : List Job → Prop
  | awaiting {job} : s.activeBackFillingId = some backFillingId →
    s.tasks = s₀.tasks ++ [.backFill backFillingId job] →
    s.nextBlock ≤ s₀.lastFinalizedBlock → Stage s₀ backFillingId s (job :: s.queue)
  | ended : s.activeBackFillingId = none →
    s.tasks = s₀.tasks ++ [.finalized .backFillBlocks s.nextBlock] →
    Stage s₀ backFillingId s s.queue

theorem Vacant.held_append (h : Vacant s₀) (task : Task) (jobs : List Job) :
    (s₀.tasks ++ [task]).filterMap Task.job ++ jobs = task.job.toList ++ jobs := by
  have hnone : s₀.tasks.filterMap Task.job = [] := List.filterMap_eq_nil_iff.mpr h.tasks
  rw [List.filterMap_append, hnone]
  cases htask : task.job with
  | none => simp [htask]
  | some job => simp [htask]

/-- The jobs of a stage are those that the object holds. -/
theorem Stage.held_eq {jobs : List Job} (h : Stage s₀ backFillingId s jobs) (h₀ : Vacant s₀) :
    held s = jobs := by
  cases h with
  | awaiting _ htasks _ => rw [held, htasks, h₀.held_append, Task.job, Option.toList_some]; rfl
  | ended _ htasks => rw [held, htasks, h₀.held_append, Task.job, Option.toList_none]; rfl

/-- Nothing that is kept reads where the loop is suspended. -/
theorem Filled.congr {p : Progress} {emitted : List (Job × Block)} {jobs : List Job}
    (h : Filled cfg s₀ s p emitted jobs) (hjobs : t.jobs = s.jobs) (hcalls : t.calls = s.calls)
    (hnext : t.nextBlock = s.nextBlock) (hfinalized : t.lastFinalizedBlock = s.lastFinalizedBlock)
    (hfatal : t.fatalError = s.fatalError) : Filled cfg s₀ t p emitted jobs where
  ids := h.ids
  count := hjobs.trans h.count
  heights := h.heights
  calls := hcalls.trans h.calls
  passed := h.passed
  order := h.order
  next := hnext.trans h.next
  finalized := hfinalized.trans h.finalized
  fatalError := hfatal.trans h.fatalError
  highest := h.highest
  last := by
    rw [hnext]
    exact h.last

/-- At its head the loop awaits the next job, or ends. -/
theorem runBackFill_filled {p : Progress} {emitted : List (Job × Block)}
    (h : Filled cfg s₀ u p emitted u.queue) (hactive : u.activeBackFillingId = some backFillingId)
    (htasks : u.tasks = s₀.tasks) :
    Filled cfg s₀ (runBackFill u backFillingId) p emitted u.queue ∧
      Stage s₀ backFillingId (runBackFill u backFillingId) u.queue := by
  have hend : Filled cfg s₀ (subscribe { u with activeBackFillingId := none } .backFillBlocks
        u.nextBlock) p emitted u.queue ∧
      Stage s₀ backFillingId
        (subscribe { u with activeBackFillingId := none } .backFillBlocks u.nextBlock)
        u.queue := by
    refine ⟨h.congr rfl rfl rfl rfl rfl, .ended rfl ?_⟩
    change u.tasks ++ [_] = s₀.tasks ++ [_]
    rw [htasks]
    rfl
  unfold runBackFill
  split
  · rename_i job rest hq
    split
    · rename_i hle
      refine ⟨h.congr rfl rfl rfl rfl rfl, ?_⟩
      rw [hq]
      refine .awaiting hactive ?_ ?_
      · change u.tasks ++ [_] = s₀.tasks ++ [_]
        rw [htasks]
      · rw [← h.finalized]
        exact hle
    · exact hend
  · exact hend

/-- The jobs that the workers are given first, for the heights from the start block on. -/
def firstJobs (cfg : Config) (s₀ : State) : List Job :=
  jobsFrom .backFillBlocks s₀.jobs ((List.range' s₀.nextBlock cfg.workers).map Nat.cast)

/-- There is one job for each worker. -/
theorem length_firstJobs : (firstJobs cfg s₀).length = cfg.workers := by
  rw [firstJobs, length_jobsFrom, List.length_map, List.length_range']

/-- All jobs that `backFillBlocks` creates before its first await are requested in order. -/
theorem backFillBlocks_filled (h₀ : Vacant s₀) :
    Filled cfg s₀ (backFillBlocks cfg s₀ backFillingId)
      (.start s₀ (backFillBlocks cfg s₀ backFillingId)) [] (firstJobs cfg s₀) ∧
    Stage s₀ backFillingId (backFillBlocks cfg s₀ backFillingId) (firstJobs cfg s₀) := by
  obtain ⟨assignments, heq⟩ := assignments_eq backFillingId (List.range cfg.workers)
    { s₀ with activeBackFillingId := some backFillingId }
  have hrun : backFillBlocks cfg s₀ backFillingId = runBackFill { s₀ with
      activeBackFillingId := some backFillingId
      jobs := s₀.jobs + cfg.workers
      queue := firstJobs cfg s₀
      assignments := assignments } backFillingId := by
    rw [backFillBlocks, heq, List.length_range, ← List.range'_eq_map_range, h₀.queue]
    rfl
  have hbegun : Filled cfg s₀ { s₀ with
      activeBackFillingId := some backFillingId
      jobs := s₀.jobs + cfg.workers
      queue := firstJobs cfg s₀
      assignments := assignments } ⟨firstJobs cfg s₀, []⟩ [] (firstJobs cfg s₀) := by
    refine ⟨?_, ?_, ?_, (List.append_nil _).symm, rfl, rfl, rfl, rfl, h₀.fatalError, ?_,
      absurd rfl⟩
    · rw [firstJobs, jobsFrom_map_id, length_jobsFrom]
    · rw [length_firstJobs]
    · rw [length_firstJobs, firstJobs, jobsFrom_map_height]
    · rw [length_firstJobs]
      exact Int.le_max_right _ _
  obtain ⟨hfilled, hstage⟩ := runBackFill_filled hbegun rfl rfl
  have hstart : Progress.start s₀ (backFillBlocks cfg s₀ backFillingId) =
      ⟨firstJobs cfg s₀, []⟩ := by
    rw [Progress.start, requestedBy, hrun, hstage.held_eq h₀, List.filter_eq_self.mpr]
    exact fun job hmem => decide_eq_true (id_lt_of_mem_jobsFrom hmem).1
  rw [hstart, hrun]
  exact ⟨hfilled, hstage⟩

variable {p : Progress} {emitted : List (Job × Block)} {jobs : List Job}

/-- Every job that is held has been requested. -/
theorem Filled.lt (h : Filled cfg s₀ s p emitted jobs) : ∀ job ∈ jobs, job.id < s.jobs := by
  intro job hmem
  have hin : job.id ∈ p.requested.map Job.id := by
    rw [← h.order]
    exact List.mem_map_of_mem (List.mem_append_right _ hmem)
  rw [h.ids, List.mem_range'_1, ← h.count] at hin
  exact hin.2

/-- A step that holds no other jobs than before has created none. -/
theorem Filled.requestedBy_nil (h : Filled cfg s₀ s p emitted jobs) (hsub : held t ⊆ jobs) :
    requestedBy s t = [] := by
  refine List.filter_eq_nil_iff.mpr fun job hmem => ?_
  have hlt := h.lt job (hsub hmem)
  simp only [decide_eq_true_eq]
  omega

/-- What is kept of a back filling, whatever has been passed on. -/
def Fills (cfg : Config) (s₀ : State) (backFillingId : Nat) (s : State) (p : Progress) : Prop :=
  ∃ emitted jobs, Filled cfg s₀ s p emitted jobs ∧ Stage s₀ backFillingId s jobs

/-- A step that only moves activations of `addWorkerJobToQueue` and answers of workers. -/
theorem Fills.still {e : Event} (h₀ : Vacant s₀) (h : Fills cfg s₀ backFillingId s p)
    (hactive : t.activeBackFillingId = s.activeBackFillingId) (htasks : t.tasks = s.tasks)
    (hqueue : t.queue = s.queue) (hjobs : t.jobs = s.jobs) (hcalls : t.calls = s.calls)
    (hnext : t.nextBlock = s.nextBlock) (hfinalized : t.lastFinalizedBlock = s.lastFinalizedBlock)
    (hfatal : t.fatalError = s.fatalError) : Fills cfg s₀ backFillingId t (p.record s e t) := by
  obtain ⟨emitted, jobs, hf, hs⟩ := h
  have hstage : Stage s₀ backFillingId t jobs := by
    cases hs with
    | awaiting ha ht hle =>
      rw [← hqueue]
      exact .awaiting (hactive.trans ha) (htasks.trans ht) (hnext ▸ hle)
    | ended ha ht =>
      rw [← hqueue]
      refine .ended (hactive.trans ha) ?_
      rw [htasks, hnext]
      exact ht
  have hrecord : p.record s e t = p := by
    have hnil := hf.requestedBy_nil (t := t) (by rw [hstage.held_eq h₀]; exact List.Subset.refl _)
    rw [Progress.record, hnil, hcalls, List.drop_length, List.map_nil, List.append_nil,
      List.append_nil]
  rw [hrecord]
  exact ⟨emitted, jobs, hf.congr hjobs hcalls hnext hfinalized hfatal, hstage⟩

/-- A job for the height after those requested is queued. -/
theorem Filled.request {e : Event} {job : Job} (h : Filled cfg s₀ s p emitted jobs)
    (hid : job.id = s.jobs) (hheight : job.height = s₀.nextBlock + p.requested.length)
    (hle : job.height ≤ s₀.lastFinalizedBlock) (hheld : held t = jobs ++ [job])
    (hjobs : t.jobs = s.jobs + 1) (hcalls : t.calls = s.calls) (hnext : t.nextBlock = s.nextBlock)
    (hfinalized : t.lastFinalizedBlock = s.lastFinalizedBlock)
    (hfatal : t.fatalError = s.fatalError) :
    Filled cfg s₀ t (p.record s e t) emitted (jobs ++ [job]) := by
  have hrequested : requestedBy s t = [job] := by
    have hold : jobs.filter (fun job => s.jobs ≤ job.id) = [] :=
      List.filter_eq_nil_iff.mpr fun other hmem => by simpa using h.lt other hmem
    have hnew : [job].filter (fun job => s.jobs ≤ job.id) = [job] := by simp [hid]
    rw [requestedBy, hheld, List.filter_append, hold, hnew, List.nil_append]
  have hrecord : p.record s e t = ⟨p.requested ++ [job], p.passed⟩ := by
    rw [Progress.record, hrequested, hcalls, List.drop_length, List.map_nil, List.append_nil]
  rw [hrecord]
  refine ⟨?_, ?_, ?_, hcalls.trans h.calls, h.passed, ?_, hnext.trans h.next,
    hfinalized.trans h.finalized, hfatal.trans h.fatalError, ?_, ?_⟩
  · rw [List.map_append, h.ids, List.length_append, List.length_singleton, List.range'_1_concat,
      ← h.count, ← hid]
    rfl
  · rw [List.length_append, List.length_singleton, hjobs, h.count, Nat.add_assoc]
  · rw [List.map_append, h.heights, List.length_append, List.length_singleton,
      List.range'_1_concat, List.map_append, List.map_singleton, List.map_singleton, hheight]
    simp
  · rw [← List.append_assoc, h.order]
  · rw [List.length_append, List.length_singleton]
    refine Int.le_trans ?_ (Int.le_max_left _ _)
    omega
  · rw [hnext]
    exact h.last

/-- The height that `addWorkerJobToQueue` asks for is the one after those requested. -/
theorem assigned_fills {i : Nat} (h₀ : Vacant s₀) (h : Fills cfg s₀ backFillingId s p)
    (hs : assigned s i = some t) :
    Fills cfg s₀ backFillingId t (p.record s (.assigned i) t) := by
  unfold assigned at hs
  split at hs
  · obtain rfl := Option.some.inj hs
    split
    · exact h.still h₀ rfl rfl rfl rfl rfl rfl rfl rfl
    · exact h.still h₀ rfl rfl rfl rfl rfl rfl rfl rfl
  · rename_i other _ _
    obtain ⟨_, ht⟩ := Option.ite_none_right_eq_some.mp hs
    obtain rfl := Option.some.inj ht
    split
    · rename_i hmore
      obtain ⟨emitted, jobs, hf, hstage⟩ := h
      cases hstage with
      | @awaiting job hactive htasks hle =>
        have hlength := congrArg List.length hf.order
        rw [List.length_append, List.length_map, List.length_cons] at hlength
        have hnext := hf.next
        have hlt : (s.nextBlock + s.queue.length : Int) < s.lastFinalizedBlock := hmore.2
        rw [hf.finalized] at hlt
        have hstage : Stage s₀ backFillingId _ (job :: (s.queue ++ [_])) :=
          .awaiting (s := addWorkerJobToQueue { s with assignments := s.assignments.eraseIdx i }
            (s.nextBlock + s.queue.length + 1) other) hactive htasks hle
        refine ⟨emitted, _, hf.request rfl ?_ ?_ (hstage.held_eq h₀) rfl rfl rfl rfl rfl, hstage⟩
        · change ((s.nextBlock + s.queue.length + 1 : Nat) : Int) = _
          omega
        · change ((s.nextBlock + s.queue.length + 1 : Nat) : Int) ≤ _
          omega
      | ended hactive _ => simp [hactive] at hmore
    · exact h.still h₀ rfl rfl rfl rfl rfl rfl rfl rfl
  · cases hs

/-- Among the activations only the last one can be a loop of `backFillBlocks`. -/
theorem Vacant.backFill_eq {i other : Nat} {task : Task} {job : Job} (h : Vacant s₀)
    (hi : (s₀.tasks ++ [task])[i]? = some (.backFill other job)) :
    i = s₀.tasks.length ∧ task = .backFill other job := by
  rcases Nat.lt_trichotomy i s₀.tasks.length with hlt | rfl | hgt
  · rw [List.getElem?_append_left hlt] at hi
    have hnone := h.tasks _ (List.mem_of_getElem? hi)
    cases hnone
  · rw [List.getElem?_concat_length] at hi
    exact ⟨rfl, Option.some.inj hi⟩
  · rw [List.getElem?_eq_none (by rw [List.length_append, List.length_singleton]; omega)] at hi
    cases hi

/-- The loop passes on the answer to the job for the next block, and shifts the one after it. -/
theorem emit_fills {i : Nat} {block : Block} {job : Job} (h₀ : Vacant s₀)
    (hf : Filled cfg s₀ s p emitted (job :: s.queue))
    (hactive : s.activeBackFillingId = some backFillingId)
    (htasks : s.tasks = s₀.tasks ++ [.backFill backFillingId job])
    (hle : s.nextBlock ≤ s₀.lastFinalizedBlock) (hi : i = s₀.tasks.length)
    (ht : t = runBackFill { finish s i with
      calls := s.calls ++ [.next .backFillBlocks block]
      nextBlock := s.nextBlock + 1 } backFillingId) :
    Fills cfg s₀ backFillingId t (p.record s (.backFilled i (.ok block)) t) := by
  have hbegun : Filled cfg s₀ { finish s i with
      calls := s.calls ++ [.next .backFillBlocks block]
      nextBlock := s.nextBlock + 1 } ⟨p.requested, p.passed ++ [passing (job, block)]⟩
      (emitted ++ [(job, block)]) s.queue := by
    refine ⟨hf.ids, hf.count, hf.heights, ?_, ?_, ?_, ?_, hf.finalized, hf.fatalError,
      hf.highest, fun _ => ?_⟩
    · rw [hf.calls, List.map_append, List.append_assoc]
      rfl
    · rw [hf.passed, List.map_append]
      rfl
    · rw [List.map_append, List.append_assoc]
      exact hf.order
    · rw [hf.next, List.length_append, List.length_singleton, Nat.add_assoc]
    · change ((s.nextBlock + 1 : Nat) : Int) - 1 ≤ _
      omega
  obtain ⟨hfilled, hstage⟩ := runBackFill_filled hbegun hactive (by
    change s.tasks.eraseIdx i = s₀.tasks
    rw [htasks, hi, List.eraseIdx_append_of_length_le (Nat.le_refl _), Nat.sub_self]
    exact List.append_nil _)
  rw [← ht] at hfilled hstage
  have hrecord : p.record s (.backFilled i (.ok block)) t =
      ⟨p.requested, p.passed ++ [passing (job, block)]⟩ := by
    have hnil := hf.requestedBy_nil (t := t) (by
      rw [hstage.held_eq h₀]
      exact List.subset_cons_self _ _)
    have hcalls : t.calls = s.calls ++ [.next .backFillBlocks block] := by
      rw [hfilled.calls, List.map_append, ← List.append_assoc, ← hf.calls]
      rfl
    have hawaited : Event.awaited s (.backFilled i (.ok block)) = some job := by
      rw [Event.awaited, htasks, hi, List.getElem?_concat_length]
      rfl
    rw [Progress.record, hnil, hcalls, List.drop_left, List.append_nil, hawaited]
    rfl
  rw [hrecord]
  exact ⟨_, _, hfilled, hstage⟩

private theorem backFilled_fills {i : Nat} {block : Block} (h₀ : Vacant s₀)
    (h : Fills cfg s₀ backFillingId s p) (hs : backFilled s i (.ok block) = some t) :
    Fills cfg s₀ backFillingId t (p.record s (.backFilled i (.ok block)) t) := by
  obtain ⟨emitted, jobs, hf, hstage⟩ := h
  unfold backFilled at hs
  split at hs
  · rename_i other job hi
    obtain ⟨_, ht⟩ := Option.ite_none_right_eq_some.mp hs
    cases hstage with
    | ended _ htasks =>
      rw [htasks] at hi
      cases (h₀.backFill_eq hi).2
    | @awaiting awaited hactive htasks hle =>
      have hlast := hi
      rw [htasks] at hlast
      obtain ⟨hlength, heq⟩ := h₀.backFill_eq hlast
      cases heq
      have hcontinues : ¬ (s.activeBackFillingId ≠ some backFillingId ∨ s.fatalError = true) := by
        simp [hactive, hf.fatalError]
      dsimp only at ht
      rw [if_neg hcontinues] at ht
      exact emit_fills h₀ hf hactive htasks hle hlength (Option.some.inj ht).symm
  · cases hs

/-- Every step of a back filling keeps its shape. -/
theorem step_fills {e : Event} (h₀ : Vacant s₀) (h : Fills cfg s₀ backFillingId s p)
    (hg : FillsAlone s e) (hs : step cfg s e = some t) :
    Fills cfg s₀ backFillingId t (p.record s e t) := by
  cases e with
  | answer job =>
    obtain ⟨_, ht⟩ := Option.ite_none_right_eq_some.mp hs
    obtain rfl := Option.some.inj ht
    exact h.still h₀ rfl rfl rfl rfl rfl rfl rfl rfl
  | assigned i => exact assigned_fills h₀ h hs
  | backFilled i result =>
    cases result with
    | ok block => exact backFilled_fills h₀ h hs
    | error error => exact hg.elim
  | subscribe startBlock => exact hg.elim
  | unsubscribe => exact hg.elim
  | finalized i result => exact hg.elim
  | latest i now result => exact hg.elim
  | woken i => exact hg.elim
  | unsubscribed i result => exact hg.elim
  | timeout i => exact hg.elim
  | data subscription log => exact hg.elim
  | failed subscription error => exact hg.elim
  | processed result => exact hg.elim

/-- A suspended loop goes on, whatever block answers its job. -/
theorem Filled.goesOn {job : Job} (hf : Filled cfg s₀ s p emitted (job :: s.queue))
    (hactive : s.activeBackFillingId = some backFillingId)
    (htasks : s.tasks = s₀.tasks ++ [.backFill backFillingId job]) (block : Block) :
    ∃ es u, (machine cfg).Run FillsAlone s es u ∧
      u.calls = s.calls ++ [.next .backFillBlocks block] := by
  have hcontinues : ∀ u : State, u.tasks = s.tasks → u.activeBackFillingId = some backFillingId →
      u.fatalError = false → u.calls = s.calls → job.id ∈ u.answered →
      ∃ v, (machine cfg).Run FillsAlone u [.backFilled s₀.tasks.length (.ok block)] v ∧
        v.calls = s.calls ++ [.next .backFillBlocks block] := by
    intro u hu ha hfatal hcalls hanswered
    have hi : u.tasks[s₀.tasks.length]? = some (.backFill backFillingId job) := by
      rw [hu, htasks, List.getElem?_concat_length]
    refine ⟨runBackFill { finish u s₀.tasks.length with
      calls := u.calls ++ [.next .backFillBlocks block]
      nextBlock := u.nextBlock + 1 } backFillingId, .snoc .nil trivial ?_, ?_⟩
    · change backFilled u s₀.tasks.length (.ok block) = _
      rw [backFilled, hi]
      dsimp only
      rw [if_pos hanswered, if_neg (by simp [ha, hfatal])]
    · rw [runBackFill_calls, ← hcalls]
  by_cases hanswered : job.id ∈ s.answered
  · obtain ⟨v, hr, hv⟩ := hcontinues s rfl hactive hf.fatalError rfl hanswered
    exact ⟨_, v, hr, hv⟩
  · obtain ⟨v, hr, hv⟩ := hcontinues { s with answered := s.answered ++ [job.id] } rfl hactive
      hf.fatalError rfl (List.mem_append_right _ (List.mem_singleton_self _))
    have hanswer : step cfg s (.answer job.id) =
        some { s with answered := s.answered ++ [job.id] } :=
      if_pos ⟨hf.lt job List.mem_cons_self, hanswered⟩
    exact ⟨_, v, .cons (show FillsAlone s (.answer job.id) from trivial) hanswer hr, hv⟩

/-- Along a back filling its shape is kept. -/
theorem run_fills {es : List Event} (h₀ : Vacant s₀) (h : Fills cfg s₀ backFillingId s p)
    (hr : (machine cfg).Run FillsAlone s es t) : ∃ q, Fills cfg s₀ backFillingId t q ∧
      ((machine cfg).observe Progress.record).Run (fun r e => FillsAlone r.1 e) (s, p) es
        (t, q) := by
  obtain ⟨q, hq⟩ := hr.observe Progress.record p
  refine ⟨q, ?_, hq⟩
  refine hq.invariant (I := fun r => Fills cfg s₀ backFillingId r.1 r.2)
    (fun r e r' hi hg hs => ?_) h
  obtain ⟨hstep, hrecord⟩ := Machine.observe_step.mp hs
  rw [← hrecord]
  exact step_fills h₀ hi hg hstep

/-- The loop comes to its end: every block that it passes on takes it closer. -/
theorem Fills.ends (h₀ : Vacant s₀) (h : Fills cfg s₀ backFillingId s p) :
    ∃ es t, (machine cfg).Run FillsAlone s es t ∧
      t.tasks = s₀.tasks ++ [.finalized .backFillBlocks t.nextBlock] := by
  generalize hn : (s₀.lastFinalizedBlock + 1 - s.nextBlock).toNat = n
  induction n generalizing s p with
  | zero =>
    obtain ⟨_, _, _, hstage⟩ := h
    cases hstage with
    | awaiting _ _ hle => omega
    | ended _ htasks => exact ⟨[], s, .nil, htasks⟩
  | succ n ih =>
    obtain ⟨emitted, jobs, hf, hstage⟩ := id h
    cases hstage with
    | ended _ htasks => exact ⟨[], s, .nil, htasks⟩
    | awaiting hactive htasks hle =>
      obtain ⟨es, u, hr, hcalls⟩ := hf.goesOn hactive htasks ⟨0, "", ""⟩
      obtain ⟨q, hfills, _⟩ := run_fills h₀ h hr
      have hnext : u.nextBlock = s.nextBlock + 1 := by
        obtain ⟨more, _, hmore, _⟩ := id hfills
        have hlength := congrArg List.length hcalls
        rw [hmore.calls, hf.calls, hmore.passed, hf.passed] at hlength
        simp only [List.length_append, List.length_map, List.length_singleton] at hlength
        rw [hmore.next, hf.next]
        omega
      obtain ⟨fs, t, hrest, ht⟩ := ih hfills (by omega)
      exact ⟨es ++ fs, t, hr.append hrest, ht⟩

/-- What `backFillBlocks`, called in the first state, has come to. -/
structure InOrder (cfg : Config) (s₀ : State) (backFillingId : Nat) (s : State) (p : Progress)
    (emitted : List (Job × Block)) : Prop where
  /-- Every call of `getBlockFromWorker` and of the observer has been recorded. -/
  ids : p.requested.map Job.id = List.range' s₀.jobs (s.jobs - s₀.jobs)
  calls : s.calls = s₀.calls ++ p.passed.map Prod.snd
  heights : p.requested.map Job.height =
    (List.range' s₀.nextBlock p.requested.length).map Nat.cast
  highest : ∀ job ∈ p.requested,
    job.height ≤ max s₀.lastFinalizedBlock ((s₀.nextBlock : Int) + cfg.workers - 1)
  /-- The blocks passed on answer the requests from the first one on. -/
  passed : p.passed = emitted.map passing
  order : emitted.map Prod.fst <+: p.requested
  last : ∀ emission ∈ emitted, emission.1.height ≤ s₀.lastFinalizedBlock
  next : s.nextBlock = s₀.nextBlock + emitted.length
  /-- The loop awaits the next block, and the ones after it are queued in order, or it has
  ended by subscribing again from the next block. -/
  stage : (∃ job : Job, s.tasks = s₀.tasks ++ [.backFill backFillingId job] ∧
      job.height = s.nextBlock ∧
      s.queue.map Job.height = (List.range' (s.nextBlock + 1) s.queue.length).map Nat.cast ∧
      ∀ block, ∃ es t, (machine cfg).Run FillsAlone s es t ∧
        t.calls = s.calls ++ [.next .backFillBlocks block]) ∨
    s.tasks = s₀.tasks ++ [.finalized .backFillBlocks s.nextBlock]
  ends : ∃ es t, (machine cfg).Run FillsAlone s es t ∧
    t.tasks = s₀.tasks ++ [.finalized .backFillBlocks t.nextBlock]

/-- The heights of the jobs that are held follow those passed on. -/
theorem Filled.held_heights (h : Filled cfg s₀ s p emitted jobs) :
    jobs.map Job.height = (List.range' s.nextBlock jobs.length).map Nat.cast := by
  have hheights := h.heights
  rw [← h.order, List.map_append, List.length_append, List.length_map, ← List.range'_append_1,
    List.map_append] at hheights
  rw [h.next]
  exact (List.append_inj' hheights (by simp)).2

/-- The blocks passed on are of consecutive heights. -/
theorem Filled.emitted_heights (h : Filled cfg s₀ s p emitted jobs) :
    emitted.map (·.1.height) = (List.range' s₀.nextBlock emitted.length).map Nat.cast := by
  have hheights := h.heights
  rw [← h.order, List.map_append, List.length_append, List.length_map, ← List.range'_append_1,
    List.map_append, List.map_map] at hheights
  exact (List.append_inj hheights (by simp)).1

/-- What is kept gives the statement on the order. -/
theorem Fills.inOrder (h₀ : Vacant s₀) (h : Fills cfg s₀ backFillingId s p) :
    ∃ emitted, InOrder cfg s₀ backFillingId s p emitted := by
  have hends := h.ends h₀
  obtain ⟨emitted, jobs, hf, hstage⟩ := h
  refine ⟨emitted, ?_, hf.calls, hf.heights, fun job hmem => ?_, hf.passed, ⟨_, hf.order⟩,
    fun emission hmem => ?_, hf.next, ?_, hends⟩
  · rw [hf.count, Nat.add_sub_cancel_left]
    exact hf.ids
  · have hheight : job.height ∈ p.requested.map Job.height := List.mem_map_of_mem hmem
    rw [hf.heights] at hheight
    obtain ⟨height, hrange, hcast⟩ := List.mem_map.mp hheight
    rw [List.mem_range'_1] at hrange
    have hhighest := hf.highest
    omega
  · have hheight : emission.1.height ∈ emitted.map (·.1.height) := List.mem_map_of_mem hmem
    rw [hf.emitted_heights] at hheight
    obtain ⟨height, hrange, hcast⟩ := List.mem_map.mp hheight
    rw [List.mem_range'_1] at hrange
    have hlast := hf.last (List.ne_nil_of_mem hmem)
    have hnext := hf.next
    omega
  · cases hstage with
    | @awaiting job hactive htasks _ =>
      have hheights := hf.held_heights
      rw [List.map_cons, List.length_cons, List.range'_succ, List.map_cons] at hheights
      exact Or.inl ⟨job, htasks, List.head_eq_of_cons_eq hheights,
        List.tail_eq_of_cons_eq hheights, hf.goesOn hactive htasks⟩
    | ended _ htasks => exact Or.inr htasks

/-- Whatever the number of workers and in whatever order they answer, `backFillBlocks` passes
on the blocks from the start block on without a gap and then subscribes from the next one. -/
theorem back_filled_in_order {es : List Event} (h₀ : Vacant s₀)
    (h : (machine cfg).Run FillsAlone (backFillBlocks cfg s₀ backFillingId) es s) :
    ∃ p emitted, ((machine cfg).observe Progress.record).Run (fun q e => FillsAlone q.1 e)
      (backFillBlocks cfg s₀ backFillingId, .start s₀ (backFillBlocks cfg s₀ backFillingId))
      es (s, p) ∧ InOrder cfg s₀ backFillingId s p emitted := by
  obtain ⟨p, hfills, hr⟩ := run_fills h₀ ⟨[], _, backFillBlocks_filled h₀⟩ h
  obtain ⟨emitted, hinOrder⟩ := hfills.inOrder h₀
  exact ⟨p, emitted, hr, hinOrder⟩

/-- Two workers are given blocks 6 and 7; the second one answers first. -/
def crossedAnswers : List Event :=
  [.answer 1, .assigned 1, .answer 0, .backFilled 0 (.ok ⟨6, "0xa6", "0xa5"⟩),
    .backFilled 0 (.ok ⟨7, "0xa7", "0xa6"⟩), .answer 2, .backFilled 0 (.ok ⟨8, "0xa8", "0xa7"⟩)]

/-- A new object that is to start at block 6. -/
def startsAtSix : State :=
  { State.init with observer := true, lastFinalizedBlock := 27, nextBlock := 6 }

/-- Block 8 was queued behind them, and `subscribe` is called for block 9. -/
theorem crossedAnswers_in_order : Vacant startsAtSix ∧ ∃ s,
    (machine ⟨2, 0⟩).Run FillsAlone (backFillBlocks ⟨2, 0⟩ startsAtSix 100) crossedAnswers s ∧
    s.calls = [.next .backFillBlocks ⟨6, "0xa6", "0xa5"⟩,
      .next .backFillBlocks ⟨7, "0xa7", "0xa6"⟩, .next .backFillBlocks ⟨8, "0xa8", "0xa7"⟩] ∧
    s.tasks = [.finalized .backFillBlocks 9] ∧
    ∃ p emitted, ((machine ⟨2, 0⟩).observe Progress.record).Run (fun q e => FillsAlone q.1 e)
      (backFillBlocks ⟨2, 0⟩ startsAtSix 100,
        .start startsAtSix (backFillBlocks ⟨2, 0⟩ startsAtSix 100))
      crossedAnswers (s, p) ∧ InOrder ⟨2, 0⟩ startsAtSix 100 s p emitted := by
  have hvacant : Vacant startsAtSix := ⟨rfl, rfl, nofun⟩
  obtain ⟨s, hr, hcalls, htasks⟩ : ∃ s,
      (machine ⟨2, 0⟩).Run FillsAlone (backFillBlocks ⟨2, 0⟩ startsAtSix 100) crossedAnswers s ∧
      s.calls = [.next .backFillBlocks ⟨6, "0xa6", "0xa5"⟩,
        .next .backFillBlocks ⟨7, "0xa7", "0xa6"⟩, .next .backFillBlocks ⟨8, "0xa8", "0xa7"⟩] ∧
      s.tasks = [.finalized .backFillBlocks 9] :=
    Machine.exists_run_of_exec (by decide)
  exact ⟨hvacant, s, hr, hcalls, htasks, back_filled_in_order hvacant hr⟩

end ChainIndexer.Subscription
