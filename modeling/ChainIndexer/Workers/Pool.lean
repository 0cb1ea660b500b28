import ChainIndexer.Workers.State

/-!
# The workers alone

Only the workers that `setWorkers` creates get a listener for their exit. The worker that takes the
place of one of them has none, so a place sees two workers at most. What the subscription makes of
the promises is left out here, and anybody may ask for blocks.
-/

namespace ChainIndexer.Workers

/-- The places of the workers and the calls of `getBlockFromWorker`. -/
structure Pool where
  /-- `this.workers`. -/
  workers : List Worker := []
  /-- The workers that have exited. -/
  exited : List Worker := []
  requests : List Request := []

namespace Pool

/-- `setWorkers`: a worker with an exit listener for each endpoint. -/
def setWorkers (endpoints : Nat) : Pool where
  workers := (List.range endpoints).map fun workerId => ⟨workerId, false⟩

/-- What may happen next. A request is named by its place. -/
inductive Event where
  | getBlockFromWorker (blockNumber : Int) (workerId time : Nat)
  /-- A worker posts its message for a request. -/
  | message (request : Nat) (result : Except Thrown Block)
  | error (worker : Worker) (error : Thrown)
  /-- The worker in this place exits. -/
  | exit (workerId : Nat)

/-- The listeners are registered and the request is posted, whether or not the worker is alive. -/
def getBlockFromWorker (p : Pool) (blockNumber : Int) (workerId time : Nat) : Pool :=
  { p with requests := p.requests ++
      [{ blockNumber, workerId, worker := p.workers[workerId]?, time }] }

/-- A worker posts the message for a request that it has not answered. -/
def message (p : Pool) (r : Nat) (result : Except Thrown Block) : Option Pool :=
  match p.requests[r]? with
  | none => none
  | some request => match request.worker with
    | none => none
    | some worker =>
      if request.answered = false ∧ worker ∉ p.exited then
        some { p with
          requests := (p.requests.set r { request with answered := true }).map
            (onMessage worker request.callBackId (.message r result)) }
      else none

/-- An error event reaches the pending requests; with none of them nobody listens. -/
def error (p : Pool) (worker : Worker) (error : Thrown) : Option Pool :=
  if worker ∉ p.exited then some { p with requests := p.requests.map (onError worker error) }
  else none

/-- The exit listener puts a worker without one in the place. -/
def exit (p : Pool) (workerId : Nat) : Option Pool :=
  match p.workers[workerId]? with
  | none => none
  | some worker =>
    if worker ∈ p.exited then none
    else some { p with
      workers := if worker.replaces then p.workers else p.workers.set workerId ⟨workerId, true⟩
      exited := worker :: p.exited }

def step (p : Pool) : Event → Option Pool
  | .getBlockFromWorker blockNumber workerId time =>
    some (p.getBlockFromWorker blockNumber workerId time)
  | .message r result => p.message r result
  | .error worker error => p.error worker error
  | .exit workerId => p.exit workerId

/-- The machine of the workers. -/
def machine : Machine Pool Event where
  step := step

end Pool

/-! ## Runs with a subscription -/

/-- The workers of a subscription. -/
def State.pool (cfg : Subscription.Config) (s : State) : Pool where
  workers := (List.range cfg.workers).map fun workerId => ⟨workerId, decide (workerId ∈ s.exited)⟩
  exited := s.exited.map fun workerId => ⟨workerId, false⟩
  requests := s.requests

variable {cfg : Subscription.Config} {s t : State}

/-- The pool has the workers of the subscription. -/
theorem pool_workerAt (cfg : Subscription.Config) (s : State) (workerId : Nat) :
    (s.pool cfg).workers[workerId]? = workerAt cfg s workerId := by
  unfold workerAt State.pool
  by_cases hlt : workerId < cfg.workers
  · simp [hlt]
  · simp [hlt]

/-- A worker that has not exited is alive. -/
theorem not_mem_exited {worker : Worker} :
    worker ∉ (s.pool cfg).exited ↔ Alive s worker := by
  unfold Alive State.pool
  cases worker with
  | mk id replaces =>
    cases replaces with
    | false => simp
    | true => simp

/-- The requests that a step posts are calls of `getBlockFromWorker`. -/
theorem pool_posts (p : Pool) (requests : List Request)
    (h : ∀ request ∈ requests, request =
      { blockNumber := request.blockNumber, workerId := request.workerId,
        worker := p.workers[request.workerId]?, time := request.time }) :
    Pool.machine.Reach Machine.Free p { p with requests := p.requests ++ requests } := by
  induction requests generalizing p with
  | nil =>
    rw [List.append_nil]
    exact .refl _ _
  | cons request requests ih =>
    have hfirst : Pool.machine.step p
        (.getBlockFromWorker request.blockNumber request.workerId request.time) =
          some { p with requests := p.requests ++ [request] } := by
      have hown := h request List.mem_cons_self
      change some (Pool.getBlockFromWorker _ _ _ _) = _
      rw [Pool.getBlockFromWorker, ← hown]
    have hrest := ih { p with requests := p.requests ++ [request] }
      fun other hother => h other (List.mem_cons_of_mem _ hother)
    rw [List.append_assoc] at hrest
    exact (Machine.Reach.single trivial hfirst).trans hrest

private theorem pool_exit {workerId : Nat} (hlt : workerId < cfg.workers)
    (hnew : workerId ∉ s.exited) :
    (s.pool cfg).exit workerId =
      some (State.pool cfg { s with exited := workerId :: s.exited }) := by
  have hworker : (s.pool cfg).workers[workerId]? = some ⟨workerId, false⟩ := by
    rw [pool_workerAt, workerAt, if_pos hlt, decide_eq_false hnew]
  have halive : (⟨workerId, false⟩ : Worker) ∉ (s.pool cfg).exited :=
    not_mem_exited.mpr (Or.inr hnew)
  have hworkers : (s.pool cfg).workers.set workerId ⟨workerId, true⟩ =
      (State.pool cfg { s with exited := workerId :: s.exited }).workers := by
    apply List.ext_getElem?
    intro i
    by_cases heq : i = workerId
    · have hlength : i < (s.pool cfg).workers.length := by
        rw [heq]
        exact (List.getElem?_eq_some_iff.mp hworker).1
      rw [← heq, List.getElem?_set_self hlength, pool_workerAt, workerAt, if_pos (heq ▸ hlt)]
      simp
    · rw [List.getElem?_set_ne (Ne.symm heq), pool_workerAt, pool_workerAt, workerAt, workerAt]
      simp [heq]
  unfold Pool.exit
  rw [hworker]
  dsimp only
  rw [if_neg halive, if_neg Bool.false_ne_true, hworkers]
  rfl

private theorem pool_message {r : Nat} {result : Except Thrown Block}
    (h : message s r result = some t) :
    (s.pool cfg).message r result = some (t.pool cfg) := by
  unfold message at h
  split at h
  · cases h
  · rename_i request hrequest
    split at h
    · cases h
    · rename_i worker hworker
      split at h
      · rename_i hposts
        obtain rfl := Option.some.inj h
        have hget : (s.pool cfg).requests[r]? = some request := hrequest
        have halive : worker ∉ (s.pool cfg).exited := not_mem_exited.mpr hposts.2
        unfold Pool.message
        rw [hget]
        dsimp only
        rw [hworker]
        dsimp only
        rw [if_pos ⟨hposts.1, halive⟩]
        rfl
      · cases h

/-- Every step with a subscription is a run of the workers. -/
theorem pool_step {e : Event} (h : step cfg s e = some t) :
    Pool.machine.Reach Machine.Free (s.pool cfg) (t.pool cfg) := by
  cases e with
  | subscription e =>
    obtain ⟨_, ht⟩ := Option.ite_none_right_eq_some.mp h
    obtain ⟨u, _, rfl⟩ := Option.map_eq_some_iff.mp ht
    apply pool_posts
    intro request hrequest
    obtain ⟨place, hplace, rfl⟩ := List.mem_mapIdx.mp hrequest
    rw [pool_workerAt]
  | tick now =>
    obtain ⟨_, ht⟩ := Option.ite_none_right_eq_some.mp h
    obtain rfl := Option.some.inj ht
    exact .refl _ _
  | message r result => exact .single (e := .message r result) trivial (pool_message h)
  | error worker error =>
    obtain ⟨halive, ht⟩ := Option.ite_none_right_eq_some.mp h
    obtain rfl := Option.some.inj ht
    exact .single (e := .error worker error) trivial (if_pos (not_mem_exited.mpr halive))
  | exit workerId =>
    obtain ⟨⟨hlt, hnew⟩, ht⟩ := Option.ite_none_right_eq_some.mp h
    obtain rfl := Option.some.inj ht
    exact .single (e := .exit workerId) trivial (pool_exit hlt hnew)

/-- What holds of the workers alone holds of them below a subscription. -/
theorem pool_simulates {es : List Event} (h : (machine cfg).Run Machine.Free .init es s) :
    Pool.machine.Reach Machine.Free (.setWorkers cfg.workers) (s.pool cfg) :=
  (h.simulate (I := fun _ => True) (State.pool cfg)
    (fun _ _ _ _ _ hs => ⟨trivial, pool_step hs⟩) trivial).2

end ChainIndexer.Workers
