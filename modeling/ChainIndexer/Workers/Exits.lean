import ChainIndexer.Workers.Pool

/-!
# Workers that exit

A worker that exits is replaced once, and only its error events settle what is pending on it. So
the workers survive an exit exactly if it is the first one in its place and nothing is pending.
-/

namespace ChainIndexer.Workers.Pool

variable {p q : Pool} {es : List Event}

/-- Every place holds a worker that has not exited, and no pending request waits for one that
has. -/
structure Survives (p : Pool) : Prop where
  workers : ∀ worker ∈ p.workers, worker ∉ p.exited
  pending : ∀ request ∈ p.requests, request.settled = none →
    ∀ worker ∈ request.worker, worker ∉ p.exited

/-- Only a worker that `setWorkers` has created exits, and only when everything posted to it is
settled. -/
def ExitsIdle (p : Pool) : Event → Prop
  | .exit workerId => ∀ worker ∈ p.workers[workerId]?, worker.replaces = false ∧
      ∀ request ∈ p.requests, request.worker = some worker → request.settled.isSome = true
  | .getBlockFromWorker .. | .message .. | .error .. => True

instance (p : Pool) : (e : Event) → Decidable (ExitsIdle p e)
  | .exit workerId => inferInstanceAs (Decidable (∀ worker ∈ p.workers[workerId]?,
      worker.replaces = false ∧
      ∀ request ∈ p.requests, request.worker = some worker → request.settled.isSome = true))
  | .getBlockFromWorker .. | .message .. | .error .. => .isTrue trivial

/-- What a history keeps in which workers only exit idle. -/
structure Manned (p : Pool) : Prop where
  survives : Survives p
  places : ∀ (workerId : Nat) (worker : Worker),
    p.workers[workerId]? = some worker → worker.id = workerId
  exited : ∀ worker ∈ p.exited, worker.replaces = false

/-! ## Listeners -/

/-- A listener may settle a request and changes nothing else of it that the workers read. -/
def Settles (listener : Request → Request) : Prop :=
  ∀ request, (listener request).worker = request.worker ∧
    ((listener request).settled = none → request.settled = none)

private theorem onMessage_settles (worker : Worker) (callBackId : Int) (message : Settlement) :
    Settles (onMessage worker callBackId message) := by
  intro request
  unfold onMessage
  split
  · exact ⟨rfl, nofun⟩
  · exact ⟨rfl, id⟩

private theorem onError_settles (worker : Worker) (error : Thrown) :
    Settles (onError worker error) := by
  intro request
  unfold onError
  split
  · exact ⟨rfl, nofun⟩
  · exact ⟨rfl, id⟩

/-- Requests that are settled or answered wait for no other worker. -/
theorem Manned.heard {requests : List Request} (h : Manned p)
    (hold : ∀ request ∈ requests, ∃ before ∈ p.requests,
      request.worker = before.worker ∧ (request.settled = none → before.settled = none)) :
    Manned { p with requests := requests } := by
  refine ⟨⟨h.survives.workers, fun request hrequest hsettled worker hworker => ?_⟩, h.places,
    h.exited⟩
  obtain ⟨before, hbefore, hsame, hnone⟩ := hold request hrequest
  rw [hsame] at hworker
  exact h.survives.pending before hbefore (hnone hsettled) worker hworker

/-- An answer leaves the places manned. -/
theorem Manned.message {r : Nat} {result : Except Thrown Block} (h : Manned p)
    (hs : p.message r result = some q) : Manned q := by
  unfold Pool.message at hs
  split at hs
  · cases hs
  · rename_i own hown
    split at hs
    · cases hs
    · split at hs
      · obtain rfl := Option.some.inj hs
        apply h.heard
        intro request hrequest
        obtain ⟨marked, hmarked, rfl⟩ := List.mem_map.mp hrequest
        obtain ⟨hworker, hnone⟩ := onMessage_settles _ _ _ marked
        rcases List.mem_or_eq_of_mem_set hmarked with hbefore | rfl
        · exact ⟨marked, hbefore, hworker, hnone⟩
        · exact ⟨own, List.mem_of_getElem? hown, hworker, hnone⟩
      · cases hs

/-- So does an error. -/
theorem Manned.error {worker : Worker} {error : Thrown} (h : Manned p)
    (hs : p.error worker error = some q) : Manned q := by
  obtain ⟨_, ht⟩ := Option.ite_none_right_eq_some.mp hs
  obtain rfl := Option.some.inj ht
  apply h.heard
  intro request hrequest
  obtain ⟨before, hbefore, rfl⟩ := List.mem_map.mp hrequest
  exact ⟨before, hbefore, onError_settles _ _ before⟩

/-! ## Exits -/

/-- A new request waits for the worker in its place. -/
theorem Manned.getBlockFromWorker (h : Manned p) (blockNumber : Int) (workerId time : Nat) :
    Manned (p.getBlockFromWorker blockNumber workerId time) := by
  refine ⟨⟨h.survives.workers, fun request hrequest hsettled worker hworker => ?_⟩, h.places,
    h.exited⟩
  rcases List.mem_append.mp hrequest with hbefore | hnew
  · exact h.survives.pending request hbefore hsettled worker hworker
  · obtain rfl := List.mem_singleton.mp hnew
    exact h.survives.workers worker (List.mem_of_getElem? hworker)

/-- The workers after an exit that is handled. -/
theorem Manned.places_set {workerId : Nat} (h : Manned p) {place : Nat} {worker : Worker}
    (hget : (p.workers.set workerId ⟨workerId, true⟩)[place]? = some worker) :
    worker.id = place ∧ (worker = ⟨workerId, true⟩ ∨ place ≠ workerId ∧ worker ∈ p.workers) := by
  by_cases heq : place = workerId
  · subst heq
    have hlength := (List.getElem?_eq_some_iff.mp hget).1
    rw [List.length_set] at hlength
    rw [List.getElem?_set_self hlength] at hget
    obtain rfl := Option.some.inj hget
    exact ⟨rfl, Or.inl rfl⟩
  · rw [List.getElem?_set_ne (Ne.symm heq)] at hget
    exact ⟨h.places place worker hget, Or.inr ⟨heq, List.mem_of_getElem? hget⟩⟩

/-- A worker that still has requests pending takes them with it. -/
theorem Survives.settled {own : Worker} (h : Survives q) (hexited : own ∈ q.exited)
    (request : Request) (hrequest : request ∈ q.requests) (hworker : request.worker = some own) :
    request.settled.isSome = true := by
  by_contra hnone
  rw [Bool.not_eq_true, Option.isSome_eq_false_iff, Option.isNone_iff_eq_none] at hnone
  exact h.pending request hrequest hnone own hworker hexited

/-- An idle first worker is replaced. -/
theorem Manned.replaced {workerId : Nat} {own : Worker} (h : Manned p)
    (hown : p.workers[workerId]? = some own) (hfirst : own.replaces = false)
    (hidle : ∀ request ∈ p.requests, request.worker = some own → request.settled.isSome = true) :
    Manned { p with
      workers := p.workers.set workerId ⟨workerId, true⟩
      exited := own :: p.exited } := by
  have hid := h.places workerId own hown
  have hfirsts : ∀ worker ∈ own :: p.exited, worker.replaces = false := by
    intro worker hworker
    rcases List.mem_cons.mp hworker with rfl | hbefore
    · exact hfirst
    · exact h.exited worker hbefore
  refine ⟨⟨fun worker hworker hexited => ?_, ?_⟩,
    fun place worker hget => (h.places_set hget).1, hfirsts⟩
  · obtain ⟨place, hget⟩ := List.getElem?_of_mem hworker
    obtain ⟨hplace, rfl | ⟨hne, hbefore⟩⟩ := h.places_set hget
    · cases hfirsts _ hexited
    · rcases List.mem_cons.mp hexited with rfl | hgone
      · exact hne (hplace.symm.trans hid)
      · exact h.survives.workers worker hbefore hgone
  · intro request hrequest hsettled worker hworker hexited
    rcases List.mem_cons.mp hexited with rfl | hgone
    · have hsome := hidle request hrequest hworker
      rw [hsettled] at hsome
      cases hsome
    · exact h.survives.pending request hrequest hsettled worker hworker hgone

/-- The workers survive an exit exactly if it is idle. -/
theorem Manned.exit {workerId : Nat} (h : Manned p) (hs : p.exit workerId = some q) :
    (Survives q ↔ ExitsIdle p (.exit workerId)) ∧ (ExitsIdle p (.exit workerId) → Manned q) := by
  unfold Pool.exit at hs
  split at hs
  · cases hs
  · rename_i own hown
    split at hs
    · cases hs
    · obtain rfl := Option.some.inj hs
      have hexits : ExitsIdle p (.exit workerId) ↔ own.replaces = false ∧
          ∀ request ∈ p.requests, request.worker = some own → request.settled.isSome = true := by
        simp [ExitsIdle, hown]
      rw [hexits]
      cases hreplaces : own.replaces with
      | true =>
        -- nobody listens, so the place keeps the worker that has exited
        refine ⟨iff_of_false (fun hsurvives => ?_) (by simp), by simp⟩
        exact hsurvives.workers own (List.mem_of_getElem? hown) List.mem_cons_self
      | false =>
        have hmanned := h.replaced hown hreplaces
        refine ⟨⟨fun hsurvives => ⟨rfl, ?_⟩, fun hidle => (hmanned hidle.2).survives⟩,
          fun hidle => hmanned hidle.2⟩
        exact hsurvives.settled List.mem_cons_self

/-- A step leaves every place and every request with a worker exactly if no worker exits in it
that cannot. -/
theorem Manned.step {e : Event} (h : Manned p) (hs : step p e = some q) :
    (Survives q ↔ ExitsIdle p e) ∧ (ExitsIdle p e → Manned q) := by
  have hfree : ∀ {e}, ExitsIdle p e → Manned q →
      (Survives q ↔ ExitsIdle p e) ∧ (ExitsIdle p e → Manned q) :=
    fun hidle hq => ⟨iff_of_true hq.survives hidle, fun _ => hq⟩
  cases e with
  | getBlockFromWorker blockNumber workerId time =>
    obtain rfl := Option.some.inj hs
    exact hfree trivial (h.getBlockFromWorker blockNumber workerId time)
  | message r result => exact hfree trivial (h.message hs)
  | error worker error => exact hfree trivial (h.error hs)
  | exit workerId => exact h.exit hs

/-- A new pool has a worker at each place. -/
theorem Manned.setWorkers (endpoints : Nat) : Manned (.setWorkers endpoints) := by
  refine ⟨⟨fun worker _ => List.not_mem_nil, fun request hrequest => ?_⟩,
    fun workerId worker hget => ?_, fun worker hworker => absurd hworker List.not_mem_nil⟩
  · exact absurd hrequest List.not_mem_nil
  obtain ⟨place, hplace, rfl⟩ := Option.map_eq_some_iff.mp (List.getElem?_map.symm.trans hget)
  obtain ⟨hlt, hrange⟩ := List.getElem?_eq_some_iff.mp hplace
  rw [List.getElem_range] at hrange
  exact hrange.symm

/-- In a history every place holds a worker that has not exited, and no request is left pending
on one that has, exactly when workers only exit for the first time and idle. -/
theorem survives_iff_exitsIdle {endpoints : Nat}
    (h : machine.Run Machine.Free (.setWorkers endpoints) es p) :
    (∀ fs q, fs <+: es → machine.Run Machine.Free (.setWorkers endpoints) fs q → Survives q) ↔
      machine.Run ExitsIdle (.setWorkers endpoints) es p :=
  h.always_iff_guarded (fun _ hq => hq.survives) (fun _ _ _ hq hs => hq.step hs)
    (Manned.setWorkers endpoints)

/-- The only worker exits without an error event while a block is asked for, and so does the
worker that replaces it. -/
def exitsTwice : List Event := [.getBlockFromWorker 5 0 1000, .exit 0, .exit 0]

/-- The place holds a worker that has exited, and the promise for the block stays pending. -/
theorem exitsTwice_lost : ∃ p, machine.Run Machine.Free (.setWorkers 1) exitsTwice p ∧
    (∃ worker ∈ p.workers[0]?, worker ∈ p.exited) ∧
    (∃ request ∈ p.requests[0]?, request.settled = none ∧ request.worker = some ⟨0, false⟩ ∧
      ⟨0, false⟩ ∈ p.exited) ∧ ¬ Survives p := by
  obtain ⟨p, hr, hplace, hrequest⟩ : ∃ p,
      machine.Run Machine.Free (.setWorkers 1) exitsTwice p ∧
      (∃ worker ∈ p.workers[0]?, worker ∈ p.exited) ∧
      ∃ request ∈ p.requests[0]?, request.settled = none ∧ request.worker = some ⟨0, false⟩ ∧
        ⟨0, false⟩ ∈ p.exited := Machine.exists_run_of_exec (by decide)
  refine ⟨p, hr, hplace, hrequest, fun hsurvives => ?_⟩
  obtain ⟨worker, hworker, hexited⟩ := hplace
  exact hsurvives.workers worker (List.mem_of_getElem? hworker) hexited

/-- An error event comes before each worker exits for the first time. -/
def exitsAfterErrors : List Event :=
  [.getBlockFromWorker 5 0 1000, .getBlockFromWorker 6 1 1000,
    .error ⟨0, false⟩ (.unknown "out of memory"), .exit 0, .getBlockFromWorker 5 0 2000,
    .message 2 (.ok ⟨5, "0xa5", "0xa4"⟩), .error ⟨1, false⟩ (.unknown "out of memory"), .exit 1]

/-- Each worker that exits is idle, and is replaced. -/
theorem exitsAfterErrors_survives : ∃ p,
    machine.Run Machine.Free (.setWorkers 2) exitsAfterErrors p ∧
    p.workers = [⟨0, true⟩, ⟨1, true⟩] ∧
    ∀ fs q, fs <+: exitsAfterErrors → machine.Run Machine.Free (.setWorkers 2) fs q →
      Survives q := by
  obtain ⟨p, hr, hworkers⟩ : ∃ p, machine.Run ExitsIdle (.setWorkers 2) exitsAfterErrors p ∧
      p.workers = [⟨0, true⟩, ⟨1, true⟩] := Machine.exists_run_of_exec (by decide)
  have hfree := hr.mono (H := Machine.Free) fun _ _ _ => trivial
  exact ⟨p, hfree, hworkers, (survives_iff_exitsIdle hfree).mpr hr⟩

end ChainIndexer.Workers.Pool
