import ChainIndexer.Core.History
import ChainIndexer.Subscription.Tracked

/-!
# A live session

From the moment `subscribe` goes live until the next `subscribe` or `unsubscribe`,
only log events ask for blocks and only `processQueue` passes them on. A ledger
beside the state keeps the accepted log events, the requests they led to and the
calls of the observer, each with the request it answers.
-/

namespace ChainIndexer.Subscription

variable {cfg : Config} {s₀ s t u : State} {start : Nat}

/-- A call of `unsubscribe` that the client has made. -/
def Task.unsubscribes : Task → Bool
  | .unsubscribing _ => true
  | .finalized .. | .latest .. | .asleep .. | .backFill .. | .restarting _ => false

/-- The events of a live session: log events and errors of the log subscription, the answers of the
workers and what follows from them. Timers may only be set again. Activations left over from before
may end. -/
def Uninterrupted (s : State) : Event → Prop
  | .data .. | .failed .. | .answer _ | .processed _ | .assigned _ | .backFilled .. => True
  | .timeout i => ∀ timer ∈ s.timers[i]?, s.lastBlockHash ≠ timer.lastBlockHash
  | .unsubscribed i _ => (s.tasks[i]?).any Task.unsubscribes = true
  | .subscribe _ | .unsubscribe | .finalized .. | .latest .. | .woken _ => False

instance (s : State) : (e : Event) → Decidable (Uninterrupted s e)
  | .data .. | .failed .. | .answer _ | .processed _ | .assigned _ | .backFilled .. =>
    .isTrue trivial
  | .timeout i => inferInstanceAs (Decidable (∀ timer ∈ s.timers[i]?,
      s.lastBlockHash ≠ timer.lastBlockHash))
  | .unsubscribed i _ => inferInstanceAs (Decidable ((s.tasks[i]?).any Task.unsubscribes = true))
  | .subscribe _ | .unsubscribe | .finalized .. | .latest .. | .woken _ => .isFalse id

/-- What `subscribe` leaves when it goes live with an empty queue and `processQueue` idle. -/
structure Begun (start : Nat) (s : State) : Prop where
  active : s.activeBackFillingId = none
  queue : s.queue = []
  processing : s.processing = none
  processingQueue : s.processingQueue = false
  fatalError : s.fatalError = false
  lastReceivedBlockNumber : s.lastReceivedBlockNumber = (start : Int) - 1

/-- A call of `getBlockFromWorker`, with the log event that is handled and the one accepted last
before it. -/
structure Request where
  job : Job
  log : Option Log
  last : Option Log
  deriving DecidableEq, Repr

/-- What has been seen of a session. -/
structure Ledger where
  /-- The log events that were accepted. -/
  accepted : List Log := []
  requests : List Request := []
  /-- The calls of the observer; those of `processQueue` with the job it awaited. -/
  calls : List (Option Job × Call) := []

/-- The log event that is handled. -/
def Event.log : Event → Option Log
  | .data _ log => some log
  | .subscribe _ | .unsubscribe | .finalized .. | .latest .. | .woken _ | .unsubscribed ..
  | .timeout _ | .failed .. | .answer _ | .processed _ | .backFilled .. | .assigned _ => none

/-- The job whose await in `processQueue` settles. -/
def Event.jobAwaited (s : State) : Event → Option Job
  | .processed _ => s.processing
  | .subscribe _ | .unsubscribe | .finalized .. | .latest .. | .woken _ | .unsubscribed ..
  | .timeout _ | .data .. | .failed .. | .answer _ | .backFilled .. | .assigned _ => none

/-- The jobs that a step has created. -/
def created (s t : State) : List Job := (waiting t).filter fun job => s.jobs ≤ job.id

/-- A log event is accepted when it leads to requests. -/
def Ledger.record (s : State) (e : Event) (t : State) (l : Ledger) : Ledger where
  accepted := l.accepted ++ if s.jobs < t.jobs then e.log.toList else []
  requests := l.requests ++ (created s t).map fun job => ⟨job, e.log, l.accepted.getLast?⟩
  calls := l.calls ++ (t.calls.drop s.calls.length).map fun call => (e.jobAwaited s, call)

/-- The height requested last; before the first request, the one below the start block. -/
def lastHeight (start : Nat) (requests : List Request) : Int :=
  match requests.getLast? with
  | none => (start : Int) - 1
  | some request => request.job.height

/-- The log event is well formed, and its hash is not that of the one accepted last. -/
def Request.Fresh (request : Request) : Prop :=
  ∃ log ∈ request.log, log.blockNumber = some request.job.height ∧ ∃ blockHash ∈ log.blockHash,
    blockHash ≠ "" ∧ blockHash ≠ zeroBlockHash ∧
      ∀ last ∈ request.last, last.blockHash ≠ some blockHash

/-- A request is for the height after the last one, or for the same height again, which a log
event at that height has asked for. -/
def Continues (start : Nat) (before : List Request) (request : Request) : Prop :=
  request.job.height = lastHeight start before + 1 ∨
    request.job.height = lastHeight start before ∧ request.Fresh

/-- The calls that `processQueue` makes for the jobs it awaits. -/
def answers (calls : List (Option Job × Call)) : List (Job × Call) :=
  calls.filterMap fun call => call.1.map fun job => (job, call.2)

@[simp] theorem answers_append (calls more : List (Option Job × Call)) :
    answers (calls ++ more) = answers calls ++ answers more := List.filterMap_append

@[simp] theorem answers_some (job : Job) (call : Call) :
    answers [(some job, call)] = [(job, call)] := rfl

private theorem answers_none (calls : List Call) :
    answers (calls.map fun call => (none, call)) = [] := by
  rw [answers, List.filterMap_map, List.filterMap_eq_nil_iff]
  exact fun _ _ => rfl

/-- The observer has been called with an error. -/
def Fails (call : Option Job × Call) : Prop := call.2.toError.isSome = true

/-- These blocks have been passed on in the order of the requests, and then at most one error; what
was called for no request are errors. -/
structure Passed (s : State) (l : Ledger) (emitted : List (Job × Block))
    (failure : Option (Job × Call)) : Prop where
  calls : answers l.calls =
    emitted.map (fun (job, block) => (job, .next .processQueue block)) ++ failure.toList
  others : ∀ call ∈ l.calls, call.1 = none → Fails call
  error : ∀ last ∈ failure, last.2.toError.isSome = true
  fatalError : failure.isSome = true → s.fatalError = true
  stopped : failure.isSome = true → s.processing = none
  order : emitted.map Prod.fst ++ (failure.map Prod.fst).toList ++ waiting s =
    l.requests.map Request.job

/-- What is kept of a live session that began in the first state. -/
structure Kept (start : Nat) (s₀ s : State) (l : Ledger) : Prop where
  active : s.activeBackFillingId = none
  marked : Marked s
  ids : l.requests.map (fun request => request.job.id) = List.range' s₀.jobs l.requests.length
  jobs : s.jobs = s₀.jobs + l.requests.length
  calls : s.calls = s₀.calls ++ l.calls.map Prod.snd
  follows : Each (Continues start) l.requests
  lastHeight : lastHeight start l.requests = s.lastReceivedBlockNumber
  lastHash : ∀ log ∈ l.accepted.getLast?, log.blockHash = some s.lastBlockHash
  accepted : ∀ log ∈ l.accepted, ∃ n ∈ log.blockNumber, n ≤ s.lastReceivedBlockNumber
  passed : ∃ emitted failure, Passed s l emitted failure

/-- Nothing has been seen of a session that begins. -/
theorem Begun.kept (h : Begun start s) : Kept start s s {} where
  active := h.active
  marked := by
    rw [Marked, h.processingQueue, h.processing]
    rfl
  ids := rfl
  jobs := rfl
  calls := (List.append_nil _).symm
  follows := Each.nil
  lastHeight := h.lastReceivedBlockNumber.symm
  lastHash := nofun
  accepted := nofun
  passed := ⟨[], none, rfl, nofun, nofun, nofun, nofun,
    by simp [waiting, h.queue, h.processing]⟩

variable {requests : List Request} {l : Ledger}

theorem lastHeight_snoc (start : Nat) (requests : List Request) (request : Request) :
    lastHeight start (requests ++ [request]) = request.job.height := by
  simp [lastHeight]

/-- The heights requested never fall below the one before the start block. -/
theorem le_lastHeight (h : Each (Continues start) requests) :
    (start : Int) - 1 ≤ lastHeight start requests := by
  induction requests using List.reverseRecOn with
  | nil => exact Int.le_refl _
  | append_singleton requests request ih =>
    obtain ⟨hbefore, hrequest⟩ := Each.snoc_iff.mp h
    have hle := ih hbefore
    rw [lastHeight_snoc]
    rcases hrequest with hnext | ⟨hsame, _⟩
    · omega
    · omega

/-- Every height from the start block to the last one requested has been requested. -/
theorem exists_request (h : Each (Continues start) requests) {height : Int}
    (hstart : start ≤ height) (hlast : height ≤ lastHeight start requests) :
    ∃ request ∈ requests, request.job.height = height := by
  induction requests using List.reverseRecOn with
  | nil =>
    change height ≤ (start : Int) - 1 at hlast
    omega
  | append_singleton requests request ih =>
    obtain ⟨hbefore, hrequest⟩ := Each.snoc_iff.mp h
    rw [lastHeight_snoc] at hlast
    by_cases hheight : request.job.height = height
    · exact ⟨request, by simp, hheight⟩
    · have hle : height ≤ lastHeight start requests := by
        rcases hrequest with hnext | ⟨hsame, _⟩
        · omega
        · omega
      obtain ⟨other, hmem, hother⟩ := ih hbefore hle
      exact ⟨other, List.mem_append_left _ hmem, hother⟩

/-- Requests for consecutive heights follow. -/
theorem continues_range' {source : Source} (log last : Option Log) (count first size : Nat)
    (h : Each (Continues start) requests) (hfirst : first = lastHeight start requests + 1) :
    Each (Continues start) (requests ++
        (jobsFrom source count ((List.range' first size).map Nat.cast)).map (⟨·, log, last⟩)) ∧
      lastHeight start (requests ++
        (jobsFrom source count ((List.range' first size).map Nat.cast)).map (⟨·, log, last⟩)) =
        lastHeight start requests + size := by
  induction size generalizing requests count first with
  | zero => simpa [jobsFrom] using h
  | succ size ih =>
    rw [List.range'_succ, List.map_cons, jobsFrom, List.map_cons, List.append_cons]
    have hsnoc : Each (Continues start) (requests ++ [⟨⟨count, first, source⟩, log, last⟩]) :=
      Each.snoc_iff.mpr ⟨h, Or.inl hfirst⟩
    obtain ⟨heach, hlast⟩ := ih (count + 1) (first + 1) hsnoc (by
      rw [lastHeight_snoc]
      rfl)
    refine ⟨heach, ?_⟩
    rw [hlast, lastHeight_snoc]
    change (first : Int) + size = _
    omega

/-- A log event that is not discarded. -/
theorem wellFormed_eq {log : Log} {blockHash : String} {blockNumber : Int}
    (h : wellFormed s log = some (blockHash, blockNumber)) :
    log.blockHash = some blockHash ∧ log.blockNumber = some blockNumber ∧ blockHash ≠ "" ∧
      blockHash ≠ zeroBlockHash ∧ s.lastReceivedBlockNumber ≤ blockNumber := by
  unfold wellFormed at h
  split at h
  · rename_i hash number hhash hnumber
    split at h
    · cases h
    · rename_i hnot
      rw [not_or, not_or, Int.not_lt] at hnot
      obtain ⟨rfl, rfl⟩ := Prod.mk.inj (Option.some.inj h)
      exact ⟨hhash, hnumber, hnot⟩
  · cases h

/-- The heights that a log event asks for continue those requested. -/
theorem continues_data {log : Log} {last : Option Log} {blockHash : String}
    {blockNumber : Int} (h : Each (Continues start) requests)
    (hlast : lastHeight start requests = s.lastReceivedBlockNumber)
    (hlog : wellFormed s log = some (blockHash, blockNumber))
    (hnew : ∀ other ∈ last, other.blockHash ≠ some blockHash) (count : Nat) :
    Each (Continues start) (requests ++ (jobsFrom .processQueue count
        (missedBlocks s blockNumber ++ [blockNumber])).map (⟨·, some log, last⟩)) ∧
      lastHeight start (requests ++ (jobsFrom .processQueue count
        (missedBlocks s blockNumber ++ [blockNumber])).map (⟨·, some log, last⟩)) =
        blockNumber := by
  obtain ⟨hhash, hnumber, hempty, hzero, hle⟩ := wellFormed_eq hlog
  have hstart := le_lastHeight h
  rcases Int.lt_or_eq_of_le hle with hlt | heq
  · have hheights : missedBlocks s blockNumber ++ [blockNumber] =
        (List.range' (s.lastReceivedBlockNumber + 1).toNat
          ((blockNumber - s.lastReceivedBlockNumber - 1).toNat + 1)).map Nat.cast := by
      rw [List.range'_1_concat, List.map_append, missedBlocks]
      congr 1
      rw [List.map_cons, List.map_nil, List.cons.injEq]
      exact ⟨by omega, rfl⟩
    rw [hheights]
    obtain ⟨heach, hheight⟩ := continues_range' (some log) last count
      (s.lastReceivedBlockNumber + 1).toNat
      ((blockNumber - s.lastReceivedBlockNumber - 1).toNat + 1) h (by omega)
    exact ⟨heach, hheight.trans (by omega)⟩
  · have hnone : missedBlocks s blockNumber = [] := by
      rw [missedBlocks, ← heq]
      simp
    rw [hnone, List.nil_append, jobsFrom, jobsFrom, List.map_cons, List.map_nil]
    refine ⟨Each.snoc_iff.mpr ⟨h, Or.inr ⟨?_, log, rfl, hnumber, blockHash, hhash, hempty, hzero,
      hnew⟩⟩, lastHeight_snoc _ _ _⟩
    exact (hlast.trans heq).symm

/-- Every job that waits has been requested. -/
theorem Kept.waiting_lt (h : Kept start s₀ s l) : ∀ job ∈ waiting s, job.id < s.jobs := by
  intro job hmem
  obtain ⟨emitted, failure, hpassed⟩ := h.passed
  have hin : job ∈ l.requests.map Request.job := by
    rw [← hpassed.order]
    exact List.mem_append_right _ hmem
  obtain ⟨request, hrequest, rfl⟩ := List.mem_map.mp hin
  have hid : request.job.id ∈ l.requests.map fun request => request.job.id :=
    List.mem_map_of_mem hrequest
  rw [h.ids, List.mem_range'_1, ← h.jobs] at hid
  exact hid.2

/-- A step after which nothing but old jobs waits has created none. -/
theorem Kept.created_nil (h : Kept start s₀ s l) (hsub : waiting t ⊆ waiting s) :
    created s t = [] := by
  refine List.filter_eq_nil_iff.mpr fun job hmem => ?_
  have hlt := h.waiting_lt job (hsub hmem)
  simp only [decide_eq_true_eq]
  omega

/-- Nothing that the ledger or what is kept reads has changed, except that errors may have been
passed on, one of which may have ended `processQueue`. -/
structure Unmoved (s t : State) : Prop where
  active : t.activeBackFillingId = s.activeBackFillingId
  lastReceivedBlockNumber : t.lastReceivedBlockNumber = s.lastReceivedBlockNumber
  lastBlockHash : t.lastBlockHash = s.lastBlockHash
  jobs : t.jobs = s.jobs
  queue : t.queue = s.queue
  processing : t.processing = s.processing
  processingQueue : t.processingQueue = s.processingQueue
  fatalError : s.fatalError = true → t.fatalError = true
  calls : ∃ errors : List BaseError, t.calls = s.calls ++ errors.map .error

theorem Unmoved.refl (s : State) : Unmoved s s :=
  ⟨rfl, rfl, rfl, rfl, rfl, rfl, rfl, id, [], (List.append_nil _).symm⟩

/-- A step without a new job leaves the requests as they are. -/
theorem Ledger.record_eq {e : Event} (hcreated : created s t = []) (hjobs : t.jobs = s.jobs) :
    l.record s e t = { l with
      calls := l.calls ++
        (t.calls.drop s.calls.length).map fun call => (e.jobAwaited s, call) } := by
  simp [Ledger.record, hcreated, hjobs]

/-- What moves nothing keeps this. -/
theorem Kept.unmoved {e : Event} (h : Kept start s₀ s l) (he : e.jobAwaited s = none)
    (hu : Unmoved s t) : Kept start s₀ t (l.record s e t) := by
  have hwaiting : waiting t = waiting s := by rw [waiting, hu.processing, hu.queue, waiting]
  have hcreated := h.created_nil (t := t) (by rw [hwaiting]; exact List.Subset.refl _)
  obtain ⟨errors, hcalls⟩ := hu.calls
  rw [Ledger.record_eq hcreated hu.jobs, he, hcalls, List.drop_left]
  obtain ⟨emitted, failure, hpassed⟩ := h.passed
  refine ⟨hu.active.trans h.active, ?_, h.ids, hu.jobs.trans h.jobs, ?_,
    h.follows, h.lastHeight.trans hu.lastReceivedBlockNumber.symm, ?_, ?_, emitted, failure,
    ?_, ?_, hpassed.error, fun hfailure => hu.fatalError (hpassed.fatalError hfailure), ?_, ?_⟩
  · rw [Marked, hu.processingQueue, hu.processing]
    exact h.marked
  · simp [hcalls, h.calls, Function.comp_def]
  · rw [hu.lastBlockHash]
    exact h.lastHash
  · rw [hu.lastReceivedBlockNumber]
    exact h.accepted
  · rw [answers_append, answers_none, List.append_nil]
    exact hpassed.calls
  · intro call hmem hnone
    rcases List.mem_append.mp hmem with hold | hnew
    · exact hpassed.others call hold hnone
    · rw [List.map_map] at hnew
      obtain ⟨error, _, rfl⟩ := List.mem_map.mp hnew
      rfl
  · rw [hu.processing]
    exact hpassed.stopped
  · rw [hwaiting]
    exact hpassed.order

/-- A log event that is accepted is recorded with the requests it leads to. -/
theorem data_record {subscription : Nat} {log : Log} {heights : List Int} (h : Kept start s₀ s l)
    (hwaiting : waiting t = waiting s ++ jobsFrom .processQueue s.jobs heights)
    (hlt : s.jobs < t.jobs) (hcalls : t.calls = s.calls) :
    l.record s (.data subscription log) t = { l with
      accepted := l.accepted ++ [log]
      requests := l.requests ++ (jobsFrom .processQueue s.jobs heights).map
        (⟨·, some log, l.accepted.getLast?⟩) } := by
  have hold : (waiting s).filter (fun job => s.jobs ≤ job.id) = [] :=
    h.created_nil (t := s) (List.Subset.refl _)
  have hall : (jobsFrom .processQueue s.jobs heights).filter (fun job => s.jobs ≤ job.id) =
      jobsFrom .processQueue s.jobs heights :=
    List.filter_eq_self.mpr fun job hmem => decide_eq_true (id_lt_of_mem_jobsFrom hmem).1
  have hcreated : created s t = jobsFrom .processQueue s.jobs heights := by
    rw [created, hwaiting, List.filter_append, hold, hall, List.nil_append]
  simp [Ledger.record, hcreated, hlt, hcalls, Event.log]

/-- A log event is discarded or known, or its heights are requested. -/
theorem data_kept {subscription : Nat} {log : Log} (h : Kept start s₀ s l)
    (hs : data s subscription log = some t) :
    Kept start s₀ t (l.record s (.data subscription log) t) := by
  obtain ⟨_, ⟨rfl, _⟩ | ⟨blockHash, blockNumber, hlog, hnew, hjobs, hr⟩⟩ := data_cases h.marked hs
  · exact h.unmoved rfl (.refl t)
  obtain ⟨hhash, hnumber, _, _, hle⟩ := wellFormed_eq hlog
  have hlt : s.jobs < t.jobs := by
    rw [hjobs, List.length_append, List.length_singleton]
    omega
  have hcalls : t.calls = s.calls := by rw [hr.frame]
  have hnewer : ∀ other ∈ l.accepted.getLast?, other.blockHash ≠ some blockHash := by
    intro other hother heq
    rw [h.lastHash other hother] at heq
    exact hnew (Option.some.inj heq)
  obtain ⟨hfollows, hheight⟩ := continues_data h.follows h.lastHeight hlog
    hnewer s.jobs
  have hreceived : t.lastReceivedBlockNumber = blockNumber := by rw [hr.frame]
  obtain ⟨emitted, failure, hpassed⟩ := h.passed
  rw [data_record h hr.waiting hlt hcalls]
  refine ⟨?_, hr.marked, ?_, ?_, hcalls.trans h.calls, hfollows, hheight.trans hreceived.symm,
    ?_, ?_, emitted, failure, hpassed.calls, hpassed.others, hpassed.error, ?_, ?_, ?_⟩
  · rw [hr.frame]
    exact h.active
  · rw [List.map_append, h.ids, List.map_map, List.length_append, List.length_map, h.jobs,
      length_jobsFrom, ← List.range'_append_1]
    exact congrArg _ (jobsFrom_map_id _ _ _)
  · rw [hjobs, h.jobs]
    simp only [List.length_append, List.length_map, length_jobsFrom, Nat.add_assoc]
  · intro other hother
    rw [List.getLast?_concat] at hother
    obtain rfl := Option.some.inj hother
    rw [hr.frame]
    exact hhash
  · intro other hother
    rw [hreceived]
    rcases List.mem_append.mp hother with hold | hlast
    · obtain ⟨n, hn, hbefore⟩ := h.accepted other hold
      exact ⟨n, hn, Int.le_trans hbefore hle⟩
    · rw [List.mem_singleton.mp hlast]
      exact ⟨blockNumber, hnumber, Int.le_refl _⟩
  · rw [hr.frame]
    exact hpassed.fatalError
  · intro hfailure
    have hnone := hpassed.stopped hfailure
    rcases hr.processing with hsame | ⟨hf, _⟩
    · exact hsame.trans hnone
    · have hfatal : s.fatalError = true := hpassed.fatalError hfailure
      exact absurd (hfatal.symm.trans hf) nofun
  · rw [hr.waiting, List.map_append, ← hpassed.order, List.map_map]
    have hjobs : ∀ jobs : List Job, jobs.map
        (Request.job ∘ (⟨·, some log, l.accepted.getLast?⟩)) = jobs := List.map_id
    rw [hjobs, List.append_assoc _ (waiting s)]
    rfl

/-- Nothing has failed while `processQueue` awaits a job. -/
theorem Passed.running {emitted : List (Job × Block)} {failure : Option (Job × Call)} {job : Job}
    (h : Passed s l emitted failure) (hp : s.processing = some job) : failure = none := by
  cases failure with
  | none => rfl
  | some last =>
    rw [h.stopped rfl] at hp
    cases hp

/-- An error ends `processQueue`. -/
theorem caught_kept {e : Event} {job : Job} {call : Call} (h : Kept start s₀ s l)
    (he : e.jobAwaited s = some job) (hp : s.processing = some job)
    (herror : call.toError.isSome = true) (hu : Unmoved s u) (hcalls : u.calls = s.calls) :
    Kept start s₀ (caught u call) (l.record s e (caught u call)) := by
  have hwaiting : waiting (caught u call) = s.queue := by
    rw [← hu.queue]
    rfl
  have hcreated : created s (caught u call) = [] := by
    refine h.created_nil ?_
    rw [hwaiting]
    exact List.subset_append_right _ _
  have hnew : ((caught u call).calls.drop s.calls.length).map
      (fun call => (e.jobAwaited s, call)) = [(some job, call)] := by
    simp [caught, hcalls, he]
  obtain ⟨emitted, failure, hpassed⟩ := h.passed
  obtain rfl := hpassed.running hp
  rw [Ledger.record_eq hcreated hu.jobs, hnew]
  refine ⟨hu.active.trans h.active, rfl, h.ids, hu.jobs.trans h.jobs, ?_, h.follows,
    h.lastHeight.trans hu.lastReceivedBlockNumber.symm, ?_, ?_, emitted,
    some (job, call), ?_, ?_, ?_, fun _ => rfl, fun _ => rfl, ?_⟩
  · simp [caught, hcalls, h.calls]
  · change ∀ log ∈ l.accepted.getLast?, log.blockHash = some u.lastBlockHash
    rw [hu.lastBlockHash]
    exact h.lastHash
  · change ∀ log ∈ l.accepted, ∃ n ∈ log.blockNumber, n ≤ u.lastReceivedBlockNumber
    rw [hu.lastReceivedBlockNumber]
    exact h.accepted
  · simp [hpassed.calls]
  · intro other hmem hnone
    rcases List.mem_append.mp hmem with hold | hlast
    · exact hpassed.others other hold hnone
    · rw [List.mem_singleton.mp hlast] at hnone
      cases hnone
  · rintro _ ⟨⟩
    exact herror
  · rw [hwaiting, ← hpassed.order, waiting, hp]
    simp

/-- A block that is passed on answers the first request that waits. -/
theorem emit_kept {e : Event} {job : Job} {block : Block} (h : Kept start s₀ s l)
    (he : e.jobAwaited s = some job) (hp : s.processing = some job) (hjobs : t.jobs = s.jobs)
    (hr : Requested { s with
      nextBlock := block.number + 1, seen := s.seen ++ [block],
      calls := s.calls ++ [.next .processQueue block],
      lastEmittedBlock := some ⟨block.number, block.hash⟩, processing := none,
      processingQueue := false } t []) : Kept start s₀ t (l.record s e t) := by
  have hwaiting : waiting t = s.queue := hr.waiting.trans (List.append_nil _)
  have hcreated : created s t = [] := by
    refine h.created_nil ?_
    rw [hwaiting]
    exact List.subset_append_right _ _
  obtain ⟨emitted, failure, hpassed⟩ := h.passed
  obtain rfl := hpassed.running hp
  have hcalls : t.calls = s.calls ++ [.next .processQueue block] := by rw [hr.frame]
  have hnew : (t.calls.drop s.calls.length).map (fun call => (e.jobAwaited s, call)) =
      [(some job, .next .processQueue block)] := by
    rw [hcalls, List.drop_left, he]
    rfl
  rw [Ledger.record_eq hcreated hjobs, hnew]
  refine ⟨?_, hr.marked, h.ids, hjobs.trans h.jobs, ?_, h.follows, h.lastHeight.trans ?_, ?_, ?_,
    emitted ++ [(job, block)], none, ?_, ?_, nofun, nofun, nofun, ?_⟩
  · rw [hr.frame]
    exact h.active
  · simp [hcalls, h.calls]
  · rw [hr.frame]
  · rw [hr.frame]
    exact h.lastHash
  · rw [hr.frame]
    exact h.accepted
  · simp [hpassed.calls]
  · intro other hmem hnone
    rcases List.mem_append.mp hmem with hold | hlast
    · exact hpassed.others other hold hnone
    · rw [List.mem_singleton.mp hlast] at hnone
      cases hnone
  · rw [hwaiting, ← hpassed.order, waiting, hp]
    simp

private theorem processed_kept {result : Except Thrown Block} (h : Kept start s₀ s l)
    (hs : processed s result = some t) : Kept start s₀ t (l.record s (.processed result) t) := by
  obtain ⟨job, hp, ⟨error, rfl, rfl⟩ | ⟨block, rfl, ⟨_, rfl⟩ | ⟨_, hjobs, hr⟩⟩⟩ :=
    processed_cases h.marked hs
  · exact caught_kept h hp hp rfl (.refl s) rfl
  · exact caught_kept h hp hp rfl { Unmoved.refl s with } rfl
  · exact emit_kept h hp hp hjobs hr

/-- A live session leaves the jobs of the workers to back filling. -/
theorem assigned_kept {i : Nat} (h : Kept start s₀ s l) (hs : assigned s i = some t) :
    Kept start s₀ t (l.record s (.assigned i) t) := by
  unfold assigned at hs
  split at hs
  · obtain rfl := Option.some.inj hs
    split
    · exact h.unmoved rfl { Unmoved.refl s with }
    · exact h.unmoved rfl { Unmoved.refl s with }
  · obtain ⟨_, ht⟩ := Option.ite_none_right_eq_some.mp hs
    obtain rfl := Option.some.inj ht
    rw [if_neg (by simp [h.active])]
    exact h.unmoved rfl { Unmoved.refl s with }
  · cases hs

/-- A loop of `backFillBlocks` left over from before ends, and may report its error. -/
theorem backFilled_kept {i : Nat} {result : Except Thrown Block} (h : Kept start s₀ s l)
    (hs : backFilled s i result = some t) :
    Kept start s₀ t (l.record s (.backFilled i result) t) := by
  unfold backFilled at hs
  split at hs
  · obtain ⟨_, ht⟩ := Option.ite_none_right_eq_some.mp hs
    obtain rfl := Option.some.inj ht
    cases result with
    | error error =>
      refine h.unmoved rfl { Unmoved.refl s with
        active := h.active.symm, fatalError := fun _ => rfl, calls := ?_ }
      exact ⟨[BlockProducerError.createUnknown error], rfl⟩
    | ok block =>
      dsimp only
      rw [if_pos (Or.inl (by simp [h.active]))]
      exact h.unmoved rfl { Unmoved.refl s with }
  · cases hs

/-- The log subscription reports an error. -/
theorem failed_kept {subscription : Nat} {error : Thrown} (h : Kept start s₀ s l)
    (hs : failed s subscription error = some t) :
    Kept start s₀ t (l.record s (.failed subscription error) t) := by
  obtain ⟨_, ht⟩ := Option.ite_none_right_eq_some.mp hs
  obtain rfl := Option.some.inj ht
  refine h.unmoved rfl { Unmoved.refl s with calls := ?_ }
  exact ⟨[BlockProducerError.createUnknown error], rfl⟩

/-- A timer finds the session alive. -/
theorem timeout_kept {i : Nat} (h : Kept start s₀ s l) (hg : Uninterrupted s (.timeout i))
    (hs : timeout s i = some t) : Kept start s₀ t (l.record s (.timeout i) t) := by
  unfold timeout at hs
  split at hs
  · rename_i timer hi
    obtain rfl := Option.some.inj hs
    dsimp only
    rw [if_neg (hg timer hi)]
    exact h.unmoved rfl { Unmoved.refl s with }
  · cases hs

/-- A call of `unsubscribe` that was made before the session ends late. -/
theorem unsubscribed_kept {i : Nat} {result : Except Thrown Unit} (h : Kept start s₀ s l)
    (hg : (s.tasks[i]?).any Task.unsubscribes = true) (hs : unsubscribed s i result = some t) :
    Kept start s₀ t (l.record s (.unsubscribed i result) t) := by
  have hclosed : ∀ subscription, Unmoved s (closed (finish s i) subscription) := by
    intro subscription
    unfold closed
    split
    · exact { Unmoved.refl s with }
    · exact { Unmoved.refl s with }
  unfold unsubscribed at hs
  split at hs
  · obtain rfl := Option.some.inj hs
    exact h.unmoved rfl (hclosed _)
  · obtain rfl := Option.some.inj hs
    exact h.unmoved rfl { Unmoved.refl s with }
  · rename_i hi
    simp [hi, Task.unsubscribes] at hg
  · rename_i hi
    simp [hi, Task.unsubscribes] at hg
  · cases hs

/-- Every step of a live session keeps its shape. -/
theorem step_kept {e : Event} (h : Kept start s₀ s l) (hg : Uninterrupted s e)
    (hs : step cfg s e = some t) : Kept start s₀ t (l.record s e t) := by
  cases e with
  | data subscription log => exact data_kept h hs
  | processed result => exact processed_kept h hs
  | assigned i => exact assigned_kept h hs
  | timeout i => exact timeout_kept h hg hs
  | unsubscribed i result => exact unsubscribed_kept h hg hs
  | backFilled i result => exact backFilled_kept h hs
  | failed subscription error => exact failed_kept h hs
  | answer job =>
    obtain ⟨_, ht⟩ := Option.ite_none_right_eq_some.mp hs
    obtain rfl := Option.some.inj ht
    exact h.unmoved rfl { Unmoved.refl s with }
  | subscribe startBlock => exact False.elim hg
  | unsubscribe => exact False.elim hg
  | finalized i result => exact False.elim hg
  | latest i now result => exact False.elim hg
  | woken i => exact False.elim hg

/-- A log event leads to requests when it is accepted. -/
def Accepts (s : State) (log : Log) : Prop :=
  ∃ blockHash blockNumber, wellFormed s log = some (blockHash, blockNumber) ∧
    s.lastBlockHash ≠ blockHash

/-- What a live session that began in the first state has come to. -/
structure LiveSession (start : Nat) (s₀ s : State) (l : Ledger) : Prop where
  /-- The ledger holds every call of `getBlockFromWorker` and of the observer. -/
  ids : l.requests.map (fun request => request.job.id) = List.range' s₀.jobs (s.jobs - s₀.jobs)
  calls : s.calls = s₀.calls ++ l.calls.map Prod.snd
  /-- The heights go up by one; a height is repeated only for a log event at it with a new hash. -/
  follows : Each (Continues start) l.requests
  /-- Up to a log event that was accepted every height has been requested. -/
  covered : ∀ log ∈ l.accepted, ∃ n ∈ log.blockNumber, ∀ height : Int,
    start ≤ height → height ≤ n → ∃ request ∈ l.requests, request.job.height = height
  /-- The next log event is accepted when it is well formed and new, and else has no effect. -/
  next : ∀ subscription log t, data s subscription log = some t →
    (s.jobs < t.jobs ↔ Accepts s log) ∧ (¬ Accepts s log → t = s)
  /-- The blocks passed on answer the requests in their order, and an error of `processQueue` ends
  this. Other calls are errors, too. -/
  passed : ∃ (emitted : List (Job × Block)) (failure : Option (Job × Call)),
    answers l.calls =
      emitted.map (fun (job, block) => (job, .next .processQueue block)) ++ failure.toList ∧
    (∀ last ∈ failure, last.2.toError.isSome = true) ∧
    (∀ call ∈ l.calls, call.1 = none → Fails call) ∧
    emitted.map Prod.fst ++ (failure.map Prod.fst).toList <+: l.requests.map Request.job

private theorem data_next {subscription : Nat} {log : Log} (hm : Marked s)
    (h : data s subscription log = some t) :
    (s.jobs < t.jobs ↔ Accepts s log) ∧ (¬ Accepts s log → t = s) := by
  obtain ⟨_, ⟨rfl, hsame⟩ | ⟨blockHash, blockNumber, hlog, hnew, hjobs, _⟩⟩ := data_cases hm h
  · have hnot : ¬ Accepts t log := fun ⟨_, _, hlog, hnew⟩ => hnew (hsame _ _ hlog)
    exact ⟨⟨fun hlt => absurd hlt (Nat.lt_irrefl _), fun ha => absurd ha hnot⟩, fun _ => rfl⟩
  · have haccepts : Accepts s log := ⟨blockHash, blockNumber, hlog, hnew⟩
    refine ⟨⟨fun _ => haccepts, fun _ => ?_⟩, fun hnot => absurd haccepts hnot⟩
    rw [hjobs, List.length_append, List.length_singleton]
    omega

/-- What is kept gives the statement on live sessions. -/
theorem Kept.live (h : Kept start s₀ s l) : LiveSession start s₀ s l where
  ids := by
    rw [h.jobs, Nat.add_sub_cancel_left]
    exact h.ids
  calls := h.calls
  follows := h.follows
  covered log hmem := by
    obtain ⟨n, hn, hle⟩ := h.accepted log hmem
    refine ⟨n, hn, fun height hstart hheight => exists_request h.follows hstart ?_⟩
    rw [h.lastHeight]
    exact Int.le_trans hheight hle
  next _ _ _ := data_next h.marked
  passed := by
    obtain ⟨emitted, failure, hpassed⟩ := h.passed
    exact ⟨emitted, failure, hpassed.calls, hpassed.error, hpassed.others, _, hpassed.order⟩

end ChainIndexer.Subscription
