import ChainIndexer.Subscription.Phase
import ChainIndexer.Subscription.Tracked

/-!
# Gaps across liveness restarts

The arithmetic of `addWorkerJobToQueue` is right as long as `backFillBlocks` has
the queue and the next block to itself. A restart can start it while
`processQueue` is still suspended on a job of the session before, and a re-org
report moves the next block past a block that was not emitted. There is no gap in
the runs where neither phase starts in such a state.
-/

namespace ChainIndexer.Subscription

open Climbs (rise lt_rise)

variable {cfg : Config} {s t u : State} {start bound : Nat}

/-- The client has subscribed once, and the workers answer with the blocks they were asked
for. -/
def LeftAlone (s : State) : Event → Prop
  | .subscribe _ | .unsubscribe | .processed (.error _) | .backFilled _ (.error _) => False
  | .processed (.ok block) => ∀ job ∈ s.processing, block.number = job.height
  | .backFilled i (.ok block) =>
    ∀ task ∈ s.tasks[i]?, ∀ job ∈ task.job, block.number = job.height
  | .finalized .. | .latest .. | .woken _ | .unsubscribed .. | .timeout _ | .data .. | .failed ..
  | .answer _ | .assigned _ => True

instance (s : State) : (e : Event) → Decidable (LeftAlone s e)
  | .subscribe _ | .unsubscribe | .processed (.error _) | .backFilled _ (.error _) => .isFalse id
  | .processed (.ok block) =>
    inferInstanceAs (Decidable (∀ job ∈ s.processing, block.number = job.height))
  | .backFilled i (.ok block) => inferInstanceAs (Decidable
      (∀ task ∈ s.tasks[i]?, ∀ job ∈ task.job, block.number = job.height))
  | .finalized .. | .latest .. | .woken _ | .unsubscribed .. | .timeout _ | .data .. | .failed ..
  | .answer _ | .assigned _ => .isTrue trivial

/-- The start block of the `subscribe` that chooses a phase when an event happens. -/
def choosesFor (s : State) : Event → Option Nat
  | .latest i _ (.ok latestBlockNumber) => match s.tasks[i]? with
    | some (.latest _ startBlock) =>
      if s.nextBlock ≤ latestBlockNumber then some startBlock else none
    | _ => none
  | _ => none

/-- A suspended `unsubscribe` goes on; after that of `checkIfLive` the object subscribes again. -/
def Event.closes : Event → Bool
  | .unsubscribed _ (.ok ()) => true
  | _ => false

/-- `backFillBlocks` starts only while `processQueue` is idle, and the object goes on by itself
only while no error has ended `processQueue`. -/
def SwitchesIdle (s : State) (e : Event) : Prop :=
  (∀ startBlock ∈ choosesFor s e, IsHistorical s startBlock →
    s.processing = none ∧ s.fatalError = false) ∧ (e.closes = true → s.fatalError = false)

instance (s : State) (e : Event) : Decidable (SwitchesIdle s e) :=
  inferInstanceAs (Decidable (_ ∧ _))

/-- The steps of a subscription that is left alone and changes its phase only when idle. -/
def Undisturbed (s : State) (e : Event) : Prop := LeftAlone s e ∧ SwitchesIdle s e

instance (s : State) (e : Event) : Decidable (Undisturbed s e) :=
  inferInstanceAs (Decidable (_ ∧ _))

/-- The loop of `backFillBlocks` at its head: the next blocks are queued in order. -/
structure Looping (s : State) (id : Nat) : Prop where
  active : s.activeBackFillingId = some id
  tasks : s.tasks = []
  timers : s.timers = []
  listening : s.listening = []
  idle : s.processing = none
  errorless : s.fatalError = false
  queued : s.queue.map Job.height = (List.range' s.nextBlock s.queue.length).map Nat.cast

/-- A loop at its head leaves nothing to `processQueue`. -/
theorem Looping.awaited {id : Nat} (h : Looping s id) :
    ∀ job ∈ s.processing, job.level ≤ bound := by
  rw [h.idle]
  exact nofun

/-- An activation that the loop leaves behind is the only one. -/
theorem Looping.parked {id : Nat} (h : Looping s id) (task : Task) :
    s.tasks ++ [task] = [task] := by
  rw [h.tasks, List.nil_append]

/-- The loop ends by subscribing again from the next block. -/
theorem Looping.again {id : Nat} (h : Looping s id) (hg : Gapless start bound s.calls)
    (hn : s.nextBlock ≤ bound) : Steady start bound
      (subscribe { s with activeBackFillingId := none } .backFillBlocks s.nextBlock) := by
  have hheights : heights s = List.range' s.nextBlock s.queue.length := by
    rw [heights, waiting, h.idle]
    exact map_level_eq h.queued
  have hclimbs : Climbs rise bound (heights s) := by
    rw [hheights]
    exact Climbs.range' lt_rise _ hn
  have hcloses : ∀ id ∈ s.listening, s.subscription = some id := by simp [h.listening]
  have htasks := h.parked (.finalized .backFillBlocks s.nextBlock)
  refine ⟨hg, starts_of_tasks htasks ?_, fun _ => hn, h.awaited, Or.inl ⟨rfl, fun _ => hclimbs,
    hcloses, Or.inr ⟨_, htasks, h.timers, h.listening, trivial⟩⟩⟩
  rintro caller startBlock ⟨⟩
  exact hn

/-- At its head the loop awaits the next block, or subscribes again from it. -/
theorem Looping.run {id : Nat} (h : Looping s id) (hg : Gapless start bound s.calls)
    (hn : s.nextBlock ≤ bound) : Steady start bound (runBackFill s id) := by
  unfold runBackFill
  split
  · rename_i job rest hq
    split
    · have htasks := h.parked (.backFill id job)
      have hqueued := h.queued
      rw [hq, List.map_cons, List.length_cons, List.range'_succ, List.map_cons] at hqueued
      exact ⟨hg, starts_of_tasks htasks (by simp), fun _ => hn, h.awaited, Or.inr ⟨id, job,
        h.active, htasks, h.timers, h.listening, h.idle, h.errorless,
        List.head_eq_of_cons_eq hqueued, List.tail_eq_of_cons_eq hqueued⟩⟩
    · exact h.again hg hn
  · exact h.again hg hn

private theorem finalized_steady {i : Nat} {result : Except Thrown Nat} (hs : Steady start bound s)
    (h : finalized cfg s i result = some t) : Steady start bound t := by
  unfold finalized at h
  split at h
  · rename_i caller startBlock hi
    obtain rfl := Option.some.inj h
    obtain ⟨rfl, hlive, hbetween⟩ := hs.between hi nofun
    have hle := hs.starts caller startBlock (List.mem_of_getElem? hi)
    cases result with
    | error error => exact hs.thrown hlive hbetween caller
    | ok number =>
      have hclimbs : Climbs rise bound ((s.processing.toList ++ []).map Job.level) := by
        cases hp : s.processing with
        | none => trivial
        | some job => exact ⟨hs.awaited job hp, trivial⟩
      have htasks := hbetween.moved (.latest caller startBlock)
      refine ⟨hs.gapless, starts_of_tasks htasks (by simp), fun _ => hle, hs.awaited,
        Or.inl ⟨hlive.inactive, fun _ => hclimbs, hlive.closes,
          Or.inr ⟨_, htasks, hbetween.timers, hbetween.listening, rfl, fun _ => ?_⟩⟩⟩
      have hfold := Climbs.le_foldl_rise ((s.processing.toList ++ []).map Job.level) bound
      change (startBlock : Int) - 1 <
        (((s.processing.toList ++ []).map Job.level).foldl rise bound : Nat)
      omega
  · cases h

/-- A subscription that goes live is attended by its timer. -/
theorem subscribeLogs_steady {caller : Caller} {startBlock : Nat} (hs : Steady start bound s)
    (hlive : Live bound s) (hbetween : Between bound s (.latest caller startBlock)) :
    Steady start bound (subscribeLogs (finish s 0)) := by
  refine ⟨hs.gapless, ?_, hs.next, hs.awaited, Or.inl ⟨hlive.inactive, hlive.climbs, ?_,
    Or.inl ⟨hbetween.ended, ?_, fun _ => hbetween.switching.2⟩⟩⟩
  · change ∀ caller startBlock, _ ∈ s.tasks.eraseIdx 0 → _
    rw [hbetween.ended]
    exact nofun
  · change ∀ id ∈ s.listening ++ [s.subscriptions], some s.subscriptions = some id
    rw [hbetween.listening]
    exact List.forall_mem_singleton.mpr rfl
  · change (s.timers ++ [_]).length ≤ 1
    rw [hbetween.timers]
    exact Nat.le_refl 1

/-- `backFillBlocks` starts alone, with the next blocks in order. -/
theorem backFillBlocks_steady {caller : Caller} {startBlock : Nat} (hs : Steady start bound s)
    (hbetween : Between bound s (.latest caller startBlock)) (hidle : s.processing = none)
    (herrorless : s.fatalError = false) (now : Nat) :
    Steady start bound (backFillBlocks cfg (finish s 0) now) := by
  obtain ⟨assignments, heq⟩ := assignments_eq now (List.range cfg.workers)
    { finish s 0 with activeBackFillingId := some now }
  unfold backFillBlocks
  dsimp only
  rw [heq]
  refine Looping.run ⟨rfl, hbetween.ended, hbetween.timers, hbetween.listening, hidle,
    herrorless, ?_⟩ hs.gapless (hs.next herrorless)
  change (s.queue ++ jobsFrom _ _ _).map Job.height =
    (List.range' s.nextBlock (s.queue ++ jobsFrom _ _ _).length).map Nat.cast
  rw [hbetween.switching.1, List.nil_append, jobsFrom_map_height, length_jobsFrom,
    List.length_map, List.length_map, List.length_range, List.range'_eq_map_range]
  rfl

/-- The one activation moves to another await of the same phase. -/
theorem Steady.move {task other : Task} (hs : Steady start bound s) (hlive : Live bound s)
    (hbetween : Between bound s task) (hswitching : Switching bound s other)
    (hother : ∀ caller startBlock, other ≠ .finalized caller startBlock) :
    Steady start bound { s with tasks := s.tasks.set 0 other } := by
  have htasks := hbetween.moved other
  exact ⟨hs.gapless, starts_of_tasks htasks fun caller n h => absurd h (hother caller n), hs.next,
    hs.awaited, Or.inl ⟨hlive.inactive, hlive.climbs, hlive.closes,
      Or.inr ⟨_, htasks, hbetween.timers, hbetween.listening, hswitching⟩⟩⟩

private theorem latest_steady {i now : Nat} {result : Except Thrown Nat} (hs : Steady start bound s)
    (hg : SwitchesIdle s (.latest i now result)) (h : latest cfg s i now result = some t) :
    Steady start bound t := by
  unfold latest at h
  split at h
  · rename_i caller startBlock hi
    obtain rfl := Option.some.inj h
    obtain ⟨rfl, hlive, hbetween⟩ := hs.between hi nofun
    cases result with
    | error error => exact hs.thrown hlive hbetween caller
    | ok latestBlockNumber =>
      dsimp only
      split
      · exact hs.move hlive hbetween hbetween.switching nofun
      · rename_i hnext
        split
        · rename_i hhistorical
          have hchooses :
              choosesFor s (.latest 0 now (.ok latestBlockNumber)) = some startBlock := by
            rw [choosesFor, hi]
            exact if_pos (Nat.le_of_not_lt hnext)
          obtain ⟨hidle, herrorless⟩ := hg.1 startBlock hchooses hhistorical
          exact backFillBlocks_steady hs hbetween hidle herrorless now
        · exact subscribeLogs_steady hs hlive hbetween
  · cases h

private theorem woken_steady {i : Nat} (hs : Steady start bound s) (h : woken s i = some t) :
    Steady start bound t := by
  unfold woken at h
  split at h
  · rename_i caller startBlock hi
    obtain rfl := Option.some.inj h
    obtain ⟨rfl, hlive, hbetween⟩ := hs.between hi nofun
    exact hs.move hlive hbetween hbetween.switching nofun
  · cases h

/-- A restart subscribes again from the next block. -/
theorem restarted_steady {task : Task} (hs : Steady start bound s) (hlive : Live bound s)
    (hbetween : Between bound s task) (hf : s.fatalError = false) (subscription : Option Nat) :
    Steady start bound (subscribe (closed (finish s 0) subscription) .checkIfLive s.nextBlock) := by
  have htasks : s.tasks.eraseIdx 0 ++ [.finalized .checkIfLive s.nextBlock] =
      [.finalized .checkIfLive s.nextBlock] := by
    rw [hbetween.ended, List.nil_append]
  obtain ⟨other, hclosed⟩ := closed_eq (finish s 0) subscription
  have hcloses : ∀ id ∈ s.listening, other = some id := by
    rw [hbetween.listening]
    exact nofun
  rw [hclosed]
  refine ⟨hs.gapless, starts_of_tasks htasks ?_, hs.next, hs.awaited, Or.inl ⟨hlive.inactive,
    hlive.climbs, hcloses, Or.inr ⟨_, htasks, hbetween.timers, hbetween.listening, trivial⟩⟩⟩
  rintro caller startBlock ⟨⟩
  exact hs.next hf

private theorem unsubscribed_steady {i : Nat} {result : Except Thrown Unit}
    (hs : Steady start bound s)
    (hg : SwitchesIdle s (.unsubscribed i result)) (h : unsubscribed s i result = some t) :
    Steady start bound t := by
  unfold unsubscribed at h
  split at h
  · rename_i hi
    exact ((hs.between hi nofun).2.2.switching).elim
  · rename_i hi
    exact ((hs.between hi nofun).2.2.switching).elim
  · rename_i subscription hi
    obtain rfl := Option.some.inj h
    obtain ⟨rfl, hlive, hbetween⟩ := hs.between hi nofun
    exact restarted_steady hs hlive hbetween (hg.2 rfl) subscription
  · rename_i hi
    obtain rfl := Option.some.inj h
    obtain ⟨rfl, hlive, hbetween⟩ := hs.between hi nofun
    exact hs.thrown hlive hbetween .checkIfLive
  · cases h

/-- A timer that fires in a stalled subscription closes it and drops the queue. -/
theorem stalled_steady {i : Nat} (hs : Steady start bound s) (hlive : Live bound s)
    (hattended : Attended bound s) (htimers : s.timers.eraseIdx i = []) :
    Steady start bound { unsubscribe { s with timers := s.timers.eraseIdx i } with
      tasks := s.tasks ++ [.restarting s.subscription] } := by
  have htasks : s.tasks ++ [.restarting s.subscription] = [.restarting s.subscription] := by
    rw [hattended.tasks, List.nil_append]
  have hclimbs : s.fatalError = false →
      Climbs rise bound ((s.processing.toList ++ []).map Job.level) := by
    intro hf
    have hclimbs := hlive.climbs hf
    rw [heights, waiting, List.map_append, Climbs.append] at hclimbs
    rw [List.append_nil]
    exact hclimbs.1
  have hlistening : s.listening.filter (fun id => s.subscription ≠ some id) = [] := by
    refine List.filter_eq_nil_iff.mpr fun id hid => ?_
    simp [hlive.closes id hid]
  refine ⟨hs.gapless, starts_of_tasks htasks (by simp), hs.next, hs.awaited, Or.inl ⟨rfl, hclimbs,
    fun id hid => hlive.closes id (List.mem_of_mem_filter hid),
    Or.inr ⟨_, htasks, ?_, hlistening, trivial⟩⟩⟩
  change (s.timers.eraseIdx i).filter _ = []
  rw [htimers, List.filter_nil]

/-- The timer restarts the subscription, or is set again. -/
theorem timeout_steady {i : Nat} (hs : Steady start bound s) (h : timeout s i = some t) :
    Steady start bound t := by
  unfold timeout at h
  split at h
  · rename_i timer hi
    obtain rfl := Option.some.inj h
    obtain ⟨hlive, hattended, htimers⟩ := hs.timed hi
    dsimp only
    split
    · exact stalled_steady hs hlive hattended htimers
    · refine ⟨hs.gapless, hs.starts, hs.next, hs.awaited, Or.inl ⟨hlive.inactive, hlive.climbs,
        hlive.closes, Or.inl ⟨hattended.tasks, ?_, hattended.received⟩⟩⟩
      change (s.timers.eraseIdx i ++ [_]).length ≤ 1
      rw [htimers]
      exact Nat.le_refl 1
  · cases h

/-- A log event requests heights that continue the waiting ones. -/
theorem data_steady {subscription : Nat} {log : Log} (hm : Marked s) (hs : Steady start bound s)
    (h : data s subscription log = some t) : Steady start bound t := by
  obtain ⟨hid, ⟨rfl, _⟩ | ⟨blockHash, blockNumber, _, _, _, hr⟩⟩ := data_cases hm h
  · exact hs
  obtain ⟨hlive, hattended⟩ := hs.attended hid
  have hheights : heights t =
      heights s ++ (missedBlocks s blockNumber ++ [blockNumber]).map Int.toNat := by
    have hwaiting := congrArg (List.map Job.level) hr.waiting
    rw [List.map_append, jobsFrom_map_level] at hwaiting
    exact hwaiting
  have hmore : s.fatalError = false →
      Climbs rise bound (heights t) ∧ blockNumber < ((heights t).foldl rise bound : Nat) := by
    intro hf
    have hnew := missedBlocks_climbs lt_rise
      (hattended.received (List.ne_nil_of_mem hid) hf) blockNumber
    rw [hheights, Climbs.append, List.foldl_append]
    exact ⟨⟨hlive.climbs hf, hnew.1⟩, hnew.2⟩
  have hawaited : ∀ job ∈ t.processing, job.level ≤ bound := by
    intro job hjob
    rcases hr.processing with hsame | ⟨hf, _⟩
    · exact hs.awaited job (hsame ▸ hjob)
    · have hclimbs := (hmore hf).1
      rw [heights, waiting, hjob] at hclimbs
      exact hclimbs.1
  have hreceived : s.fatalError = false → blockNumber < ((heights t).foldl rise bound : Nat) :=
    fun hf => (hmore hf).2
  have hclimbs := fun hf => (hmore hf).1
  rw [hr.frame] at hclimbs hawaited hreceived ⊢
  exact ⟨hs.gapless, hs.starts, hs.next, hawaited, Or.inl ⟨hlive.inactive, hclimbs, hlive.closes,
    Or.inl ⟨hattended.tasks, hattended.timers, fun _ => hreceived⟩⟩⟩

/-- What no phase reads. -/
structure Still (s t : State) : Prop where
  tasks : t.tasks = s.tasks := by rfl
  timers : t.timers = s.timers := by rfl
  listening : t.listening = s.listening := by rfl
  subscription : t.subscription = s.subscription := by rfl
  active : t.activeBackFillingId = s.activeBackFillingId := by rfl
  fatalError : t.fatalError = s.fatalError := by rfl
  nextBlock : t.nextBlock = s.nextBlock := by rfl
  received : t.lastReceivedBlockNumber = s.lastReceivedBlockNumber := by rfl
  queue : t.queue = s.queue := by rfl
  processing : t.processing = s.processing := by rfl

/-- What moves nothing keeps the invariant, if the calls have no gap. -/
theorem Steady.still (hs : Steady start bound s) (h : Still s t)
    (hg : Gapless start bound t.calls) : Steady start bound t := by
  have hheights : heights t = heights s := by rw [heights, waiting, h.processing, h.queue]; rfl
  have hreceived : Received bound s → Received bound t := by
    unfold Received
    rw [h.fatalError, h.received, hheights]
    exact id
  refine ⟨hg, h.tasks ▸ hs.starts, ?_, h.processing ▸ hs.awaited, ?_⟩
  · rw [h.fatalError, h.nextBlock]
    exact hs.next
  · rcases hs.phase with hlive | ⟨id, job, hfilling⟩
    · refine Or.inl ⟨h.active.trans hlive.inactive, ?_, ?_, ?_⟩
      · rw [h.fatalError, hheights]
        exact hlive.climbs
      · rw [h.listening, h.subscription]
        exact hlive.closes
      · exact control_congr h.tasks h.timers h.listening (fun hq => h.queue.trans hq) hreceived
          hlive.control
    · refine Or.inr ⟨id, job, h.active.trans hfilling.active, h.tasks.trans hfilling.tasks,
        h.timers.trans hfilling.timers, h.listening.trans hfilling.listening,
        h.processing.trans hfilling.idle, h.fatalError.trans hfilling.errorless,
        hfilling.height.trans (congrArg Nat.cast h.nextBlock.symm), ?_⟩
      rw [h.queue, h.nextBlock]
      exact hfilling.queued

/-- A block that `processQueue` gets is the first of the waiting heights. -/
theorem emit_steady {job : Job} {block : Block} (hs : Steady start bound s)
    (hp : s.processing = some job) (hn : block.number = job.height)
    (hr : Requested { s with
      nextBlock := block.number + 1, seen := s.seen ++ [block],
      calls := s.calls ++ [.next .processQueue block],
      lastEmittedBlock := some ⟨block.number, block.hash⟩, processing := none,
      processingQueue := false } t []) : Steady start (rise bound block.number) t := by
  have hle : block.number ≤ bound := Job.level_eq hn ▸ hs.awaited job hp
  have hwaiting : waiting t = s.queue := hr.waiting.trans (List.append_nil _)
  have hheights : heights s = block.number :: heights t := by
    rw [heights, heights, waiting, hp, hwaiting, ← Job.level_eq hn]
    rfl
  have hempty : s.queue = [] → t.queue = [] := by
    intro hq
    rw [hq, waiting, List.append_eq_nil_iff] at hwaiting
    exact hwaiting.2
  have hfatal : t.fatalError = s.fatalError := by rw [hr.frame]
  have hlive := hs.live hp
  have hclimbs : t.fatalError = false → Climbs rise (rise bound block.number) (heights t) := by
    intro hf
    have hclimbs := hlive.climbs (hfatal ▸ hf)
    rw [hheights] at hclimbs
    exact hclimbs.2
  have hreceived : Received bound s → Received (rise bound block.number) t := by
    intro hreceived hf
    have hlt := hreceived (hfatal ▸ hf)
    rw [hheights] at hlt
    rw [show t.lastReceivedBlockNumber = s.lastReceivedBlockNumber by rw [hr.frame]]
    exact hlt
  have hawaited : ∀ next ∈ t.processing, next.level ≤ rise bound block.number := by
    intro next hnext
    rcases hr.processing with hnone | ⟨hf, _⟩
    · cases hnone.symm.trans hnext
    · have hnew := hclimbs (hfatal.trans hf)
      rw [heights, waiting, hnext] at hnew
      exact hnew.1
  have hcontrol : Attended (rise bound block.number) t ∨
      ∃ task, Between (rise bound block.number) t task :=
    control_congr (by rw [hr.frame]) (by rw [hr.frame]) (by rw [hr.frame]) hempty hreceived
      hlive.control
  rw [hr.frame] at hclimbs hawaited hcontrol ⊢
  exact ⟨hs.gapless.next .processQueue hle,
    fun caller n hmem => Nat.le_trans (hs.starts caller n hmem) (Nat.le_max_left _ _),
    fun _ => Nat.le_max_right _ _, hawaited,
    Or.inl ⟨hlive.inactive, hclimbs, hlive.closes, hcontrol⟩⟩

/-- A reported re-org stops `processQueue`. -/
theorem reorg_steady {job : Job} (hs : Steady start bound s) (hp : s.processing = some job)
    (block : Block) : Steady start bound
      (caught { s with nextBlock := block.number + 1, seen := s.seen ++ [block] }
        (.reorg block)) := by
  have hlive := hs.live hp
  exact ⟨hs.gapless.append (List.forall_mem_singleton.mpr rfl), hs.starts, nofun, nofun,
    Or.inl ⟨hlive.inactive, nofun, hlive.closes,
      control_congr (s := s) rfl rfl rfl id (fun _ => nofun) hlive.control⟩⟩

private theorem processed_steady {result : Except Thrown Block} (hm : Marked s)
    (hs : Steady start bound s) (hg : LeftAlone s (.processed result))
    (h : processed s result = some t) : ∃ bound, Steady start bound t := by
  cases result with
  | error error => exact hg.elim
  | ok block =>
    cases processed_effect hm h with
    | quiet _ he _ _ => cases he
    | clear he _ _ => cases he
    | abort _ he _ _ => cases he
    | backFill _ _ _ _ he _ _ _ _ _ _ => cases he
    | reorg hp _ => exact ⟨bound, reorg_steady hs hp block⟩
    | emit hp _ hr => exact ⟨_, emit_steady hs hp (hg _ hp) hr⟩

/-- The loop of `backFillBlocks` passes on the next block. -/
theorem backFilled_steady {i : Nat} {result : Except Thrown Block} (hs : Steady start bound s)
    (hg : LeftAlone s (.backFilled i result)) (h : backFilled s i result = some t) :
    ∃ bound, Steady start bound t := by
  cases result with
  | error error => exact hg.elim
  | ok block =>
    unfold backFilled at h
    split at h
    · rename_i id job hi
      obtain ⟨_, ht⟩ := Option.ite_none_right_eq_some.mp h
      obtain rfl := Option.some.inj ht
      obtain ⟨rfl, hfilling⟩ := hs.filling hi
      have hheight : block.number = s.nextBlock :=
        Int.ofNat_inj.mp ((hg _ hi job rfl).trans hfilling.height)
      have hle : block.number ≤ bound := hheight ▸ hs.next hfilling.errorless
      have hcontinues : ¬ (s.activeBackFillingId ≠ some id ∨ s.fatalError = true) := by
        simp [hfilling.active, hfilling.errorless]
      dsimp only
      rw [if_neg hcontinues]
      refine ⟨rise bound block.number, Looping.run ⟨hfilling.active, ?_, hfilling.timers,
        hfilling.listening, hfilling.idle, hfilling.errorless, hfilling.queued⟩
        (hs.gapless.next .backFillBlocks hle) ?_⟩
      · change s.tasks.eraseIdx 0 = []
        rw [hfilling.tasks]
        rfl
      · change s.nextBlock + 1 ≤ rise bound block.number
        rw [hheight]
        exact Nat.le_max_right _ _
    · cases h

/-- `addWorkerJobToQueue` asks for the height after the queued ones. -/
theorem assigned_steady {i : Nat} (hs : Steady start bound s) (h : assigned s i = some t) :
    Steady start bound t := by
  unfold assigned at h
  split at h
  · obtain rfl := Option.some.inj h
    split
    · exact hs
    · exact hs.still {} hs.gapless
  · rename_i id job _
    obtain ⟨_, ht⟩ := Option.ite_none_right_eq_some.mp h
    obtain rfl := Option.some.inj ht
    split
    · rename_i hactive
      rcases hs.phase with hlive | ⟨other, awaited, hfilling⟩
      · have hnone := hlive.inactive.symm.trans hactive.1
        cases hnone
      · refine ⟨hs.gapless, hs.starts, hs.next, hs.awaited, Or.inr ⟨other, awaited,
          hfilling.active, hfilling.tasks, hfilling.timers, hfilling.listening, hfilling.idle,
          hfilling.errorless, hfilling.height, ?_⟩⟩
        change (s.queue ++ [_]).map Job.height =
          (List.range' (s.nextBlock + 1) (s.queue ++ [_]).length).map Nat.cast
        rw [List.map_append, List.length_append, hfilling.queued, ← List.range'_append_1,
          List.map_append]
        simp [Nat.add_right_comm]
    · exact hs.still {} hs.gapless
  · cases h

/-- Every event that does not disturb keeps the invariant. -/
theorem step_steady {e : Event} (hm : Marked s) (hs : ∃ bound, Steady start bound s)
    (hg : Undisturbed s e) (h : step cfg s e = some t) : ∃ bound, Steady start bound t := by
  obtain ⟨bound, hs⟩ := hs
  obtain ⟨halone, hidle⟩ := hg
  cases e with
  | subscribe startBlock => exact halone.elim
  | unsubscribe => exact halone.elim
  | finalized i result => exact ⟨bound, finalized_steady hs h⟩
  | latest i now result => exact ⟨bound, latest_steady hs hidle h⟩
  | woken i => exact ⟨bound, woken_steady hs h⟩
  | unsubscribed i result => exact ⟨bound, unsubscribed_steady hs hidle h⟩
  | timeout i => exact ⟨bound, timeout_steady hs h⟩
  | data subscription log => exact ⟨bound, data_steady hm hs h⟩
  | failed subscription error =>
    obtain ⟨_, ht⟩ := Option.ite_none_right_eq_some.mp h
    obtain rfl := Option.some.inj ht
    exact ⟨bound, hs.still {} (hs.gapless.append (List.forall_mem_singleton.mpr rfl))⟩
  | answer job =>
    obtain ⟨_, ht⟩ := Option.ite_none_right_eq_some.mp h
    obtain rfl := Option.some.inj ht
    exact ⟨bound, hs.still {} hs.gapless⟩
  | processed result => exact processed_steady hm hs halone h
  | backFilled i result => exact backFilled_steady hs halone h
  | assigned i => exact ⟨bound, assigned_steady hs h⟩

/-- In every undisturbed run of a subscription from the start block, each height above it is
emitted after the one below. -/
theorem no_gap {start : Nat} {es : List Event}
    (h : (machine cfg).Run Undisturbed (subscribe State.init .client start) es s) :
    Each (Preceded start) s.calls := by
  have hinit : Marked (subscribe State.init .client start) ∧
      ∃ bound, Steady start bound (subscribe State.init .client start) :=
    ⟨rfl, start, Steady.init start⟩
  obtain ⟨_, bound, hs⟩ := h.invariant
    (I := fun s => Marked s ∧ ∃ bound, Steady start bound s)
    (fun _ _ _ hs hg ht => ⟨(step_effect hs.1 ht).marked hs.1, step_steady hs.1 hs.2 hg ht⟩) hinit
  exact hs.gapless.preceded

/-- The worker is late with block 5, so the timer restarts the object, which back fills. -/
def lateAnswer : List Event :=
  [.finalized 0 (.ok 6), .latest 0 0 (.ok 6), .data 0 ⟨some "0xa5", some 5⟩, .timeout 0,
    .timeout 0, .unsubscribed 0 (.ok ()), .finalized 0 (.ok 100), .latest 0 200 (.ok 120),
    .answer 0, .processed (.ok ⟨5, "0xa5", "0xa4"⟩), .answer 1, .assigned 0,
    .backFilled 0 (.ok ⟨5, "0xa5", "0xa4"⟩), .answer 3, .backFilled 0 (.ok ⟨7, "0xa7", "0xa6"⟩)]

/-- `processQueue` has shifted the job for block 6, and block 7 is emitted before it. -/
theorem lateAnswer_gap :
    ∃ s, (machine ⟨2, 0⟩).Run Machine.Free (subscribe State.init .client 5) lateAnswer s ∧
      s.calls = [.next .processQueue ⟨5, "0xa5", "0xa4"⟩,
        .next .backFillBlocks ⟨5, "0xa5", "0xa4"⟩, .next .backFillBlocks ⟨7, "0xa7", "0xa6"⟩] ∧
      ¬ Each (Preceded 5) s.calls := by
  obtain ⟨s, hr, hcalls⟩ :
      ∃ s, (machine ⟨2, 0⟩).Run Machine.Free (subscribe State.init .client 5) lateAnswer s ∧
        s.calls = [.next .processQueue ⟨5, "0xa5", "0xa4"⟩,
          .next .backFillBlocks ⟨5, "0xa5", "0xa4"⟩, .next .backFillBlocks ⟨7, "0xa7", "0xa6"⟩] :=
    Machine.exists_run_of_exec (by decide)
  refine ⟨s, hr, hcalls, fun hpreceded => ?_⟩
  obtain ⟨earlier, hmem, hn⟩ :=
    hpreceded [_, _] _ [] hcalls (.backFillBlocks, ⟨7, "0xa7", "0xa6"⟩) rfl (by decide)
  rcases List.mem_cons.mp hmem with rfl | hmem
  · cases hn
  · cases List.mem_singleton.mp hmem
    cases hn

/-- The worker is late again, but the restart stays live; the next one back fills when
`processQueue` is idle. -/
def idleRestarts : List Event :=
  [.finalized 0 (.ok 6), .latest 0 0 (.ok 6), .data 0 ⟨some "0xa5", some 5⟩, .timeout 0,
    .timeout 0, .unsubscribed 0 (.ok ()), .finalized 0 (.ok 7), .latest 0 100 (.ok 8),
    .answer 0, .processed (.ok ⟨5, "0xa5", "0xa4"⟩), .timeout 0, .unsubscribed 0 (.ok ()),
    .finalized 0 (.ok 100), .latest 0 200 (.ok 120), .answer 1, .assigned 0,
    .backFilled 0 (.ok ⟨6, "0xa6", "0xa5"⟩), .answer 2, .backFilled 0 (.ok ⟨7, "0xa7", "0xa6"⟩)]

/-- With an idle `processQueue` the restart leaves no gap. -/
theorem idleRestarts_no_gap :
    ∃ s, (machine ⟨2, 0⟩).Run Undisturbed (subscribe State.init .client 5) idleRestarts s ∧
      (emissions s.calls).map (fun emission => emission.2.number) = [5, 6, 7] ∧
      Each (Preceded 5) s.calls := by
  obtain ⟨s, hr, hemissions⟩ :
      ∃ s, (machine ⟨2, 0⟩).Run Undisturbed (subscribe State.init .client 5) idleRestarts s ∧
        (emissions s.calls).map (fun emission => emission.2.number) = [5, 6, 7] :=
    Machine.exists_run_of_exec (by decide)
  exact ⟨s, hr, hemissions, no_gap hr⟩

end ChainIndexer.Subscription
