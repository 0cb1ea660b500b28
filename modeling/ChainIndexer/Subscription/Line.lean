import ChainIndexer.Subscription.Calls
import ChainIndexer.Core.Climb

/-!
# The line of heights that `processQueue` is still to see

In a live session the line climbs at most one height at a time, from at most one
above the last emission. Three things can break it: a loop that shifts a job of
the other one, a session that starts too far ahead, and a log event that is
handled after `unsubscribe` has dropped a part of the line.
-/

namespace ChainIndexer.Subscription

open Climbs (follow lt_follow)

variable {cfg : Config} {s t u : State}

/-- The heights of the job `processQueue` awaits and of the jobs queued for it. -/
def line (s : State) : List Nat :=
  (s.processing.toList ++ s.queue.filter fun job => job.source = .processQueue).map Job.level

/-- Each loop shifts only jobs that were queued for it. -/
def OwnJobs (s : State) (e : Event) : Prop :=
  ∀ source ∈ e.shifts, ∀ job ∈ s.queue.head?, job.source = source

instance (s : State) (e : Event) : Decidable (OwnJobs s e) :=
  inferInstanceAs (Decidable (∀ source ∈ _, _))

/-- The start block of the `subscribe` that resets the object when an event happens. -/
def resetTo (s : State) : Event → Option Nat
  | .finalized i (.ok _) => match s.tasks[i]? with
    | some (.finalized _ startBlock) => some startBlock
    | _ => none
  | _ => none

/-- A session starts at most one past the last emission, and at most one past the height that
`processQueue` still awaits. -/
def StartsNear (s : State) (e : Event) : Prop :=
  ∀ startBlock ∈ resetTo s e,
    (∀ last ∈ lastEmission s.calls, startBlock ≤ last.2.number + 1) ∧
      ∀ job ∈ s.processing, startBlock ≤ job.height + 1

instance (s : State) (e : Event) : Decidable (StartsNear s e) :=
  inferInstanceAs (Decidable (∀ startBlock ∈ _, _))

/-- No log event is handled over a line of which jobs were dropped. -/
def HandlesWhole (s : State) : Event → Prop
  | .data .. => s.dropped = false
  | _ => True

instance (s : State) (e : Event) : Decidable (HandlesWhole s e) := by
  unfold HandlesWhole
  split <;> infer_instance

/-- The workers answer with the block of the height they were asked for. -/
def AnswersHeight (s : State) (e : Event) : Prop :=
  ∀ block ∈ e.block, ∀ job ∈ s.processing, block.number = job.height

instance (s : State) (e : Event) : Decidable (AnswersHeight s e) :=
  inferInstanceAs (Decidable (∀ block ∈ _, _))

/-- Nothing breaks the line. -/
def InLine (s : State) (e : Event) : Prop :=
  OwnJobs s e ∧ StartsNear s e ∧ HandlesWhole s e ∧ AnswersHeight s e

instance (s : State) (e : Event) : Decidable (InLine s e) :=
  inferInstanceAs (Decidable (_ ∧ _))

/-- The line climbs from the bound, which is right above the last emission of `processQueue`. -/
structure Climbing (s : State) (bound : Nat) : Prop where
  last : ∀ block, lastEmission s.calls = some (.processQueue, block) → bound = block.number + 1
  awaited : ∀ job ∈ s.processing, job.level ≤ bound
  climbs : s.fatalError = false → Climbs follow bound (line s)
  /-- The next height to be requested continues the line. -/
  received : s.fatalError = false → s.dropped = false →
    s.lastReceivedBlockNumber < ((line s).foldl follow bound : Nat)

theorem Climbing.init : Climbing State.init 1 := by
  refine ⟨nofun, nofun, fun _ => trivial, fun _ _ => ?_⟩
  change (0 : Int) < (1 : Nat)
  omega

/-- Jobs queued for `processQueue` go to the end of the line, whether or not one is shifted. -/
theorem line_append {jobs : List Job} (hw : waiting t = waiting s ++ jobs)
    (hp : t.processing = s.processing ∨ s.processing = none)
    (hjobs : ∀ job ∈ jobs, job.source = .processQueue)
    (hhead : ∀ job ∈ s.queue.head?, job.source = .processQueue) :
    line t = line s ++ jobs.map Job.level := by
  have hfilter : jobs.filter (fun job => job.source = .processQueue) = jobs :=
    List.filter_eq_self.mpr fun job hjob => decide_eq_true (hjobs job hjob)
  unfold waiting at hw
  unfold line
  by_cases hsame : t.processing = s.processing
  · rw [hsame, List.append_assoc, List.append_right_inj] at hw
    rw [hsame, hw, List.filter_append, hfilter, ← List.append_assoc, List.map_append]
  · have hnone := hp.resolve_left hsame
    obtain ⟨job, hjob⟩ := Option.ne_none_iff_exists'.mp (fun h => hsame (h.trans hnone.symm))
    rw [hnone, hjob] at hw
    have hw' : job :: t.queue = s.queue ++ jobs := hw
    have hsource : job.source = .processQueue := by
      cases hq : s.queue with
      | nil =>
        rw [hq, List.nil_append] at hw'
        exact hjobs job (hw' ▸ List.mem_cons_self)
      | cons first rest =>
        rw [hq] at hw'
        obtain rfl := List.head_eq_of_cons_eq hw'
        exact hhead job (by rw [hq]; rfl)
    rw [hnone, hjob]
    calc (job :: t.queue.filter _).map Job.level
      _ = ((job :: t.queue).filter fun job => job.source = .processQueue).map Job.level := by
        rw [List.filter_cons_of_pos (by simpa using hsource)]
      _ = _ := by rw [hw', List.filter_append, hfilter, List.map_append]; rfl

/-- Jobs that were queued and shifted by `backFillBlocks` are not in the line. -/
theorem line_backFill {jobs taken rest : List Job} (hq : s.queue ++ jobs = taken ++ rest)
    (hjobs : ∀ job ∈ jobs, job.source = .backFillBlocks)
    (htaken : taken ≠ [] → taken.length = 1)
    (hhead : taken ≠ [] → ∀ job ∈ s.queue.head?, job.source = .backFillBlocks) :
    line { s with queue := rest } = line s := by
  have hnot : ∀ {l : List Job}, (∀ job ∈ l, job.source = .backFillBlocks) →
      l.filter (fun job => job.source = .processQueue) = [] := by
    intro l hl
    refine List.filter_eq_nil_iff.mpr fun job hjob => ?_
    rw [hl job hjob]
    decide
  have hall : ∀ job ∈ taken, job.source = .backFillBlocks := by
    intro job hjob
    have hne := List.ne_nil_of_mem hjob
    obtain ⟨first, rfl⟩ := List.length_eq_one_iff.mp (htaken hne)
    obtain rfl := List.mem_singleton.mp hjob
    cases hsq : s.queue with
    | nil =>
      rw [hsq, List.nil_append] at hq
      exact hjobs job (hq ▸ List.mem_append_left _ hjob)
    | cons other others =>
      rw [hsq] at hq
      obtain rfl := List.head_eq_of_cons_eq hq
      exact hhead hne other (by rw [hsq]; rfl)
  have hfilter := congrArg (List.filter fun job => job.source = .processQueue) hq
  rw [List.filter_append, List.filter_append, hnot hjobs, hnot hall, List.append_nil,
    List.nil_append] at hfilter
  unfold line
  rw [hfilter]

/-- The heights that one log event requests climb from any bound above the last received one,
and leave the bound above the height of the event. -/
theorem missedBlocks_climbs {next : Nat → Nat → Nat} (hnext : ∀ bound n, n < next bound n)
    {bound : Nat} (h : s.lastReceivedBlockNumber < bound) (blockNumber : Int) :
    Climbs next bound ((missedBlocks s blockNumber ++ [blockNumber]).map Int.toNat) ∧
      blockNumber <
        (((missedBlocks s blockNumber ++ [blockNumber]).map Int.toNat).foldl next bound : Nat) := by
  have hmissed : (missedBlocks s blockNumber).map Int.toNat =
      List.range' (s.lastReceivedBlockNumber + 1).toNat
        (blockNumber - s.lastReceivedBlockNumber - 1).toNat := by
    rw [missedBlocks, List.map_map]
    exact List.map_id _
  have hle : ∀ n : Nat, blockNumber.toNat < n → blockNumber < n := fun n hn => by omega
  rw [List.map_append, hmissed, Climbs.append, List.foldl_append]
  refine ⟨⟨Climbs.range' hnext _ (by omega), ?_, trivial⟩, hle _ (hnext _ _)⟩
  cases hcount : (blockNumber - s.lastReceivedBlockNumber - 1).toNat with
  | zero =>
    change blockNumber.toNat ≤ bound
    omega
  | succ count =>
    have hlt := Climbs.lt_foldl_range' hnext count (s.lastReceivedBlockNumber + 1).toNat bound
    omega

/-- What moves no job and emits nothing keeps the line. -/
theorem Climbing.quiet {bound : Nat} (hs : Climbing s bound) (hq : Quiet s t)
    (hl : lastEmission t.calls = lastEmission s.calls) : Climbing t bound := by
  have hline : line t = line s := by
    unfold line
    rw [hq.processing, hq.queue]
  refine ⟨hl ▸ hs.last, hq.processing ▸ hs.awaited, ?_, ?_⟩
  · rw [hline, hq.fatalError]
    exact hs.climbs
  · rw [hline, hq.fatalError, hq.dropped, hq.lastReceivedBlockNumber]
    exact hs.received

/-- Dropping the queue leaves the job that is awaited. -/
theorem Climbing.clear {bound : Nat} (hs : Climbing s bound) :
    Climbing { s with queue := [], dropped := s.dropped || !s.queue.isEmpty } bound := by
  refine ⟨hs.last, hs.awaited, fun hf => ?_, fun hf hd => ?_⟩
  · have hclimbs := hs.climbs hf
    rw [line, List.map_append, Climbs.append] at hclimbs
    simpa [line] using hclimbs.1
  · rw [Bool.or_eq_false_iff, Bool.not_eq_false', List.isEmpty_iff] at hd
    have hreceived := hs.received hf hd.1
    rwa [line, hd.2] at hreceived

/-- A session that starts near begins a new line behind the job that is awaited. -/
theorem Climbing.reset {bound startBlock : Nat} (hs : Climbing s bound)
    (hlast : ∀ last ∈ lastEmission s.calls, startBlock ≤ last.2.number + 1)
    (hawaited : ∀ job ∈ s.processing, startBlock ≤ job.height + 1) :
    ∃ bound, Climbing { s with
      queue := [], fatalError := false, lastReceivedBlockNumber := (startBlock : Int) - 1,
      dropped := false } bound := by
  cases hp : s.processing with
  | some job =>
    have hle := hawaited job hp
    refine ⟨bound, hs.last, fun other hother => hs.awaited other (hp ▸ hother), fun _ => ?_,
      fun _ _ => ?_⟩
    · exact ⟨hs.awaited job hp, trivial⟩
    · change (startBlock : Int) - 1 < (job.level + 1 : Nat)
      unfold Job.level
      omega
  | none =>
    by_cases hsource : ∃ block, lastEmission s.calls = some (.processQueue, block)
    · obtain ⟨block, hblock⟩ := hsource
      have hle : startBlock ≤ block.number + 1 := hlast _ hblock
      have hbound := hs.last block hblock
      refine ⟨bound, hs.last, nofun, fun _ => trivial, fun _ _ => ?_⟩
      change (startBlock : Int) - 1 < bound
      omega
    · refine ⟨startBlock, fun block hblock => absurd ⟨block, hblock⟩ hsource, nofun,
        fun _ => trivial, fun _ _ => ?_⟩
      change (startBlock : Int) - 1 < startBlock
      omega

/-- What `addWorkerJobToQueue` and the loop of `backFillBlocks` do is outside the line. -/
theorem Climbing.backFill {bound : Nat} {e : Event} {blocks : List Block}
    {jobs taken rest : List Job} (hs : Climbing s bound) (hown : OwnJobs s e)
    (hjobs : ∀ job ∈ jobs, job.source = .backFillBlocks) (hq : s.queue ++ jobs = taken ++ rest)
    (htaken : taken ≠ [] → taken.length = 1 ∧ e.shifts = some .backFillBlocks)
    (hquiet : Quiet { s with queue := rest } t)
    (hcalls : t.calls = s.calls ++ blocks.map (.next .backFillBlocks)) : Climbing t bound := by
  have hline : line { s with queue := rest } = line s :=
    line_backFill hq hjobs (fun hne => (htaken hne).1) fun hne => hown _ (htaken hne).2
  have hrest : Climbing { s with queue := rest } bound :=
    ⟨hs.last, hs.awaited, hline ▸ hs.climbs, hline ▸ hs.received⟩
  rcases List.eq_nil_or_concat blocks with rfl | ⟨blocks, last, rfl⟩
  · refine hrest.quiet hquiet ?_
    rw [hcalls, List.map_nil, List.append_nil]
  · have hlast : lastEmission t.calls = some (.backFillBlocks, last) := by
      rw [hcalls, List.concat_eq_append, List.map_append, ← List.append_assoc]
      exact lastEmission_next _ _ _
    have hclimbs := (Climbing.quiet (t := { t with calls := s.calls }) hrest { hquiet with } rfl)
    refine ⟨fun block hblock => ?_, hclimbs.awaited, hclimbs.climbs, hclimbs.received⟩
    cases hlast.symm.trans hblock

/-- A log event requests the heights that continue the line. -/
theorem Climbing.request {bound : Nat} {blockHash : String} {blockNumber : Int}
    {jobs : List Job} (hs : Climbing s bound) (hdropped : s.dropped = false)
    (hhead : ∀ job ∈ s.queue.head?, job.source = .processQueue)
    (hheights : jobs.map Job.level =
      (missedBlocks s blockNumber ++ [blockNumber]).map Int.toNat)
    (hjobs : ∀ job ∈ jobs, job.source = .processQueue)
    (hr : Requested { s with
      lastBlockHash := blockHash, lastReceivedBlockNumber := blockNumber } t jobs) :
    Climbing t bound := by
  have hline : line t =
      line s ++ (missedBlocks s blockNumber ++ [blockNumber]).map Int.toNat := by
    rw [← hheights]
    exact line_append (s := { s with
      lastBlockHash := blockHash, lastReceivedBlockNumber := blockNumber }) hr.waiting
      (hr.processing.imp id And.right) hjobs hhead
  have hfatal : t.fatalError = s.fatalError := by rw [hr.frame]
  have hmore : s.fatalError = false →
      Climbs follow bound (line t) ∧ blockNumber < ((line t).foldl follow bound : Nat) := by
    intro hf
    have hnew := missedBlocks_climbs lt_follow (hs.received hf hdropped) blockNumber
    rw [hline, Climbs.append, List.foldl_append]
    exact ⟨⟨hs.climbs hf, hnew.1⟩, hnew.2⟩
  refine ⟨?_, fun job hjob => ?_, fun hf => (hmore (hfatal ▸ hf)).1, fun hf _ => ?_⟩
  · rw [hr.frame]
    exact hs.last
  · rcases hr.processing with hsame | ⟨hf, _⟩
    · exact hs.awaited job (hsame ▸ hjob)
    · have hclimbs := (hmore hf).1
      rw [line, hjob] at hclimbs
      exact hclimbs.1
  · have hreceived : t.lastReceivedBlockNumber = blockNumber := by rw [hr.frame]
    rw [hreceived]
    exact (hmore (hfatal ▸ hf)).2

/-- A block that `processQueue` passes on is at the head of the line. -/
theorem Climbing.emit {bound : Nat} {job : Job} {block : Block} (hs : Climbing s bound)
    (hp : s.processing = some job) (hn : block.number = job.height)
    (hhead : ∀ job ∈ s.queue.head?, job.source = .processQueue)
    (hr : Requested { s with
      nextBlock := block.number + 1, seen := s.seen ++ [block],
      calls := s.calls ++ [.next .processQueue block],
      lastEmittedBlock := some ⟨block.number, block.hash⟩, processing := none,
      processingQueue := false } t []) : Climbing t (block.number + 1) := by
  have hline : line s = block.number :: line t := by
    have happend := line_append (s := { s with processing := none }) (t := t) hr.waiting
      (Or.inr rfl) nofun hhead
    rw [List.map_nil, List.append_nil] at happend
    rw [happend, line, hp, ← Job.level_eq hn]
    rfl
  have hfatal : t.fatalError = s.fatalError := by rw [hr.frame]
  have hclimbs : s.fatalError = false → Climbs follow (block.number + 1) (line t) := by
    intro hf
    have hclimbs := hs.climbs hf
    rw [hline] at hclimbs
    exact hclimbs.2
  refine ⟨fun other hother => ?_, fun next hnext => ?_, fun hf => hclimbs (hfatal ▸ hf),
    fun hf hd => ?_⟩
  · rw [hr.frame, lastEmission_next] at hother
    cases hother
    rfl
  · rcases hr.processing with hnone | ⟨hf, _⟩
    · cases hnone.symm.trans hnext
    · have hnew := hclimbs hf
      rw [line, hnext] at hnew
      exact hnew.1
  · have hlt := hs.received (hfatal ▸ hf) (by rw [← hd, hr.frame])
    rw [hline] at hlt
    rw [hr.frame]
    rw [hr.frame] at hlt
    exact hlt

/-- An error that ends `processQueue` leaves no line to climb. -/
theorem Climbing.caught {bound : Nat} {call : Call} (hs : Climbing s bound)
    (hcall : emissions [call] = []) : Climbing (caught s call) bound := by
  refine ⟨fun block hblock => hs.last block ?_, nofun, nofun, nofun⟩
  rwa [Subscription.caught, lastEmission_append_of_nil hcall] at hblock

/-- Every event in line keeps the climb. -/
theorem step_climbing {e : Event} (hc : Consistent s) (hs : ∃ bound, Climbing s bound)
    (hg : InLine s e) (h : step cfg s e = some t) : ∃ bound, Climbing t bound := by
  obtain ⟨bound, hs⟩ := hs
  obtain ⟨hown, hnear, hwhole, hheight⟩ := hg
  cases step_effect hc.marked h with
  | quiet errors _ hq hcalls =>
    refine ⟨bound, hs.quiet hq ?_⟩
    rw [hcalls, lastEmission_append_of_nil (emissions_errors errors)]
  | clear _ hq hcalls => exact ⟨bound, hs.clear.quiet hq (by rw [hcalls])⟩
  | abort error _ hq hcalls =>
    have hfatal : Climbing { s with fatalError := true } bound :=
      ⟨hs.last, hs.awaited, nofun, nofun⟩
    refine ⟨bound, hfatal.quiet hq ?_⟩
    rw [hcalls, lastEmission_append_of_nil (emissions_error error)]
  | @reset i _ number _ startBlock hi hq hcalls =>
    have hreset : resetTo s (.finalized i (.ok number)) = some startBlock := by
      rw [resetTo, hi]
    obtain ⟨hlast, hawaited⟩ := hnear startBlock hreset
    obtain ⟨bound', hs'⟩ := hs.reset hlast hawaited
    exact ⟨bound', hs'.quiet hq (by rw [hcalls])⟩
  | backFill blocks jobs taken rest _ _ hjobs hq htaken hquiet hcalls =>
    exact ⟨bound, hs.backFill hown hjobs hq htaken hquiet hcalls⟩
  | request jobs _ hheights hjobs hr =>
    exact ⟨bound, hs.request hwhole (hown _ rfl) hheights hjobs hr⟩
  | fail _ => exact ⟨bound, hs.caught (emissions_error _)⟩
  | @reorg _ block _ _ =>
    have hseen : Climbing { s with
        nextBlock := block.number + 1, seen := s.seen ++ [block] } bound :=
      ⟨hs.last, hs.awaited, hs.climbs, hs.received⟩
    exact ⟨bound, hseen.caught (emissions_reorg _)⟩
  | @emit job block _ hp _ hr =>
    exact ⟨block.number + 1, hs.emit hp (hheight block rfl job hp) (hown _ rfl) hr⟩

end ChainIndexer.Subscription
