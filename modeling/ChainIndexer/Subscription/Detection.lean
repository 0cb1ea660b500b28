import ChainIndexer.Subscription.Alarm

/-!
# Re-orgs that the live subscription detects

An answer that is not linked to what was emitted at the height below it must be
reported and not passed on. `isReOrgedMissed` compares only with the block that
`processQueue` emitted last, and only above it, while the handler of log events
discards the lower blocks of a new branch. Whether every re-org is reported
depends on how deep the re-orgs are: the chains of the node, the moment each job
was answered at and the answer each emission came from are kept beside the
subscription.
-/

namespace ChainIndexer.Subscription

variable {cfg : Config} {s t : State}

/-- The block is a child of what was emitted last at the height below it, if anything was. -/
def Follows (calls : List Call) (block : Block) : Prop :=
  ∀ below ∈ blockBelow calls block, below.hash = block.parentHash

instance (calls : List Call) (block : Block) : Decidable (Follows calls block) :=
  inferInstanceAs (Decidable (∀ below ∈ _, _))

/-- A call for an answer that does not follow reports a re-org. -/
def Reported (calls : List Call) (call : Call) : Prop :=
  ∀ block ∈ call.answer, ¬ Follows calls block → call = .reorg block

/-- Each answer that `processQueue` gets makes one call, and every re-org is reported. -/
structure Complete (s : State) : Prop where
  answers : s.calls.filterMap Call.answer = s.seen
  reported : Each Reported s.calls

/-- The block is for the height right above the last emission, and that came from
`processQueue`. -/
def OnTop (s : State) (block : Block) : Prop :=
  ∃ last ∈ lastEmission s.calls, last.1 = .processQueue ∧ last.2.number + 1 = block.number

instance (s : State) (block : Block) : Decidable (OnTop s block) :=
  inferInstanceAs (Decidable (∃ last ∈ _, _))

/-- Right above the last emission of `processQueue`, the check lets pass what is linked to it. -/
theorem follows_of_onTop {block : Block} (hs : Recorded s) (htop : OnTop s block)
    (hre : isReOrgedMissed s block = false) : Follows s.calls block := by
  obtain ⟨⟨source, last⟩, hlast, rfl, hn⟩ := htop
  intro below hbelow
  have hsame := blockBelow_of_lastEmission hlast hn
  obtain rfl : last = below := Option.some.inj (hsame.symm.trans hbelow)
  unfold isReOrgedMissed at hre
  rw [hs last hlast] at hre
  have hlt : last.number < block.number := by
    change last.number + 1 = block.number at hn
    omega
  simpa [hlt] using hre

/-- Calls for no answer report nothing. -/
theorem reported_of_answer (calls : List Call) (call : Call) (h : call.answer = none) :
    Reported calls call := by
  intro block hblock
  rw [h] at hblock
  cases hblock

/-- The call for an answer reports a re-org exactly when the check does not miss one. -/
theorem reported_callFor {block : Block} :
    Reported s.calls (callFor s block) ↔
      (isReOrgedMissed s block = false → Follows s.calls block) := by
  unfold Reported callFor
  cases isReOrgedMissed s block <;> simp [Call.answer]

/-- The canonical chains of the node, one after each re-org, and the height from which on a re-org
replaces blocks. -/
structure ChainHistory where
  chain : Nat → StableChain
  fork : Nat → Nat
  kept : ∀ i height, height < fork i → (chain (i + 1)).block height = (chain i).block height

namespace ChainHistory

variable {history : ChainHistory} {i j height : Nat}

/-- No re-org between the two moments has replaced the block at the height. -/
def Keeps (history : ChainHistory) (i j height : Nat) : Prop :=
  ∀ k < max i j, min i j ≤ k → height < history.fork k

instance (history : ChainHistory) (i j height : Nat) : Decidable (history.Keeps i j height) :=
  inferInstanceAs (Decidable (∀ k < max i j, _))

/-- A block that a re-org has replaced does not come back. -/
def NeverReturns (history : ChainHistory) : Prop :=
  ∀ i j height, ¬ history.Keeps i j height →
    ((history.chain i).block height).hash ≠ ((history.chain j).block height).hash

/-- What no re-org reaches stays as it is. -/
theorem block_eq_of_kept (hij : i ≤ j) (h : ∀ k < j, i ≤ k → height < history.fork k) :
    (history.chain i).block height = (history.chain j).block height := by
  induction j with
  | zero => rw [Nat.le_zero.mp hij]
  | succ j ih =>
    rcases Nat.lt_or_eq_of_le hij with hlt | rfl
    · have hle := Nat.le_of_lt_succ hlt
      rw [history.kept j height (h j j.lt_succ_self hle)]
      exact ih hle fun k hk => h k (Nat.lt_succ_of_lt hk)
    · rfl

/-- What was not replaced is the same block at both moments. -/
theorem Keeps.block_eq (h : history.Keeps i j height) :
    (history.chain i).block height = (history.chain j).block height := by
  unfold Keeps at h
  rcases Nat.le_total i j with hij | hji
  · rw [Nat.max_eq_right hij, Nat.min_eq_left hij] at h
    exact block_eq_of_kept hij h
  · rw [Nat.max_eq_left hji, Nat.min_eq_right hji] at h
    exact (block_eq_of_kept hji h).symm

end ChainHistory

/-- A subscription beside the re-orgs of the chain. -/
structure Watched where
  sub : State := {}
  /-- How many re-orgs there have been. -/
  reOrgs : Nat := 0
  /-- How many there had been when a worker answered a job. -/
  answeredAt : Nat → Nat := fun _ => 0
  /-- How many there had been when the block emitted last at a height was answered. -/
  emittedAt : Nat → Option Nat := fun _ => none

/-- What may happen next to the chain or to the subscription. -/
inductive Moment where
  | reOrg
  | event (e : Event)

/-- The job that settles when an event happens. -/
def Event.settles (s : State) : Event → Option Job
  | .processed _ => s.processing
  | .backFilled i _ => match s.tasks[i]? with
    | some (.backFill _ job) => some job
    | _ => none
  | .subscribe _ | .unsubscribe | .finalized .. | .latest .. | .woken _ | .unsubscribed ..
  | .timeout _ | .data .. | .failed .. | .answer _ | .assigned _ => none

/-- The block of that job. -/
def Event.settled : Event → Option Block
  | .processed (.ok block) | .backFilled _ (.ok block) => some block
  | .processed (.error _) | .backFilled _ (.error _) | .subscribe _ | .unsubscribe
  | .finalized .. | .latest .. | .woken _ | .unsubscribed .. | .timeout _ | .data .. | .failed ..
  | .answer _ | .assigned _ => none

/-- The moments of the answers after an event. -/
def Watched.answers (p : Watched) : Event → Nat → Nat
  | .answer job => fun other => if other = job then p.reOrgs else p.answeredAt other
  | _ => p.answeredAt

/-- The moments of the emissions, after these were made for the job that settles. -/
def Watched.emits (p : Watched) (e : Event) (made : List (Source × Block)) : Nat → Option Nat :=
  made.foldl (fun emittedAt emission height =>
    if height = emission.2.number then (e.settles p.sub).map fun job => p.answeredAt job.id
    else emittedAt height) p.emittedAt

/-- A subscription with the record of its answers and emissions. -/
def watch (cfg : Config) : Machine Watched Moment where
  step
    | p, .reOrg => some { p with reOrgs := p.reOrgs + 1 }
    | p, .event e => (step cfg p.sub e).map fun t =>
      { p with
        sub := t
        answeredAt := p.answers e
        emittedAt := p.emits e (emissions (t.calls.drop p.sub.calls.length)) }

/-- The workers answer with the canonical block of the height they were asked for. -/
def Canonical (history : ChainHistory) (p : Watched) : Moment → Prop
  | .reOrg => True
  | .event e => ∀ job ∈ e.settles p.sub, ∀ block ∈ e.settled,
      block = (history.chain (p.answeredAt job.id)).block job.level

instance (history : ChainHistory) (p : Watched) (m : Moment) :
    Decidable (Canonical history p m) := by
  unfold Canonical
  split <;> infer_instance

/-- When the block emitted last at the height below this one was answered. -/
def Watched.below (p : Watched) (block : Block) : Option Nat :=
  match block.number with
  | 0 => none
  | height + 1 => p.emittedAt height

/-- Unless an answer is right above the last emission of `processQueue`, no re-org between it and
the answer that was emitted at the height below it has replaced that height. -/
def Spared (history : ChainHistory) (p : Watched) : Moment → Prop
  | .reOrg => True
  | .event e => ∀ block ∈ e.block, ¬ OnTop p.sub block → ∀ job ∈ p.sub.processing,
      ∀ since ∈ p.below block, history.Keeps since (p.answeredAt job.id) (block.number - 1)

instance (history : ChainHistory) (p : Watched) (m : Moment) :
    Decidable (Spared history p m) := by
  unfold Spared
  split <;> infer_instance

/-- The steps of live sessions whose line is not broken. -/
def InLiveLine (p : Watched) : Moment → Prop
  | .reOrg => True
  | .event e => InLine p.sub e ∧ e.backFills = false

/-- The block emitted last at a height. -/
def emittedLast (calls : List Call) (height : Nat) : Option Block :=
  ((emissions calls).map Prod.snd).reverse.find? fun block => block.number = height

private theorem emittedLast_append_of_nil {calls more : List Call} (h : emissions more = [])
    (height : Nat) : emittedLast (calls ++ more) height = emittedLast calls height := by
  rw [emittedLast, emissions_append, h, List.append_nil, emittedLast]

private theorem emittedLast_next (calls : List Call) (source : Source) (block : Block)
    (height : Nat) :
    emittedLast (calls ++ [.next source block]) height =
      if height = block.number then some block else emittedLast calls height := by
  rw [emittedLast, emissions_append, emissions_next, List.map_append, List.reverse_append]
  by_cases hn : height = block.number
  · simp [hn]
  · have hne : ¬ block.number = height := fun h => hn h.symm
    simp [hn, hne, emittedLast]

/-- What the observer is called with when the loop of `backFillBlocks` goes on. -/
theorem backFilled_made {i : Nat} {result : Except Thrown Block}
    (h : backFilled s i result = some t) : ∃ more, t.calls = s.calls ++ more ∧
      (emissions more = [] ∨ ∃ source job block,
        Event.settles s (.backFilled i result) = some job ∧
        Event.settled (.backFilled i result) = some block ∧ more = [.next source block]) := by
  unfold backFilled at h
  split at h
  · rename_i backFillingId job htask
    have hjob : Event.settles s (.backFilled i result) = some job := by
      rw [Event.settles, htask]
    obtain ⟨_, ht⟩ := Option.ite_none_right_eq_some.mp h
    obtain rfl := Option.some.inj ht
    cases result with
    | error error => exact ⟨_, rfl, Or.inl rfl⟩
    | ok block =>
      dsimp only
      split
      · exact ⟨[], (List.append_nil _).symm, Or.inl rfl⟩
      · rw [runBackFill_calls]
        exact ⟨_, rfl, Or.inr ⟨_, job, block, hjob, rfl, rfl⟩⟩
  · cases h

/-- A step emits nothing, or the block of the job that settles. -/
theorem step_made {e : Event} (hm : Marked s) (h : step cfg s e = some t) :
    ∃ more, t.calls = s.calls ++ more ∧ (emissions more = [] ∨ ∃ source job block,
      e.settles s = some job ∧ e.settled = some block ∧ more = [.next source block]) := by
  rcases (step_effect hm h).calls with
    ⟨job, block, hp, he, _, hcalls⟩ | ⟨_, _, more, hcalls, _, hmore⟩
  · refine ⟨_, hcalls, ?_⟩
    unfold callFor
    split
    · exact Or.inl rfl
    · match e, he with
      | .processed (.ok _), rfl => exact Or.inr ⟨_, job, block, hp, rfl, rfl⟩
  · by_cases hlive : e.backFills = false
    · exact ⟨more, hcalls, Or.inl (hmore hlive)⟩
    · match e, hlive with
      | .backFilled i result, _ => exact backFilled_made h

/-- The block emitted last at a height is the one of the chain that had been reached when it was
answered. -/
def Traced (history : ChainHistory) (p : Watched) : Prop :=
  ∀ height, emittedLast p.sub.calls height =
    (p.emittedAt height).map fun since => (history.chain since).block height

/-- Every canonical answer keeps the trace. -/
theorem step_traced {history : ChainHistory} {p q : Watched} {m : Moment}
    (hs : Traced history p) (hm : Marked p.sub) (hg : Canonical history p m)
    (h : (watch cfg).step p m = some q) : Traced history q := by
  cases m with
  | reOrg =>
    obtain rfl := Option.some.inj h
    exact hs
  | event e =>
    obtain ⟨t, ht, rfl⟩ := Option.map_eq_some_iff.mp h
    obtain ⟨more, hcalls, hmore⟩ := step_made hm ht
    intro height
    dsimp only
    rw [hcalls, List.drop_left]
    rcases hmore with hnone | ⟨source, job, block, hjob, hblock, rfl⟩
    · rw [emittedLast_append_of_nil hnone, hnone]
      exact hs height
    · rw [emittedLast_next, emissions_next, Watched.emits, List.foldl_cons, List.foldl_nil, hjob]
      have hanswer := hg job hjob block hblock
      split
      · rename_i hheight
        have hlevel : block.number = job.level := by
          rw [hanswer, StableChain.number]
        rw [Option.map_some, Option.map_some, hheight, hlevel, ← hanswer]
      · exact hs height

/-- Whether an answer follows depends on the chains that were reached when it was answered and when
what was emitted below it was. -/
theorem follows_iff {history : ChainHistory} {p : Watched} {job : Job} {block : Block}
    (hs : Traced history p)
    (hanswer : block = (history.chain (p.answeredAt job.id)).block job.level) :
    Follows p.sub.calls block ↔ ∀ since ∈ p.below block,
      ((history.chain since).block (block.number - 1)).hash =
        ((history.chain (p.answeredAt job.id)).block (block.number - 1)).hash := by
  have hlevel : block.number = job.level := by
    rw [hanswer, StableChain.number]
  unfold Follows Watched.below
  cases hn : block.number with
  | zero =>
    have hnone : blockBelow p.sub.calls block = none := by
      simp [blockBelow, hn]
    simp [hnone]
  | succ height =>
    have hbelow : blockBelow p.sub.calls block = emittedLast p.sub.calls height := by
      simp [blockBelow, emittedLast, hn]
    have hparent : block.parentHash =
        ((history.chain (p.answeredAt job.id)).block height).hash := by
      rw [StableChain.linked, ← hn, hlevel, ← hanswer]
    rw [hbelow, hs height, hparent]
    simp
/-- What `processQueue` gets is the block of the job it awaits. -/
theorem Event.settles_of_block {e : Event} {block : Block} (h : e.block = some block) :
    e.settles s = s.processing ∧ e.settled = some block := by
  match e, h with
  | .processed (.ok _), rfl => exact ⟨rfl, rfl⟩

/-- Every re-org is reported by the call for an answer that is spared. -/
theorem Spared.reported {history : ChainHistory} {p : Watched} {e : Event}
    (hspared : Spared history p (.event e)) (hs : Traced history p) (hc : Consistent p.sub)
    (hg : Canonical history p (.event e)) (h : step cfg p.sub e = some t) :
    ∀ block ∈ e.block, Reported p.sub.calls (callFor p.sub block) := by
  intro block hblock
  rw [reported_callFor]
  intro hre
  by_cases htop : OnTop p.sub block
  · exact follows_of_onTop hc.recorded htop hre
  · rcases (step_effect hc.marked h).calls with ⟨job, _, hp, _, _, _⟩ | ⟨hnone, _⟩
    · obtain ⟨hsettles, hsettled⟩ := Event.settles_of_block (s := p.sub) hblock
      have hanswer := hg job (hsettles ▸ hp) block hsettled
      rw [follows_iff hs hanswer]
      intro since hsince
      exact congrArg Block.hash (hspared block hblock htop job hp since hsince).block_eq
    · cases hnone.symm.trans hblock

/-- The invariant of live sessions whose line is not broken. -/
structure LiveLine (s : State) : Prop where
  consistent : Consistent s
  climbing : ∃ bound, Climbing s bound
  processed : ∀ emission ∈ emissions s.calls, emission.1 = .processQueue

theorem LiveLine.init : LiveLine State.init := ⟨Consistent.init, ⟨1, Climbing.init⟩, nofun⟩

/-- Every live event in line keeps this. -/
theorem step_liveLine {e : Event} (hs : LiveLine s) (hg : InLine s e) (hlive : e.backFills = false)
    (h : step cfg s e = some t) : LiveLine t := by
  refine ⟨step_consistent hs.consistent h, step_climbing hs.consistent hs.climbing hg h, ?_⟩
  intro emission hmem
  rcases (step_effect hs.consistent.marked h).calls with
    ⟨_, block, _, _, _, hcalls⟩ | ⟨_, _, more, hcalls, _, hmore⟩
  · rw [hcalls, emissions_append, callFor] at hmem
    rcases List.mem_append.mp hmem with hold | hnew
    · exact hs.processed emission hold
    · split at hnew
      · cases hnew
      · cases List.mem_singleton.mp hnew
        rfl
  · rw [hcalls, emissions_append, hmore hlive, List.append_nil] at hmem
    exact hs.processed emission hmem

/-- In a live session an answer is at most one above the last emission, so that the check compares
nothing unless the answer is right above it. -/
theorem LiveLine.unchecked {e : Event} {job : Job} {block below : Block} (hs : LiveLine s)
    (hg : InLine s e) (hblock : e.block = some block) (hp : s.processing = some job)
    (hbelow : blockBelow s.calls block = some below) (htop : ¬ OnTop s block) :
    isReOrgedMissed s block = false := by
  cases hlast : lastEmission s.calls with
  | none =>
    have hempty : emissions s.calls = [] := List.getLast?_eq_none_iff.mp hlast
    simp [blockBelow, hempty] at hbelow
  | some emission =>
    obtain ⟨source, last⟩ := emission
    obtain rfl : source = .processQueue := hs.processed _ (List.mem_of_getLast? hlast)
    obtain ⟨bound, hclimbing⟩ := hs.climbing
    have hbound := hclimbing.last last hlast
    have hawaited := hclimbing.awaited job hp
    have hheight := Job.level_eq (hg.2.2.2 block hblock job hp)
    have hle : block.number ≤ last.number := by
      by_contra hlt
      refine htop ⟨_, hlast, rfl, ?_⟩
      change last.number + 1 = block.number
      omega
    have hnot : ¬ last.number < block.number := Nat.not_lt.mpr hle
    unfold isReOrgedMissed
    rw [hs.consistent.recorded last hlast]
    simp [hnot]

/-- In a live session an answer that is not spared makes a call that misses a re-org. -/
theorem LiveLine.spared {history : ChainHistory} {p : Watched} {e : Event} (hs : LiveLine p.sub)
    (ht : Traced history p) (hreturns : history.NeverReturns)
    (hg : Canonical history p (.event e)) (hline : InLine p.sub e)
    (hreported : ∀ block ∈ e.block, Reported p.sub.calls (callFor p.sub block)) :
    Spared history p (.event e) := by
  intro block hblock htop job hp since hsince
  obtain ⟨hsettles, hsettled⟩ := Event.settles_of_block (s := p.sub) hblock
  have hanswer := hg job (hsettles ▸ hp) block hsettled
  have hbelow : ∃ below, blockBelow p.sub.calls block = some below := by
    unfold Watched.below at hsince
    split at hsince
    · cases hsince
    · rename_i height hn
      have hsome := ht height
      rw [Option.mem_def.mp hsince, Option.map_some] at hsome
      refine ⟨_, Eq.trans ?_ hsome⟩
      simp [blockBelow, emittedLast, hn]
  obtain ⟨below, hbelow⟩ := hbelow
  have hre := hs.unchecked hline hblock hp hbelow htop
  have hfollows := reported_callFor.mp (hreported block hblock) hre
  by_contra hnot
  exact hreturns _ _ _ hnot ((follows_iff ht hanswer).mp hfollows since hsince)

/-- The calls after a moment have the property of the calls for answers exactly when those before
it have, and the call it makes. -/
theorem watch_step_each {p q : Watched} {m : Moment} (hs : Consistent p.sub)
    (h : (watch cfg).step p m = some q) : Each Reported q.sub.calls ↔ Each Reported p.sub.calls ∧
      ∀ e, m = .event e → ∀ block ∈ e.block, Reported p.sub.calls (callFor p.sub block) := by
  cases m with
  | reOrg =>
    obtain rfl := Option.some.inj h
    simp
  | event e =>
    obtain ⟨t, ht, rfl⟩ := Option.map_eq_some_iff.mp h
    rw [step_each reported_of_answer hs ht]
    simp

/-- What every run with canonical answers keeps. -/
structure Traces (history : ChainHistory) (p : Watched) : Prop where
  consistent : Consistent p.sub
  traced : Traced history p

theorem Traces.init (history : ChainHistory) : Traces history {} :=
  ⟨Consistent.init, fun _ => rfl⟩

/-- Every event with a canonical answer keeps this. -/
theorem step_traces {history : ChainHistory} {p q : Watched} {m : Moment}
    (hs : Traces history p) (hg : Canonical history p m) (h : (watch cfg).step p m = some q) :
    Traces history q := by
  refine ⟨?_, step_traced hs.traced hs.consistent.marked hg h⟩
  cases m with
  | reOrg =>
    obtain rfl := Option.some.inj h
    exact hs.consistent
  | event e =>
    obtain ⟨t, ht, rfl⟩ := Option.map_eq_some_iff.mp h
    exact step_consistent hs.consistent ht

/-- A spared moment keeps the calls complete. -/
theorem step_reported {history : ChainHistory} {p q : Watched} {m : Moment}
    (hs : Traces history p) (hreported : Each Reported p.sub.calls)
    (hg : Canonical history p m) (hspared : Spared history p m)
    (h : (watch cfg).step p m = some q) : Each Reported q.sub.calls := by
  refine (watch_step_each hs.consistent h).mpr ⟨hreported, ?_⟩
  rintro e rfl
  obtain ⟨_, ht, _⟩ := Option.map_eq_some_iff.mp h
  exact hspared.reported hs.traced hs.consistent hg ht

/-- Of a live session whose line is not broken exactly the spared moments keep them complete. -/
theorem step_reported_iff {history : ChainHistory} {p q : Watched} {m : Moment}
    (hreturns : history.NeverReturns) (hs : Traces history p) (hline : LiveLine p.sub)
    (hg : Canonical history p m) (hlive : InLiveLine p m) (h : (watch cfg).step p m = some q) :
    Each Reported q.sub.calls ↔ Each Reported p.sub.calls ∧ Spared history p m := by
  refine ⟨fun hreported => ?_, fun hboth => step_reported hs hboth.1 hg hboth.2 h⟩
  obtain ⟨hbefore, hcall⟩ := (watch_step_each hs.consistent h).mp hreported
  refine ⟨hbefore, ?_⟩
  cases m with
  | reOrg => trivial
  | event e => exact hline.spared hs.traced hreturns hg hlive.1 (hcall e rfl)

/-- Every re-org is reported in the runs whose answers are all spared. In live sessions whose line
is not broken these are the only ones, as long as no replaced block comes back. -/
theorem reorgs_reported {history : ChainHistory} {ms : List Moment} {p : Watched}
    (h : (watch cfg).Run (Canonical history) {} ms p) :
    ((watch cfg).Run (Spared history) {} ms p → Complete p.sub) ∧
      (history.NeverReturns → (watch cfg).Run InLiveLine {} ms p →
        Complete p.sub → (watch cfg).Run (Spared history) {} ms p) := by
  have hs := h.invariant (fun _ _ _ ht hg hstep => step_traces ht hg hstep) (.init history)
  constructor
  · intro hspared
    have hkeep : ∀ t m u, Traces history t ∧ Each Reported t.sub.calls →
        Canonical history t m ∧ Spared history t m → (watch cfg).step t m = some u →
        Traces history u ∧ Each Reported u.sub.calls :=
      fun _ _ _ ht hg hstep =>
        ⟨step_traces ht.1 hg.1 hstep, step_reported ht.1 ht.2 hg.1 hg.2 hstep⟩
    have hboth := (Machine.Run.and_iff.mpr ⟨h, hspared⟩).invariant hkeep ⟨.init history, Each.nil⟩
    exact ⟨hs.consistent.answers, hboth.2⟩
  · intro hreturns hlive hcomplete
    have hkeep : ∀ t m u, Traces history t ∧ LiveLine t.sub →
        Canonical history t m ∧ InLiveLine t m → (watch cfg).step t m = some u →
        Traces history u ∧ LiveLine u.sub := by
      intro t m u ht hg hstep
      refine ⟨step_traces ht.1 hg.1 hstep, ?_⟩
      cases m with
      | reOrg =>
        obtain rfl := Option.some.inj hstep
        exact ht.2
      | event e =>
        obtain ⟨_, hsub, rfl⟩ := Option.map_eq_some_iff.mp hstep
        exact step_liveLine ht.2 hg.2.1 hg.2.2 hsub
    have hboth := Machine.Run.and_iff.mpr ⟨h, hlive⟩
    exact (hboth.iff_guarded (I := fun p => Each Reported p.sub.calls) hkeep
      (fun _ _ _ ht hg hstep => step_reported_iff hreturns ht.1 ht.2 hg.1 hg.2 hstep)
      ⟨.init history, LiveLine.init⟩ Each.nil).mp hcomplete.reported

/-- The letter of the block at a height after some re-orgs. -/
def branchLetter (fork : Nat → Nat) : Nat → Nat → Char
  | 0, _ => 'a'
  | i + 1, height => if fork i ≤ height then .ofNat (98 + i) else branchLetter fork i height

/-- The hash of that block. -/
def branchHash (fork : Nat → Nat) (i height : Nat) : String :=
  .ofList (.replicate (height + 1) (branchLetter fork i height))

/-- A chain that forks at these heights, one after the other. -/
def forking (fork : Nat → Nat) : ChainHistory where
  chain i :=
    { block := fun height => ⟨height, branchHash fork i height,
        match height with
        | 0 => ""
        | below + 1 => branchHash fork i below⟩
      number := fun _ => rfl
      linked := fun _ => rfl }
  fork := fork
  kept i height h := by
    have hletter : ∀ below ≤ height, branchHash fork (i + 1) below = branchHash fork i below := by
      intro below hle
      have hnot : ¬ fork i ≤ below := by omega
      rw [branchHash, branchLetter, if_neg hnot, branchHash]
    dsimp only
    rw [hletter height (Nat.le_refl height)]
    cases height with
    | zero => rfl
    | succ below =>
      dsimp only
      rw [hletter below below.le_succ]

/-- The log event of a block. -/
def logOf (block : Block) : Log := ⟨some block.hash, some block.number⟩

/-- A live subscription from block 5 has passed on blocks 5 and 6. -/
def liveToSix (history : ChainHistory) : List Moment :=
  [.event (.subscribe 5), .event (.finalized 0 (.ok 6)), .event (.latest 0 0 (.ok 6)),
    .event (.data 0 (logOf ((history.chain 0).block 5))), .event (.answer 0),
    .event (.processed (.ok ((history.chain 0).block 5))),
    .event (.data 0 (logOf ((history.chain 0).block 6))), .event (.answer 1),
    .event (.processed (.ok ((history.chain 0).block 6)))]

/-- Both blocks are replaced: the removed logs come, then the logs of the new branch. -/
def deepReOrg (history : ChainHistory) : List Moment :=
  [.reOrg, .event (.data 0 (logOf ((history.chain 0).block 5))),
    .event (.data 0 (logOf ((history.chain 0).block 6))),
    .event (.data 0 (logOf ((history.chain 1).block 5))),
    .event (.data 0 (logOf ((history.chain 1).block 6))), .event (.answer 2),
    .event (.processed (.ok ((history.chain 1).block 6)))]

/-- The new block 6 is passed on although its parent never was. -/
theorem deepReOrg_unreported : ∃ p, (watch ⟨1, 0⟩).Run (Canonical (forking fun _ => 5)) {}
      (liveToSix (forking fun _ => 5) ++ deepReOrg (forking fun _ => 5)) p ∧
    (emissions p.sub.calls).map Prod.snd =
      [⟨5, "aaaaaa", "aaaaa"⟩, ⟨6, "aaaaaaa", "aaaaaa"⟩, ⟨6, "bbbbbbb", "bbbbbb"⟩] ∧
    ¬ Complete p.sub := by
  obtain ⟨p, hr, hcalls⟩ : ∃ p, (watch ⟨1, 0⟩).Run (Canonical (forking fun _ => 5)) {}
        (liveToSix (forking fun _ => 5) ++ deepReOrg (forking fun _ => 5)) p ∧
      p.sub.calls = [.next .processQueue ⟨5, "aaaaaa", "aaaaa"⟩,
        .next .processQueue ⟨6, "aaaaaaa", "aaaaaa"⟩,
        .next .processQueue ⟨6, "bbbbbbb", "bbbbbb"⟩] :=
    Machine.exists_run_of_exec (by decide)
  refine ⟨p, hr, by rw [hcalls]; rfl, fun hcomplete => ?_⟩
  have hreported := hcomplete.reported [_, _] _ [] hcalls ⟨6, "bbbbbbb", "bbbbbb"⟩ rfl (by decide)
  cases hreported

/-- Only block 6 is replaced, and then an unlinked block 7 shows that it was replaced again. -/
def shallowReOrg (history : ChainHistory) : List Moment :=
  [.reOrg, .event (.data 0 (logOf ((history.chain 1).block 6))), .event (.answer 2),
    .event (.processed (.ok ((history.chain 1).block 6))), .reOrg,
    .event (.data 0 (logOf ((history.chain 2).block 7))), .event (.answer 3),
    .event (.processed (.ok ((history.chain 2).block 7)))]

/-- The unlinked block is reported, and nothing else would have to be. -/
theorem shallowReOrg_reported : ∃ p, (watch ⟨1, 0⟩).Run (Canonical (forking fun _ => 6)) {}
      (liveToSix (forking fun _ => 6) ++ shallowReOrg (forking fun _ => 6)) p ∧
    Complete p.sub ∧ p.sub.fatalError = true ∧
    Call.reorg ⟨7, "cccccccc", "ccccccc"⟩ ∈ p.sub.calls := by
  obtain ⟨p, hr, hfatal, hcall⟩ : ∃ p, (watch ⟨1, 0⟩).Run
        (fun p m => Canonical (forking fun _ => 6) p m ∧ Spared (forking fun _ => 6) p m) {}
        (liveToSix (forking fun _ => 6) ++ shallowReOrg (forking fun _ => 6)) p ∧
      p.sub.fatalError = true ∧ Call.reorg ⟨7, "cccccccc", "ccccccc"⟩ ∈ p.sub.calls :=
    Machine.exists_run_of_exec (by decide)
  obtain ⟨hcanonical, hspared⟩ := Machine.Run.and_iff.mp hr
  exact ⟨p, hcanonical, (reorgs_reported hcanonical).1 hspared, hfatal, hcall⟩

end ChainIndexer.Subscription
