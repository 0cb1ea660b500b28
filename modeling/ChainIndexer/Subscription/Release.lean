import ChainIndexer.Subscription.Calls
import ChainIndexer.Subscription.Tracked

/-!
# What `unsubscribe` leaves running

`unsubscribe` clears the queue, the id of back filling and one timer. It neither
stops the job that `processQueue` awaits nor a `subscribe` in progress nor a timer
that has fired, and it closes one log subscription. After it has resolved nothing
is emitted exactly when no such activation is left.
-/

namespace ChainIndexer.Subscription

variable {cfg : Config} {s t u : State} {opened : List Nat}

/-- The client does not subscribe. -/
def NotSubscribing (_ : State × List Nat) : Event → Prop
  | .subscribe _ => False
  | _ => True

instance (p : State × List Nat) : (e : Event) → Decidable (NotSubscribing p e)
  | .subscribe _ => .isFalse id
  | .unsubscribe | .finalized .. | .latest .. | .woken _ | .unsubscribed .. | .timeout _
  | .data .. | .failed .. | .answer _ | .processed _ | .backFilled .. | .assigned _ =>
    .isTrue trivial

/-- The activation neither emits a block nor opens a log subscription when it goes on. A
`subscribe` in progress is harmless only if it starts a back filling that `fatalError` ends. -/
def Harmless (cfg : Config) (s : State) : Task → Prop
  | .finalized .. | .restarting _ => False
  | .latest _ startBlock | .asleep _ startBlock =>
    s.fatalError = true ∧ 0 < cfg.workers ∧ IsHistorical s startBlock ∧
      s.nextBlock ≤ s.lastFinalizedBlock
  | .backFill backFillingId _ =>
    s.fatalError = true ∨ s.activeBackFillingId ≠ some backFillingId
  | .unsubscribing _ => True

instance (cfg : Config) (s : State) : (task : Task) → Decidable (Harmless cfg s task)
  | .finalized .. | .restarting _ => .isFalse id
  | .latest .. | .asleep .. => inferInstanceAs (Decidable (_ ∧ _ ∧ _ ∧ _))
  | .backFill .. => inferInstanceAs (Decidable (_ ∨ _))
  | .unsubscribing _ => .isTrue trivial

/-- Nothing is left that could emit a block or hold a log subscription open. -/
structure Released (cfg : Config) (s : State) (opened : List Nat) : Prop where
  processing : s.processing = none
  timers : s.timers = []
  opened : opened = []
  tasks : ∀ task ∈ s.tasks, Harmless cfg s task

instance (cfg : Config) (s : State) (opened : List Nat) : Decidable (Released cfg s opened) :=
  decidable_of_iff (s.processing = none ∧ s.timers = [] ∧ opened = [] ∧
    ∀ task ∈ s.tasks, Harmless cfg s task)
    ⟨fun ⟨hp, ht, ho, hs⟩ => ⟨hp, ht, ho, hs⟩, fun h => ⟨h.processing, h.timers, h.opened, h.tasks⟩⟩

/-- From here on nothing is emitted and no log subscription is open until the client
subscribes. -/
def Silent (cfg : Config) (s : State) (opened : List Nat) : Prop :=
  ∀ es t more, (watched cfg).Run NotSubscribing (s, opened) es (t, more) →
    emissions t.calls = emissions s.calls ∧ more = []

/-! ## A released subscription stays silent -/

/-- A step of a released subscription. -/
structure Dormant (cfg : Config) (s t : State) : Prop where
  processing : t.processing = s.processing
  timers : t.timers ⊆ s.timers
  subscriptions : t.subscriptions = s.subscriptions
  tasks : ∀ task ∈ t.tasks, task ∈ s.tasks ∨ Harmless cfg t task
  fatalError : s.fatalError = true → t.fatalError = true
  lastFinalizedBlock : t.lastFinalizedBlock = s.lastFinalizedBlock
  nextBlock : t.nextBlock = s.nextBlock
  active : t.fatalError = true ∨ t.activeBackFillingId = s.activeBackFillingId ∨
    t.activeBackFillingId = none
  calls : emissions t.calls = emissions s.calls

theorem Dormant.refl (cfg : Config) (s : State) : Dormant cfg s s :=
  ⟨rfl, List.Subset.refl _, rfl, fun _ => Or.inl, id, rfl, rfl, Or.inr (Or.inl rfl), rfl⟩

/-- A harmless activation stays so. -/
theorem Harmless.mono {task : Task} (h : Harmless cfg s task) (hd : Dormant cfg s t) :
    Harmless cfg t task := by
  have hsubscribe : ∀ startBlock, s.fatalError = true ∧ 0 < cfg.workers ∧
      IsHistorical s startBlock ∧ s.nextBlock ≤ s.lastFinalizedBlock →
      t.fatalError = true ∧ 0 < cfg.workers ∧ IsHistorical t startBlock ∧
        t.nextBlock ≤ t.lastFinalizedBlock := by
    rintro startBlock ⟨hf, hw, hh, hn⟩
    refine ⟨hd.fatalError hf, hw, ?_, ?_⟩
    · rw [IsHistorical, hd.lastFinalizedBlock]
      exact hh
    · rw [hd.nextBlock, hd.lastFinalizedBlock]
      exact hn
  cases task with
  | finalized | restarting => exact h
  | latest caller startBlock | asleep caller startBlock => exact hsubscribe startBlock h
  | backFill backFillingId job =>
    rcases hd.active with hf | hsame | hnone
    · exact Or.inl hf
    · exact h.imp hd.fatalError fun hne => hsame ▸ hne
    · exact Or.inr (by simp [hnone])
  | unsubscribing subscription => trivial

/-- Nothing is left open by such a step. -/
theorem Released.dormant {e : Event} (h : Released cfg s opened) (hd : Dormant cfg s t) :
    Released cfg t (openAfter s e t opened) where
  processing := hd.processing.trans h.processing
  timers := List.subset_nil.mp (h.timers ▸ hd.timers)
  opened := by simp [openAfter, h.opened, hd.subscriptions]
  tasks task hmem := (hd.tasks task hmem).elim (fun hold => (h.tasks task hold).mono hd) id

theorem thrown_dormant (s : State) (i : Nat) (caller : Caller) (error : BaseError) :
    Dormant cfg s (thrown (finish s i) caller error) := by
  have htasks : ∀ task ∈ s.tasks.eraseIdx i, task ∈ s.tasks :=
    fun task => List.mem_of_mem_eraseIdx
  cases caller with
  | client => exact { Dormant.refl cfg s with tasks := fun task hmem => Or.inl (htasks task hmem) }
  | backFillBlocks =>
    exact { Dormant.refl cfg s with
      tasks := fun task hmem => Or.inl (htasks task hmem)
      fatalError := fun _ => rfl
      active := Or.inl rfl
      calls := by
        change emissions (s.calls ++ [.error error]) = _
        simp [emissions_append] }
  | checkIfLive =>
    exact { Dormant.refl cfg s with
      tasks := fun task hmem => Or.inl (htasks task hmem)
      calls := by
        change emissions (s.calls ++ [.error (restartError error)]) = _
        simp [emissions_append] }

/-- A back filling that starts after a fatal error awaits one job and then returns. -/
theorem backFillBlocks_dormant (i now : Nat) (hf : s.fatalError = true) (hw : 0 < cfg.workers)
    (hn : s.nextBlock ≤ s.lastFinalizedBlock) :
    Dormant cfg s (backFillBlocks cfg (finish s i) now) := by
  obtain ⟨assignments, heq⟩ := assignments_eq now (List.range cfg.workers)
    { finish s i with activeBackFillingId := some now }
  unfold backFillBlocks
  dsimp only
  rw [heq]
  unfold runBackFill
  split
  · rw [if_pos (by exact hn)]
    refine { Dormant.refl cfg s with
      tasks := fun task hmem => ?_, fatalError := fun _ => hf, active := Or.inl hf }
    rcases List.mem_append.mp hmem with hold | hnew
    · exact Or.inl (List.mem_of_mem_eraseIdx hold)
    · obtain rfl := List.mem_singleton.mp hnew
      exact Or.inr (Or.inl hf)
  · rename_i hempty
    have hlength := congrArg List.length hempty
    simp at hlength
    omega

private theorem latest_dormant {i now : Nat} {result : Except Thrown Nat}
    (h : Released cfg s opened) (ht : latest cfg s i now result = some t) : Dormant cfg s t := by
  unfold latest at ht
  split at ht
  · rename_i caller startBlock hi
    obtain rfl := Option.some.inj ht
    have hharmless := h.tasks _ (List.mem_of_getElem? hi)
    obtain ⟨hf, hw, hhistorical, hn⟩ := hharmless
    cases result with
    | error error => exact thrown_dormant s i caller _
    | ok latestBlockNumber =>
      dsimp only
      split
      · refine { Dormant.refl cfg s with tasks := fun task hmem => ?_ }
        rcases List.mem_or_eq_of_mem_set hmem with hold | rfl
        · exact Or.inl hold
        · exact Or.inr ⟨hf, hw, hhistorical, hn⟩
      · exact backFillBlocks_dormant i now hf hw hn
  · cases ht

private theorem unsubscribed_dormant {i : Nat} {result : Except Thrown Unit}
    (h : Released cfg s opened) (ht : unsubscribed s i result = some t) : Dormant cfg s t := by
  have hended : ∀ task ∈ s.tasks.eraseIdx i, task ∈ s.tasks :=
    fun task => List.mem_of_mem_eraseIdx
  unfold unsubscribed at ht
  split at ht
  · rename_i subscription _
    obtain rfl := Option.some.inj ht
    obtain ⟨other, hclosed⟩ := closed_eq (finish s i) subscription
    rw [hclosed]
    exact { Dormant.refl cfg s with tasks := fun task hmem => Or.inl (hended task hmem) }
  · obtain rfl := Option.some.inj ht
    exact { Dormant.refl cfg s with tasks := fun task hmem => Or.inl (hended task hmem) }
  · rename_i hi
    exact (h.tasks _ (List.mem_of_getElem? hi)).elim
  · rename_i hi
    exact (h.tasks _ (List.mem_of_getElem? hi)).elim
  · cases ht

private theorem backFilled_dormant {i : Nat} {result : Except Thrown Block}
    (h : Released cfg s opened) (ht : backFilled s i result = some t) : Dormant cfg s t := by
  unfold backFilled at ht
  split at ht
  · rename_i backFillingId job hi
    obtain ⟨_, ht⟩ := Option.ite_none_right_eq_some.mp ht
    obtain rfl := Option.some.inj ht
    cases result with
    | error error => exact thrown_dormant s i .backFillBlocks _
    | ok block =>
      have hharmless : s.fatalError = true ∨ s.activeBackFillingId ≠ some backFillingId :=
        h.tasks _ (List.mem_of_getElem? hi)
      dsimp only
      rw [if_pos hharmless.symm]
      exact { Dormant.refl cfg s with
        tasks := fun task hmem => Or.inl (List.mem_of_mem_eraseIdx hmem) }
  · cases ht

/-- No step of a released subscription emits, unless the client subscribes. -/
theorem step_dormant {e : Event} (htracked : Tracked s opened) (h : Released cfg s opened)
    (hg : NotSubscribing (s, opened) e) (ht : step cfg s e = some t) : Dormant cfg s t := by
  have hlistening : s.listening = [] := by
    rw [List.eq_nil_iff_forall_not_mem]
    intro id hid
    have hopen := htracked.listening id hid
    rw [h.opened] at hopen
    cases hopen
  cases e with
  | subscribe startBlock => exact hg.elim
  | latest i now result => exact latest_dormant h ht
  | unsubscribed i result => exact unsubscribed_dormant h ht
  | backFilled i result => exact backFilled_dormant h ht
  | unsubscribe =>
    obtain rfl := Option.some.inj ht
    refine { Dormant.refl cfg s with
      timers := fun _ => List.mem_of_mem_filter
      tasks := fun task hmem => (List.mem_append.mp hmem).imp_right fun hnew => ?_
      active := Or.inr (Or.inr rfl) }
    rw [List.mem_singleton.mp hnew]
    trivial
  | finalized i result =>
    change finalized cfg s i result = some t at ht
    unfold finalized at ht
    split at ht
    · rename_i hi
      exact (h.tasks _ (List.mem_of_getElem? hi)).elim
    · cases ht
  | woken i =>
    change woken s i = some t at ht
    unfold woken at ht
    split at ht
    · rename_i caller startBlock hi
      obtain rfl := Option.some.inj ht
      refine { Dormant.refl cfg s with tasks := fun task hmem => ?_ }
      rcases List.mem_or_eq_of_mem_set hmem with hold | rfl
      · exact Or.inl hold
      · exact Or.inr (h.tasks _ (List.mem_of_getElem? hi))
    · cases ht
  | timeout i =>
    change timeout s i = some t at ht
    simp [timeout, h.timers] at ht
  | data subscription log =>
    change data s subscription log = some t at ht
    simp [data, hlistening] at ht
  | failed subscription error =>
    change failed s subscription error = some t at ht
    simp [failed, hlistening] at ht
  | answer job =>
    obtain ⟨_, ht⟩ := Option.ite_none_right_eq_some.mp ht
    obtain rfl := Option.some.inj ht
    exact { Dormant.refl cfg s with tasks := fun _ => Or.inl }
  | processed result =>
    change processed s result = some t at ht
    simp [processed, h.processing] at ht
  | assigned i =>
    change assigned s i = some t at ht
    unfold assigned at ht
    split at ht
    · obtain rfl := Option.some.inj ht
      split
      · exact { Dormant.refl cfg s with tasks := fun _ => Or.inl }
      · exact { Dormant.refl cfg s with tasks := fun _ => Or.inl }
    · obtain ⟨_, ht⟩ := Option.ite_none_right_eq_some.mp ht
      obtain rfl := Option.some.inj ht
      split
      · exact { Dormant.refl cfg s with tasks := fun _ => Or.inl }
      · exact { Dormant.refl cfg s with tasks := fun _ => Or.inl }
    · cases ht

/-- A released subscription stays silent. -/
theorem Released.silent (hm : Marked s) (htracked : Tracked s opened)
    (h : Released cfg s opened) : Silent cfg s opened := by
  intro es t more hr
  obtain ⟨⟨_, _, hreleased⟩, hcalls⟩ := hr.invariant
    (I := fun p => (Marked p.1 ∧ Tracked p.1 p.2 ∧ Released cfg p.1 p.2) ∧
      emissions p.1.calls = emissions s.calls) (by
    rintro ⟨u, held⟩ e ⟨v, left⟩ ⟨⟨hum, hut, hur⟩, huc⟩ hg hs
    obtain ⟨hstep, rfl⟩ := Machine.observe_step.mp hs
    have hd := step_dormant hut hur hg hstep
    exact ⟨⟨(step_effect hum hstep).marked hum, step_tracked hum hut hstep, hur.dormant hd⟩,
      hd.calls.trans huc⟩) ⟨⟨hm, htracked, h⟩, rfl⟩
  exact ⟨hcalls, hreleased.opened⟩

/-! ## A silent subscription is released -/

/-- A step of a silent subscription emits nothing, opens nothing and leaves it silent. -/
theorem Silent.after {e : Event} (h : Silent cfg s opened) (hs : step cfg s e = some t)
    (hg : NotSubscribing (s, opened) e) : Silent cfg t [] ∧ emissions t.calls = emissions s.calls ∧
      openAfter s e t opened = [] := by
  have hfirst : (watched cfg).Run NotSubscribing (s, opened) [e]
      (t, openAfter s e t opened) :=
    Machine.Run.snoc .nil hg (Machine.observe_of_step hs opened)
  obtain ⟨hcalls, hopened⟩ := h _ _ _ hfirst
  refine ⟨fun es u more hr => ?_, hcalls, hopened⟩
  rw [hopened] at hfirst
  obtain ⟨hlater, hmore⟩ := h _ _ _ (hfirst.append hr)
  exact ⟨hlater.trans hcalls.symm, hmore⟩

/-- A subscription that goes live opens a log subscription. -/
theorem Silent.not_live {i : Nat} {caller : Caller} {startBlock : Nat} (h : Silent cfg s opened)
    (hi : s.tasks[i]? = some (.latest caller startBlock)) : IsHistorical s startBlock := by
  by_contra hlive
  have hs : step cfg s (.latest i 0 (.ok s.nextBlock)) = some (subscribeLogs (finish s i)) := by
    change latest cfg s i 0 (.ok s.nextBlock) = _
    simp [latest, hi, hlive]
  obtain ⟨_, _, hopened⟩ := h.after hs trivial
  simp [openAfter, closing, subscribeLogs, finish, checkIfLive] at hopened

/-- A `subscribe` that has not asked for the finalized block yet may go live. -/
theorem Silent.not_finalized {caller : Caller} {startBlock : Nat} (h : Silent cfg s opened) :
    .finalized caller startBlock ∉ s.tasks := by
  intro hmem
  obtain ⟨i, hlt, hi⟩ := List.mem_iff_getElem.mp hmem
  obtain ⟨t, hs, htask, hlast⟩ : ∃ t, step cfg s (.finalized i (.ok 0)) = some t ∧
      t.tasks[i]? = some (.latest caller startBlock) ∧ t.lastFinalizedBlock ≤ 0 := by
    refine ⟨_, by simp [step, finalized, List.getElem?_eq_getElem hlt, hi]; rfl, ?_, ?_⟩
    · exact List.getElem?_set_self hlt
    · dsimp only
      split
      · omega
      · omega
  obtain ⟨ht, _, _⟩ := h.after hs trivial
  have hhistorical := ht.not_live htask
  unfold IsHistorical at hhistorical
  omega

/-- The callback of `checkIfLive` subscribes again. -/
theorem Silent.not_restarting {subscription : Option Nat} (h : Silent cfg s opened) :
    .restarting subscription ∉ s.tasks := by
  intro hmem
  obtain ⟨i, hi⟩ := List.getElem?_of_mem hmem
  have hs : step cfg s (.unsubscribed i (.ok ())) =
      some (subscribe (closed (finish s i) subscription) .checkIfLive s.nextBlock) := by
    simp [step, unsubscribed, hi]
  exact (h.after hs trivial).1.not_finalized (List.mem_append_right _ (List.mem_singleton_self _))

/-- A timer restarts the subscription, at the latest when it fires again. -/
theorem Silent.timers (h : Silent cfg s opened) : s.timers = [] := by
  have hfires : ∀ {u : State} {held : List Nat} {i : Nat} {timer : Timer},
      Silent cfg u held → u.timers[i]? = some timer → u.lastBlockHash ≠ timer.lastBlockHash := by
    intro u held i timer hu hi hsame
    have hs : step cfg u (.timeout i) = some { unsubscribe { u with
        timers := u.timers.eraseIdx i } with
          tasks := u.tasks ++ [.restarting u.subscription] } := by
      simp [step, timeout, hi, hsame]
    exact (hu.after hs trivial).1.not_restarting
      (List.mem_append_right _ (List.mem_singleton_self _))
  rw [List.eq_nil_iff_forall_not_mem]
  intro timer hmem
  obtain ⟨i, hi⟩ := List.getElem?_of_mem hmem
  have hs : step cfg s (.timeout i) =
      some (checkIfLive { s with timers := s.timers.eraseIdx i }) := by
    simp [step, timeout, hi, hfires h hi]
  have hset : (s.timers.eraseIdx i ++ [⟨s.timersSet, s.lastBlockHash⟩])[
      (s.timers.eraseIdx i).length]? = some ⟨s.timersSet, s.lastBlockHash⟩ :=
    List.getElem?_concat_length
  exact hfires (h.after hs trivial).1 hset rfl

/-- The workers may answer any job that exists. -/
theorem Silent.answered {id : Nat} (h : Silent cfg s opened) (hid : id < s.jobs) :
    ∃ answered held, id ∈ answered ∧ Silent cfg { s with answered := answered } held := by
  by_cases hmem : id ∈ s.answered
  · exact ⟨s.answered, opened, hmem, h⟩
  · have hs : step cfg s (.answer id) = some { s with answered := s.answered ++ [id] } := by
      simp [step, answer, hid, hmem]
    exact ⟨_, [], List.mem_append_right _ (List.mem_singleton_self _), (h.after hs trivial).1⟩

/-- No re-org shows at the first block of a chain. -/
theorem isReOrgedMissed_genesis (s : State) (hash parentHash : String) :
    isReOrgedMissed s ⟨0, hash, parentHash⟩ = false := by
  unfold isReOrgedMissed
  split
  · simp
  · rfl

/-- `processQueue` passes on the block that it awaits. -/
theorem Silent.processing (h : Silent cfg s opened) (htracked : Tracked s opened) :
    s.processing = none := by
  rw [Option.eq_none_iff_forall_ne_some]
  intro job hjob
  have hid : job.id < s.jobs := by
    refine htracked.jobs job (List.mem_append_left _ ?_)
    rw [hjob]
    exact List.mem_singleton_self _
  obtain ⟨answered, held, hmem, hu⟩ := h.answered hid
  obtain ⟨t, hs, hcalls⟩ : ∃ t,
      step cfg { s with answered := answered } (.processed (.ok ⟨0, "", ""⟩)) = some t ∧
      t.calls = s.calls ++ [.next .processQueue ⟨0, "", ""⟩] := by
    simp only [step]
    unfold processed
    split
    · rename_i other hother
      obtain rfl : job = other := Option.some.inj (hjob.symm.trans hother)
      rw [if_pos hmem]
      dsimp only
      rw [isReOrgedMissed_genesis]
      exact ⟨_, rfl, runQueue_calls _⟩
    · rename_i hnone
      exact absurd (hjob.symm.trans hnone) (by simp)
  have hsame := (hu.after hs trivial).2.1
  rw [hcalls] at hsame
  simp [emissions_append] at hsame

/-- The loop of `backFillBlocks` passes on the block that it awaits, unless it has been ended. -/
theorem Silent.backFill {backFillingId : Nat} {job : Job} (h : Silent cfg s opened)
    (htracked : Tracked s opened) (hmem : .backFill backFillingId job ∈ s.tasks) :
    s.fatalError = true ∨ s.activeBackFillingId ≠ some backFillingId := by
  by_contra hgoes
  rw [not_or, Bool.not_eq_true, not_not] at hgoes
  have hid : job.id < s.jobs := (htracked.tasks _ hmem).job job rfl
  obtain ⟨answered, held, hanswered, hu⟩ := h.answered hid
  obtain ⟨i, hi⟩ := List.getElem?_of_mem hmem
  have hs : step cfg { s with answered := answered } (.backFilled i (.ok ⟨0, "", ""⟩)) =
      some (runBackFill { s with
        answered := answered
        tasks := s.tasks.eraseIdx i
        calls := s.calls ++ [.next .backFillBlocks ⟨0, "", ""⟩]
        nextBlock := s.nextBlock + 1 } backFillingId) := by
    simp [step, backFilled, hi, hanswered, hgoes, finish]
  have hsame := (hu.after hs trivial).2.1
  rw [runBackFill_calls] at hsame
  simp [emissions_append] at hsame

/-- A loop of `backFillBlocks` that stays silent has a job to await and an error to end it. -/
theorem Silent.runBackFill {backFillingId : Nat}
    (h : Silent cfg (runBackFill s backFillingId) opened)
    (htracked : Tracked (runBackFill s backFillingId) opened)
    (hactive : s.activeBackFillingId = some backFillingId) :
    s.fatalError = true ∧ s.queue ≠ [] ∧ s.nextBlock ≤ s.lastFinalizedBlock := by
  have hboth := And.intro h htracked
  unfold Subscription.runBackFill at hboth
  split at hboth
  · rename_i job rest hq
    split at hboth
    · rename_i hn
      obtain ⟨h, htracked⟩ := hboth
      have hends := h.backFill htracked (List.mem_append_right _ (List.mem_singleton_self _))
      exact ⟨hends.resolve_right fun hne => hne hactive, by simp [hq], hn⟩
    · exact absurd (List.mem_append_right _ (List.mem_singleton_self _)) hboth.1.not_finalized
  · exact absurd (List.mem_append_right _ (List.mem_singleton_self _)) hboth.1.not_finalized

/-- A `subscribe` that has the finalized block starts a back filling, which emits or subscribes
again unless there are workers and an error ends it. -/
theorem Silent.latest {caller : Caller} {startBlock : Nat} (h : Silent cfg s opened)
    (hm : Marked s) (htracked : Tracked s opened) (hmem : .latest caller startBlock ∈ s.tasks) :
    Harmless cfg s (.latest caller startBlock) := by
  obtain ⟨i, hi⟩ := List.getElem?_of_mem hmem
  have hhistorical := h.not_live hi
  -- The client may unsubscribe once more, which leaves the queue empty.
  have hclear : step cfg s .unsubscribe =
      some { unsubscribe s with tasks := s.tasks ++ [.unsubscribing s.subscription] } := rfl
  obtain ⟨hcleared, _, hopened⟩ := h.after hclear trivial
  have hmarked := (step_effect hm hclear).marked hm
  have htracked := step_tracked hm htracked hclear
  rw [hopened] at htracked
  generalize hu : ({ unsubscribe s with
    tasks := s.tasks ++ [.unsubscribing s.subscription] } : State) = u at *
  have hui : u.tasks[i]? = some (.latest caller startBlock) := by
    rw [← hu]
    exact (List.getElem?_append_left (List.getElem?_eq_some_iff.mp hi).1).trans hi
  have hs : step cfg u (.latest i 0 (.ok u.nextBlock)) =
      some (backFillBlocks cfg (finish u i) 0) := by
    have huh : IsHistorical u startBlock := hu ▸ hhistorical
    simp [step, Subscription.latest, hui, huh]
  obtain ⟨hfilling, _, hopened⟩ := hcleared.after hs trivial
  have htracked := step_tracked hmarked htracked hs
  rw [hopened] at htracked
  obtain ⟨assignments, heq⟩ := assignments_eq 0 (List.range cfg.workers)
    { finish u i with activeBackFillingId := some 0 }
  unfold backFillBlocks at hfilling htracked
  dsimp only at hfilling htracked
  rw [heq] at hfilling htracked
  obtain ⟨hf, hq, hn⟩ := hfilling.runBackFill htracked rfl
  subst hu
  refine ⟨hf, ?_, hhistorical, hn⟩
  rw [Nat.pos_iff_ne_zero]
  intro hzero
  simp [hzero, jobsFrom, finish, unsubscribe] at hq

/-- A `subscribe` that sleeps wakes up. -/
theorem Silent.asleep {caller : Caller} {startBlock : Nat} (h : Silent cfg s opened)
    (hm : Marked s) (htracked : Tracked s opened) (hmem : .asleep caller startBlock ∈ s.tasks) :
    Harmless cfg s (.asleep caller startBlock) := by
  obtain ⟨i, hi⟩ := List.getElem?_of_mem hmem
  have hs : step cfg s (.woken i) =
      some { s with tasks := s.tasks.set i (.latest caller startBlock) } := by
    simp [step, woken, hi]
  obtain ⟨ht, _, hopened⟩ := h.after hs trivial
  have htracked := step_tracked hm htracked hs
  rw [hopened] at htracked
  have hlatest : Task.latest caller startBlock ∈ s.tasks.set i (.latest caller startBlock) :=
    List.mem_set (List.getElem?_eq_some_iff.mp hi).1 _
  exact ht.latest ((step_effect hm hs).marked hm) htracked hlatest

/-- A silent subscription has been released. -/
theorem Silent.released (h : Silent cfg s opened) (hm : Marked s) (htracked : Tracked s opened) :
    Released cfg s opened where
  processing := h.processing htracked
  timers := h.timers
  opened := (h [] s opened .nil).2
  tasks task hmem := by
    cases task with
    | finalized caller startBlock => exact h.not_finalized hmem
    | latest caller startBlock => exact h.latest hm htracked hmem
    | asleep caller startBlock => exact h.asleep hm htracked hmem
    | backFill backFillingId job => exact h.backFill htracked hmem
    | unsubscribing subscription => trivial
    | restarting subscription => exact h.not_restarting hmem

/-- What every run keeps of the record. -/
theorem run_tracked {es : List Event} {G : State × List Nat → Event → Prop}
    (h : (watched cfg).Run G (State.init, []) es (s, opened)) : Marked s ∧ Tracked s opened := by
  have hinit : Marked State.init ∧ Tracked State.init [] := ⟨rfl, Tracked.init⟩
  refine h.invariant (I := fun p => Marked p.1 ∧ Tracked p.1 p.2) ?_ hinit
  rintro ⟨u, held⟩ e ⟨v, more⟩ ⟨hm, htracked⟩ _ hs
  obtain ⟨hv, rfl⟩ := Machine.observe_step.mp hs
  exact ⟨(step_effect hm hv).marked hm, step_tracked hm htracked hv⟩

/-- Once `unsubscribe` has resolved for the client, nothing is emitted and no log subscription
is open until the client subscribes again, exactly if nothing is left that could emit a block
or hold a log subscription open. -/
theorem silent_iff_released {es : List Event} {i : Nat} {subscription : Option Nat}
    (h : (watched cfg).Run Machine.Free (State.init, []) es (s, opened))
    (hi : s.tasks[i]? = some (.unsubscribing subscription)) :
    ∃ t left, (watched cfg).step (s, opened) (.unsubscribed i (.ok ())) = some (t, left) ∧
      (Silent cfg t left ↔ Released cfg t left) := by
  have hs : (machine cfg).step s (.unsubscribed i (.ok ())) =
      some (closed (finish s i) subscription) := by
    simp [machine, step, unsubscribed, hi]
  have hstep : (watched cfg).step (s, opened) (.unsubscribed i (.ok ())) = some _ :=
    Machine.observe_of_step hs opened
  obtain ⟨hm, htracked⟩ := run_tracked (h.snoc trivial hstep)
  exact ⟨_, _, hstep, fun hsilent => hsilent.released hm htracked, Released.silent hm htracked⟩

/-- `processQueue` awaits the block of the only log event when the client unsubscribes. -/
def leftAwaiting : List Event :=
  [.subscribe 5, .finalized 0 (.ok 6), .latest 0 0 (.ok 6), .data 0 ⟨some "0xa5", some 5⟩,
    .unsubscribe]

/-- `unsubscribe` has resolved, and then the block is emitted. -/
theorem leftAwaiting_emits :
    ∃ p, (watched ⟨1, 0⟩).Run Machine.Free (State.init, []) leftAwaiting p ∧
      p.1.tasks[0]? = some (.unsubscribing (some 0)) ∧ ∃ q,
        (watched ⟨1, 0⟩).step p (.unsubscribed 0 (.ok ())) = some q ∧
          ¬ Silent ⟨1, 0⟩ q.1 q.2 := by
  obtain ⟨p, hr, hi, hlater⟩ : ∃ p,
      (watched ⟨1, 0⟩).Run Machine.Free (State.init, []) leftAwaiting p ∧
      p.1.tasks[0]? = some (.unsubscribing (some 0)) ∧
      ∃ q ∈ (watched ⟨1, 0⟩).step p (.unsubscribed 0 (.ok ())),
        ∃ r ∈ (watched ⟨1, 0⟩).exec NotSubscribing q
          [.answer 0, .processed (.ok ⟨5, "0xa5", "0xa4"⟩)],
          emissions r.1.calls ≠ emissions q.1.calls :=
    Machine.exists_run_of_exec (by decide)
  obtain ⟨q, hq, r, hr', hne⟩ := hlater
  refine ⟨p, hr, hi, q, hq, fun hsilent => hne ?_⟩
  exact (hsilent _ r.1 r.2 (Machine.Run.of_exec hr')).1

/-- The block is emitted before the client unsubscribes. -/
def leftIdle : List Event :=
  [.subscribe 5, .finalized 0 (.ok 6), .latest 0 0 (.ok 6), .data 0 ⟨some "0xa5", some 5⟩,
    .answer 0, .processed (.ok ⟨5, "0xa5", "0xa4"⟩), .unsubscribe]

/-- An idle subscription is silent once it is unsubscribed. -/
theorem leftIdle_silent :
    ∃ p, (watched ⟨1, 0⟩).Run Machine.Free (State.init, []) leftIdle p ∧ ∃ t left,
      (watched ⟨1, 0⟩).step p (.unsubscribed 0 (.ok ())) = some (t, left) ∧
        Silent ⟨1, 0⟩ t left := by
  obtain ⟨p, hr, hi, hreleased⟩ : ∃ p,
      (watched ⟨1, 0⟩).Run Machine.Free (State.init, []) leftIdle p ∧
      p.1.tasks[0]? = some (.unsubscribing (some 0)) ∧
      ∀ q ∈ (watched ⟨1, 0⟩).step p (.unsubscribed 0 (.ok ())), Released ⟨1, 0⟩ q.1 q.2 :=
    Machine.exists_run_of_exec (by decide)
  obtain ⟨t, left, hs, hiff⟩ := silent_iff_released hr hi
  exact ⟨p, hr, t, left, hs, hiff.mpr (hreleased _ hs)⟩

end ChainIndexer.Subscription
