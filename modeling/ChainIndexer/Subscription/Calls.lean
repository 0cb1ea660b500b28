import ChainIndexer.Subscription.Effect
import ChainIndexer.Core.History

/-!
# What the observer has been called with

The block emitted last is the last one of either loop, but only `processQueue`
records it in `lastEmittedBlock`. The record is therefore exact whenever the last
emission came from `processQueue`.
-/

namespace ChainIndexer.Subscription

variable {cfg : Config} {s t : State}

/-- The block that a call passes on, with the loop it comes from. -/
def Call.emission : Call → Option (Source × Block)
  | .next source block => some (source, block)
  | .reorg _ | .error _ => none

/-- The answer of a worker that `processQueue` makes this call for. -/
def Call.answer : Call → Option Block
  | .next .processQueue block | .reorg block => some block
  | .next .backFillBlocks _ | .error _ => none

/-- The emissions among the calls. -/
def emissions (calls : List Call) : List (Source × Block) := calls.filterMap Call.emission

/-- The emission before which nothing else was emitted any more. -/
def lastEmission (calls : List Call) : Option (Source × Block) := (emissions calls).getLast?

/-- The block of the height below this one that was emitted last. -/
def blockBelow (calls : List Call) (block : Block) : Option Block :=
  ((emissions calls).map Prod.snd).reverse.find? fun other => other.number + 1 = block.number

theorem emissions_append (calls more : List Call) :
    emissions (calls ++ more) = emissions calls ++ emissions more :=
  List.filterMap_append

@[simp] theorem emissions_nil : emissions [] = [] := rfl

@[simp] theorem emissions_next (source : Source) (block : Block) :
    emissions [.next source block] = [(source, block)] := rfl

@[simp] theorem emissions_reorg (block : Block) : emissions [.reorg block] = [] := rfl

@[simp] theorem emissions_error (error : BaseError) : emissions [.error error] = [] := rfl

@[simp] theorem emissions_errors (errors : List BaseError) :
    emissions (errors.map Call.error) = [] := by
  rw [emissions, List.filterMap_map, List.filterMap_eq_nil_iff]
  exact fun _ _ => rfl

@[simp] theorem emissions_backFilled (blocks : List Block) :
    emissions (blocks.map (.next .backFillBlocks)) = blocks.map (.backFillBlocks, ·) := by
  induction blocks with
  | nil => rfl
  | cons block blocks ih => exact congrArg _ ih

/-- Calls that emit nothing leave the last emission. -/
theorem lastEmission_append_of_nil {calls more : List Call} (h : emissions more = []) :
    lastEmission (calls ++ more) = lastEmission calls := by
  rw [lastEmission, emissions_append, h, List.append_nil, lastEmission]

@[simp] theorem lastEmission_next (calls : List Call) (source : Source) (block : Block) :
    lastEmission (calls ++ [.next source block]) = some (source, block) := by
  rw [lastEmission, emissions_append, emissions_next, List.getLast?_concat]

/-- The last emission decides what is right below a block of the next height. -/
theorem blockBelow_of_lastEmission {calls : List Call} {source : Source} {last block : Block}
    (h : lastEmission calls = some (source, last)) (hn : last.number + 1 = block.number) :
    blockBelow calls block = some last := by
  obtain ⟨before, heq⟩ := List.getLast?_eq_some_iff.mp h
  rw [blockBelow, heq]
  simp [hn]

/-- `lastEmittedBlock` is the last emission if that came from `processQueue`. -/
def Recorded (s : State) : Prop :=
  ∀ block, lastEmission s.calls = some (.processQueue, block) →
    s.lastEmittedBlock = some ⟨block.number, block.hash⟩

/-- What an event can do keeps the last emission on record. -/
theorem Effect.recorded {e : Event} (hs : Recorded s) (h : Effect s e t) : Recorded t := by
  intro block
  cases h with
  | quiet errors _ hq hc =>
    rw [hc, hq.lastEmittedBlock, lastEmission_append_of_nil (emissions_errors errors)]
    exact hs block
  | clear _ hq hc =>
    rw [hc, hq.lastEmittedBlock]
    exact hs block
  | abort error _ hq hc =>
    rw [hc, hq.lastEmittedBlock, lastEmission_append_of_nil (emissions_error error)]
    exact hs block
  | reset _ hq hc =>
    rw [hc, hq.lastEmittedBlock]
    exact hs block
  | backFill blocks _ _ _ _ _ _ _ _ hq hc =>
    rw [hc, hq.lastEmittedBlock]
    rcases List.eq_nil_or_concat blocks with rfl | ⟨blocks, last, rfl⟩
    · rw [List.map_nil, List.append_nil]
      exact hs block
    · simp [← List.append_assoc]
  | request _ _ _ _ hr =>
    rw [hr.frame]
    exact hs block
  | fail _ =>
    dsimp only [caught]
    rw [lastEmission_append_of_nil (emissions_error _)]
    exact hs block
  | reorg _ _ =>
    dsimp only [caught]
    rw [lastEmission_append_of_nil (emissions_reorg _)]
    exact hs block
  | emit _ _ hr =>
    rw [hr.frame, lastEmission_next]
    rintro ⟨⟩
    rfl

/-- The call that `processQueue` makes for an answer. -/
def callFor (s : State) (block : Block) : Call :=
  if isReOrgedMissed s block then .reorg block else .next .processQueue block

@[simp] theorem callFor_answer (s : State) (block : Block) :
    (callFor s block).answer = some block := by
  unfold callFor
  split
  · rfl
  · rfl

/-- A step makes the one call for the answer `processQueue` gets, or calls for no answer, which
emit nothing unless the loop of `backFillBlocks` goes on. -/
theorem Effect.calls {e : Event} (h : Effect s e t) :
    (∃ job block, s.processing = some job ∧ e.block = some block ∧
      t.seen = s.seen ++ [block] ∧ t.calls = s.calls ++ [callFor s block]) ∨
    e.block = none ∧ t.seen = s.seen ∧ ∃ more, t.calls = s.calls ++ more ∧
      (∀ call ∈ more, call.answer = none) ∧ (e.backFills = false → emissions more = []) := by
  have hsame : t.calls = s.calls → ∃ more, t.calls = s.calls ++ more ∧
      (∀ call ∈ more, call.answer = none) ∧ (e.backFills = false → emissions more = []) :=
    fun hcalls => ⟨[], hcalls.trans (List.append_nil _).symm, nofun, fun _ => rfl⟩
  cases h with
  | quiet errors he hq hcalls =>
    refine Or.inr ⟨he, hq.seen, _, hcalls, fun call hcall => ?_, fun _ => emissions_errors errors⟩
    obtain ⟨error, _, rfl⟩ := List.mem_map.mp hcall
    rfl
  | clear he hq hcalls => exact Or.inr ⟨he, hq.seen, hsame hcalls⟩
  | abort error he hq hcalls =>
    exact Or.inr ⟨he, hq.seen, _, hcalls, List.forall_mem_singleton.mpr rfl, fun _ => rfl⟩
  | reset _ hq hcalls => exact Or.inr ⟨rfl, hq.seen, hsame hcalls⟩
  | backFill blocks _ _ _ he hblocks _ _ _ hq hcalls =>
    refine Or.inr ⟨he, hq.seen, _, hcalls, fun call hcall => ?_, fun hlive => ?_⟩
    · obtain ⟨block, _, rfl⟩ := List.mem_map.mp hcall
      rfl
    · obtain rfl := hblocks.resolve_right (by simp [hlive])
      rfl
  | request _ _ _ _ hr =>
    rw [hr.frame]
    exact Or.inr ⟨rfl, rfl, [], (List.append_nil _).symm, nofun, fun _ => rfl⟩
  | fail _ =>
    exact Or.inr ⟨rfl, rfl, _, rfl, List.forall_mem_singleton.mpr rfl, fun _ => rfl⟩
  | reorg hp hre => exact Or.inl ⟨_, _, hp, rfl, rfl, by rw [callFor, hre]; rfl⟩
  | emit hp hre hr =>
    rw [hr.frame]
    exact Or.inl ⟨_, _, hp, rfl, rfl, by rw [callFor, hre]; rfl⟩

/-- Calls for no answer do not make `processQueue` the source of the last emission. -/
theorem lastEmission_append_of_answer {calls more : List Call} {block : Block}
    (hmore : ∀ call ∈ more, call.answer = none)
    (h : lastEmission (calls ++ more) = some (.processQueue, block)) :
    lastEmission calls = some (.processQueue, block) := by
  rw [lastEmission, emissions_append, List.getLast?_append, Option.or_eq_some_iff] at h
  rcases h with hlast | ⟨_, hbefore⟩
  · obtain ⟨call, hcall, hemission⟩ := List.mem_filterMap.mp (List.mem_of_getLast? hlast)
    have hnone := hmore call hcall
    cases call with
    | next source other =>
      obtain rfl : source = .processQueue := (Prod.mk.inj (Option.some.inj hemission)).1
      cases hnone
    | reorg other => cases hemission
    | error error => cases hemission
  · exact hbefore

/-- What every run of a subscription keeps. -/
structure Consistent (s : State) : Prop where
  marked : Marked s
  recorded : Recorded s
  /-- Each answer that `processQueue` gets makes one call. -/
  answers : s.calls.filterMap Call.answer = s.seen

theorem Consistent.init : Consistent State.init := ⟨rfl, nofun, rfl⟩

/-- Every event keeps this. -/
theorem step_consistent {e : Event} (hs : Consistent s) (h : step cfg s e = some t) :
    Consistent t := by
  have heffect := step_effect hs.marked h
  refine ⟨heffect.marked hs.marked, heffect.recorded hs.recorded, ?_⟩
  rcases heffect.calls with ⟨_, block, _, _, hseen, hcalls⟩ | ⟨_, hseen, more, hcalls, hmore, _⟩
  · rw [hcalls, hseen, List.filterMap_append, hs.answers]
    simp
  · rw [hcalls, hseen, List.filterMap_append, hs.answers, List.filterMap_eq_nil_iff.mpr hmore,
      List.append_nil]

section Each

variable {P : List Call → Call → Prop}

/-- A step keeps a property of the calls for answers exactly when the call it makes has it. -/
theorem step_each {e : Event} (hP : ∀ calls call, call.answer = none → P calls call)
    (hs : Consistent s) (h : step cfg s e = some t) :
    Each P t.calls ↔ Each P s.calls ∧ ∀ block ∈ e.block, P s.calls (callFor s block) := by
  rcases (step_effect hs.marked h).calls with
    ⟨_, block, _, he, _, hcalls⟩ | ⟨he, _, more, hcalls, hmore, _⟩
  · rw [hcalls, Each.snoc_iff, he]
    simp
  · rw [hcalls, Each.append_iff fun call hcall calls => hP calls call (hmore call hcall), he]
    simp

/-- A run whose guard gives the property to each call that a step makes for an answer ends with
the property of every call. -/
theorem each_of_guarded {G : State → Event → Prop} {es : List Event}
    (hP : ∀ calls call, call.answer = none → P calls call)
    (hG : ∀ s e, Consistent s → G s e → ∀ block ∈ e.block, P s.calls (callFor s block))
    (h : (machine cfg).Run G State.init es s) : Each P s.calls := by
  have hkeep : ∀ t e u, Consistent t ∧ Each P t.calls → G t e → (machine cfg).step t e = some u →
      Consistent u ∧ Each P u.calls := by
    intro t e u ht hg hstep
    exact ⟨step_consistent ht.1 hstep, (step_each hP ht.1 hstep).mpr ⟨ht.2, hG t e ht.1 hg⟩⟩
  exact (h.invariant hkeep ⟨Consistent.init, Each.nil⟩).2

end Each

end ChainIndexer.Subscription
