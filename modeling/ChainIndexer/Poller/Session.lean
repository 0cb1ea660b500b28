import ChainIndexer.Poller.Effect
import Mathlib.Data.List.Chain
import Mathlib.Data.List.Nodup

/-!
# Sessions of the poller

A session is independent of the earlier ones when the observer gets the answers
for consecutive heights from the start block, and hears of a re-org exactly when
an answer is not linked to the block before it. Jobs left in the queue, a job
still awaited and the hash of the last block all survive `subscribe`. The
sessions are independent in every run that starts none over them.
-/

namespace ChainIndexer.Poller

variable {cfg : Config} {s t : State}

/-- The first block is the parent of the second, whatever the case of the hashes. -/
def Parent (p x : Answer) : Prop := toLowerCase p.block.hash = toLowerCase x.block.parentHash

instance (p x : Answer) : Decidable (Parent p x) := inferInstanceAs (Decidable (_ = _))

/-- A re-org is reported, or will be when `unsubscribe` resolves. -/
def ReOrged (s : State) : Prop := Raised.reorg ∈ s.errors ∨ s.processing = some .unsubscribing

instance (s : State) : Decidable (ReOrged s) := inferInstanceAs (Decidable (_ ∨ _))

/-- What the observer of the session has seen does not depend on the earlier sessions. -/
structure Independent (s : State) : Prop where
  /-- The emissions are the heights from the start block on. -/
  inOrder : s.emitted.map Answer.height = List.range' s.start s.emitted.length
  linked : s.emitted.IsChain Parent
  /-- A re-org is found exactly at an answer that is not linked to the last emission. -/
  reorged : ¬ ReOrged s ∧ s.answered = s.emitted ∨
    ReOrged s ∧ ∃ p x, s.emitted.getLast? = some p ∧ ¬ Parent p x ∧ s.answered = s.emitted ++ [x]

/-- No session starts over what an earlier one has left, be it in the queue, in an activation
or in the saved hash, and every block has a hash. -/
def StartsClean (s : State) : Event → Prop
  | .subscribe pollingId _ =>
    s.queue = [] ∧ s.processing = none ∧ ∀ loop ∈ s.loops, loop.pollingId ≠ pollingId
  | .settled (.ok block) => block.hash ≠ "" ∧ (s.emitted = [] → isReOrged s block = false)
  | .settled (.error _) | .unsubscribe | .latest .. | .woken _ | .unsubscribed => True

instance (s : State) (e : Event) : Decidable (StartsClean s e) := by
  unfold StartsClean
  split <;> infer_instance

/-- Everything requested belongs to the session: the answers and the line are the heights up to
the next height of the current activation. -/
def Requests (s : State) : Prop :=
  ∃ k, s.answered.map Answer.height ++ line s = List.range' s.start k ∧
    ∀ loop ∈ s.loops, s.pollingId = some loop.pollingId → loop.next = s.start + k

/-- The invariant of the runs that start sessions clean. -/
structure Own (s : State) : Prop where
  independent : Independent s
  requests : s.fatalError = false → Requests s
  marked : Marked s
  /-- No two activations of `startBlockPolling` carry one polling id. -/
  ids : (s.loops.map Loop.pollingId).Nodup
  /-- The saved hash is that of the last emission. -/
  saved : ¬ ReOrged s → ∀ p, s.emitted.getLast? = some p →
    p.block.hash ≠ "" ∧ s.lastSavedBlockHash = some (toLowerCase p.block.hash)
  fatal : s.fatalError = true → s.processing = none
  reported : Raised.reorg ∈ s.errors → s.fatalError = true
  unsubscribing : s.processing = some .unsubscribing → s.pollingId = none

theorem Own.init : Own State.init where
  independent := ⟨rfl, .nil, Or.inl ⟨by decide, rfl⟩⟩
  requests := fun _ => ⟨0, rfl, nofun⟩
  marked := rfl
  ids := .nil
  saved := nofun
  fatal := fun _ => rfl
  reported := nofun
  unsubscribing := nofun

/-- While a job is awaited, no error has ended the session. -/
theorem Own.alive {height : Nat} (hs : Own s) (hp : s.processing = some (.job height)) :
    s.fatalError = false ∧ ¬ ReOrged s ∧ s.answered = s.emitted := by
  have hfatal : s.fatalError = false := by
    by_contra hf
    rw [Bool.not_eq_false] at hf
    simp [hs.fatal hf] at hp
  have hre : ¬ ReOrged s := by
    rintro (hmem | hun)
    · simp [hs.reported hmem] at hfatal
    · simp [hp] at hun
  refine ⟨hfatal, hre, ?_⟩
  rcases hs.independent.reorged with ⟨_, heq⟩ | ⟨hyes, _⟩
  · exact heq
  · exact absurd hyes hre

/-- The awaited job is for the height after the last emission. -/
theorem Own.next_height {height : Nat} (hs : Own s) (hp : s.processing = some (.job height)) :
    height = s.start + s.emitted.length := by
  obtain ⟨hfatal, _, heq⟩ := hs.alive hp
  obtain ⟨k, hline, _⟩ := hs.requests hfatal
  rw [heq, line, hp] at hline
  have hget := congrArg (fun l => l[s.emitted.length]?) hline
  simp only [awaited, List.singleton_append] at hget
  rw [List.getElem?_append_right (by simp), List.length_map, Nat.sub_self,
    List.getElem?_cons_zero] at hget
  obtain ⟨_, hx⟩ := List.getElem?_eq_some_iff.mp hget.symm
  rw [List.getElem_range'] at hx
  omega

/-- The check of `processQueue` compares with the last emission, if there is one. -/
theorem Own.check {height : Nat} {block : Block} {p : Answer} (hs : Own s)
    (hp : s.processing = some (.job height)) (hlast : s.emitted.getLast? = some p) :
    isReOrged s block = false ↔ Parent p ⟨height, block⟩ := by
  obtain ⟨_, hre, _⟩ := hs.alive hp
  obtain ⟨hne, hsaved⟩ := hs.saved hre p hlast
  simp [isReOrged, hsaved, hne, Parent]

/-- What the check of `processQueue` lets pass continues the session. -/
theorem Own.emit_independent {height : Nat} {block : Block} (hs : Own s)
    (hp : s.processing = some (.job height)) (hre : isReOrged s block = false)
    (hemitted : t.emitted = s.emitted ++ [⟨height, block⟩])
    (hanswered : t.answered = s.answered ++ [⟨height, block⟩]) (hstart : t.start = s.start)
    (ht : ¬ ReOrged t) : Independent t where
  inOrder := by
    rw [hemitted, hstart, List.map_append, hs.independent.inOrder, List.length_append,
      hs.next_height hp, ← List.range'_append_1]
    rfl
  linked := by
    rw [hemitted, List.isChain_append]
    refine ⟨hs.independent.linked, .singleton _, fun p hlast x hx => ?_⟩
    obtain rfl := Option.some.inj hx
    exact (hs.check hp hlast).mp hre
  reorged := Or.inl ⟨ht, by rw [hemitted, hanswered, (hs.alive hp).2.2]⟩

/-- Independence reads the answers, the emissions and whether a re-org was found. -/
theorem Independent.congr (h : Independent s) (hstart : t.start = s.start)
    (hanswered : t.answered = s.answered) (hemitted : t.emitted = s.emitted)
    (hre : ReOrged t ↔ ReOrged s) : Independent t where
  inOrder := by
    rw [hemitted, hstart]
    exact h.inOrder
  linked := hemitted ▸ h.linked
  reorged := by
    rw [hanswered, hemitted, hre]
    exact h.reorged

/-- An activation moved in place keeps its polling id. -/
theorem pollingIds_set {loops : List Loop} {i : Nat} {loop : Loop} (h : loops[i]? = some loop)
    (next : Nat) (point : Point) :
    (loops.set i ⟨loop.pollingId, next, point⟩).map Loop.pollingId = loops.map Loop.pollingId := by
  obtain ⟨hi, rfl⟩ := List.getElem?_eq_some_iff.mp h
  have hi' : i < (loops.map Loop.pollingId).length := by rwa [List.length_map]
  rw [List.map_set]
  simpa only [List.getElem_map] using List.set_getElem_self hi'

/-- Requests change neither the errors nor whether `unsubscribe` is awaited. -/
theorem Requested.reOrged {heights : List Nat} (h : Requested s t heights) :
    ReOrged t ↔ ReOrged s := by
  have herrors : t.errors = s.errors := by rw [h.frame]
  unfold ReOrged
  rw [herrors]
  rcases h.processing with heq | ⟨_, hnone, hun⟩
  · rw [heq]
  · simp [hnone, hun]

/-- Requests by a current activation keep everything requested in the session. -/
theorem Own.request {i n : Nat} {loop : Loop} (point : Point) (hs : Own s)
    (hi : s.loops[i]? = some loop) (hid : s.pollingId = some loop.pollingId)
    (hr : Requested s t (List.range' loop.next n)) :
    Own { t with loops := s.loops.set i ⟨loop.pollingId, loop.next + n, point⟩ } := by
  have hframe := hr.frame
  have hids := pollingIds_set hi (loop.next + n) point
  have hnodup := hids ▸ hs.ids
  rw [hframe] at hr ⊢
  refine ⟨hs.independent.congr rfl rfl rfl hr.reOrged, fun hf => ?_, hr.marked, hnodup,
    fun hre => hs.saved (mt hr.reOrged.mpr hre), fun hf => ?_, hs.reported, fun hun => ?_⟩
  · obtain ⟨k, hline, hnext⟩ := hs.requests hf
    obtain ⟨hlt, rfl⟩ := List.getElem?_eq_some_iff.mp hi
    have hstart := hnext _ (List.getElem_mem hlt) hid
    refine ⟨k + n, ?_, fun other hother hother' => ?_⟩
    · have ht : line t = line s ++ List.range' (s.start + k) n := hstart ▸ hr.line
      calc s.answered.map Answer.height ++ line t
        _ = (s.answered.map Answer.height ++ line s) ++ List.range' (s.start + k) n := by
          rw [ht, List.append_assoc]
        _ = List.range' s.start (k + n) := by rw [hline, List.range'_append_1]
    · -- The activation that moved is the only one with the current polling id.
      have hmem := List.mem_set hlt (a := ⟨s.loops[i].pollingId, s.loops[i].next + n, point⟩)
      have hsame := Option.some.inj (hother'.symm.trans hid)
      obtain rfl := List.inj_on_of_nodup_map hnodup hother hmem hsame
      change s.loops[i].next + n = s.start + (k + n)
      omega
  · rcases hr.processing with heq | ⟨hf', _⟩
    · exact heq.trans (hs.fatal hf)
    · exact absurd (hf.symm.trans hf') (by decide)
  · rcases hr.processing with heq | ⟨_, _, hne⟩
    · exact hs.unsubscribing (heq.symm.trans hun)
    · exact absurd hun hne

/-- A session started clean owns nothing yet. -/
theorem Own.subscribe {pollingId start : Nat} (hs : Own s)
    (hg : StartsClean s (.subscribe pollingId start)) : Own (subscribe s pollingId start) := by
  obtain ⟨hqueue, hprocessing, hfresh⟩ := hg
  have hre : ¬ ReOrged (Poller.subscribe s pollingId start) := by
    simp [ReOrged, Poller.subscribe, hprocessing]
  refine ⟨⟨rfl, .nil, Or.inl ⟨hre, rfl⟩⟩, fun _ => ⟨0, ?_, ?_⟩, hs.marked, ?_, nofun,
    fun _ => hprocessing, nofun, fun hun => ?_⟩
  · simp [Poller.subscribe, line, awaited, hqueue, hprocessing]
  · intro loop hloop hid
    rcases List.mem_append.mp hloop with hold | hnew
    · exact absurd (Option.some.inj hid).symm (hfresh loop hold)
    · obtain rfl := List.mem_singleton.mp hnew
      rfl
  · simp only [Poller.subscribe, List.map_append, List.map_cons, List.map_nil]
    refine hs.ids.append (List.nodup_singleton _) ?_
    rw [List.disjoint_singleton]
    intro hmem
    obtain ⟨loop, hloop, hid⟩ := List.mem_map.mp hmem
    exact hfresh loop hloop hid
  · simp [Poller.subscribe, hprocessing] at hun

/-- A block that is passed on continues the session. -/
theorem Own.emit {height : Nat} {block : Block} (hs : Own s)
    (hp : s.processing = some (.job height)) (hre : isReOrged s block = false)
    (hne : block.hash ≠ "")
    (hr : Requested { s with
      answered := s.answered ++ [⟨height, block⟩], emitted := s.emitted ++ [⟨height, block⟩],
      lastSavedBlockHash := some (toLowerCase block.hash), processing := none,
      processingQueue := false } t []) : Own t := by
  obtain ⟨hfatal, hno, heq⟩ := hs.alive hp
  have herrors : Raised.reorg ∉ s.errors := fun hmem => hno (Or.inl hmem)
  have ht : ¬ ReOrged t := by
    rw [hr.reOrged]
    simp [ReOrged, herrors]
  have hframe := hr.frame
  have hun : t.processing ≠ some .unsubscribing := fun hun => ht (Or.inr hun)
  refine ⟨hs.emit_independent hp hre ?_ ?_ ?_ ht, fun _ => ?_, hr.marked, ?_, ?_, ?_, ?_,
    fun h => absurd h hun⟩
  · rw [hframe]
  · rw [hframe]
  · rw [hframe]
  · obtain ⟨k, hline, hnext⟩ := hs.requests hfatal
    rw [line, hp] at hline
    have htline : line t = s.queue := hr.line.trans (by simp [line, awaited])
    refine ⟨k, ?_, ?_⟩
    · rw [htline, hframe]
      simpa [awaited] using hline
    · rw [hframe]
      exact hnext
  · rw [hframe]
    exact hs.ids
  · intro _ p hlast
    rw [hframe, List.getLast?_concat] at hlast
    obtain rfl := Option.some.inj hlast
    exact ⟨hne, by rw [hframe]⟩
  · intro hf
    rw [hframe] at hf
    simp [hfatal] at hf
  · intro hmem
    rw [hframe] at hmem
    exact absurd hmem herrors

/-- A block that is not passed on is not linked to the last emission. -/
theorem Own.reorg {height : Nat} {block : Block} (hs : Own s)
    (hp : s.processing = some (.job height)) (hre : isReOrged s block = true)
    (hg : s.emitted = [] → isReOrged s block = false) :
    Own { s with
      answered := s.answered ++ [⟨height, block⟩], lastSavedBlockHash := none, pollingId := none,
      processing := some .unsubscribing } := by
  obtain ⟨hfatal, hno, heq⟩ := hs.alive hp
  refine ⟨⟨hs.independent.inOrder, hs.independent.linked, Or.inr ⟨Or.inr rfl, ?_⟩⟩, fun _ => ?_,
    hs.marked.trans (by rw [hp]; rfl), hs.ids, fun h => absurd (Or.inr rfl) h, fun hf => ?_,
    hs.reported, fun _ => rfl⟩
  · cases hlast : s.emitted.getLast? with
    | none => simp [hg (List.getLast?_eq_none_iff.mp hlast)] at hre
    | some p =>
      refine ⟨p, ⟨height, block⟩, rfl, fun hparent => ?_, by rw [heq]⟩
      simp [(hs.check hp hlast).mpr hparent] at hre
  · obtain ⟨k, hline, _⟩ := hs.requests hfatal
    refine ⟨k, ?_, nofun⟩
    rw [line, hp] at hline
    simpa [line, awaited] using hline
  · exact absurd hf (by simp [hfatal])

/-- After `unsubscribe` no activation is current. -/
theorem Own.unsubscribe (hs : Own s) : Own (unsubscribe s) := by
  refine ⟨hs.independent.congr rfl rfl rfl Iff.rfl, fun hf => ?_, hs.marked, hs.ids, hs.saved,
    hs.fatal, hs.reported, fun _ => rfl⟩
  obtain ⟨k, hline, _⟩ := hs.requests hf
  exact ⟨k, hline, nofun⟩

/-- An activation that waits elsewhere asks for the same height next. -/
theorem Own.park {i : Nat} {loop : Loop} (hs : Own s) (hi : s.loops[i]? = some loop)
    (point : Point) : Own { s with loops := s.loops.set i { loop with point := point } } := by
  refine ⟨hs.independent.congr rfl rfl rfl Iff.rfl, fun hf => ?_, hs.marked,
    pollingIds_set hi loop.next point ▸ hs.ids, hs.saved, hs.fatal, hs.reported,
    hs.unsubscribing⟩
  obtain ⟨k, hline, hnext⟩ := hs.requests hf
  refine ⟨k, hline, fun other hother hid => ?_⟩
  rcases List.mem_or_eq_of_mem_set hother with hold | rfl
  · exact hnext other hold hid
  · exact hnext loop (List.mem_of_getElem? hi) hid

/-- An activation ends without finding a re-org. -/
theorem Own.finish {raised : List Raised} (hs : Own s) (i : Nat) (hraised : Raised.reorg ∉ raised) :
    Own { finish s i with errors := s.errors ++ raised } := by
  have hre : Raised.reorg ∈ s.errors ++ raised ↔ Raised.reorg ∈ s.errors := by simp [hraised]
  refine ⟨hs.independent.congr rfl rfl rfl (or_congr_left hre), fun hf => ?_, hs.marked,
    hs.ids.sublist ((List.eraseIdx_sublist _ _).map _), fun hno => hs.saved fun hyes => ?_,
    hs.fatal, fun hmem => hs.reported (hre.mp hmem), hs.unsubscribing⟩
  · obtain ⟨k, hline, hnext⟩ := hs.requests hf
    exact ⟨k, hline, fun loop hloop => hnext loop (List.eraseIdx_subset hloop)⟩
  · exact hno (hyes.imp_left hre.mpr)

/-- A failed job ends the session without a re-org. -/
theorem Own.fail {height : Nat} (hs : Own s) (hp : s.processing = some (.job height))
    (error : BaseError) : Own (caught s (.other error)) := by
  obtain ⟨_, hno, _⟩ := hs.alive hp
  have herrors : Raised.reorg ∉ s.errors := fun hmem => hno (Or.inl hmem)
  have ht : ¬ ReOrged (caught s (.other error)) := by
    simp [ReOrged, caught, herrors]
  exact ⟨hs.independent.congr rfl rfl rfl ⟨fun h => absurd h ht, fun h => absurd h hno⟩, nofun,
    rfl, hs.ids, fun _ => hs.saved hno, fun _ => rfl, fun _ => rfl, nofun⟩

/-- A found re-org is reported when `unsubscribe` resolves. -/
theorem Own.report (hs : Own s) (hp : s.processing = some .unsubscribing) :
    Own (caught { s with queue := [] } .reorg) := by
  have ht : ReOrged (caught { s with queue := [] } .reorg) :=
    Or.inl (List.mem_append_right _ (List.mem_singleton_self _))
  have hyes : ReOrged s := Or.inr hp
  exact ⟨hs.independent.congr rfl rfl rfl ⟨fun _ => hyes, fun _ => ht⟩, nofun, rfl, hs.ids,
    fun hno => absurd ht hno, fun _ => rfl, fun _ => rfl, nofun⟩

/-- A clean step keeps the session its own. -/
theorem step_own {e : Event} (hs : Own s) (hg : StartsClean s e) (h : step cfg s e = some t) :
    Own t := by
  cases step_effect hs.marked h with
  | subscribe => exact hs.subscribe hg
  | unsubscribe => exact hs.unsubscribe
  | park point hi => exact hs.park hi point
  | finish raised hraised => exact hs.finish _ hraised
  | request point hi hid hr => exact hs.request point hi hid hr
  | fail hp => exact hs.fail hp _
  | reorg hp hre => exact hs.reorg hp hre hg.2
  | emit hp hre hr => exact hs.emit hp hre hg.1 hr
  | report hp => exact hs.report hp

end ChainIndexer.Poller
