import Mathlib.Data.List.Perm.Basic
import ChainIndexer.Lifecycle.Stopped

/-!
# Errors during a restart

While a restart is in progress every error joins it, so one stop and start sequence
runs at a time. An error may join it after it has subscribed again. If the restart
then resolves, nothing is begun or emitted for that error, although it may have
stopped the new subscription.
-/

namespace ChainIndexer.Lifecycle

variable {s t u : State}

/-- The activations of `start` and `stop` that a restart awaits. -/
def sequences (s : State) : Nat :=
  (s.starts.map Start.caller).count .restart + (s.stops.map Stop.caller).count .restart

/-- Whether a restart is in progress that has not settled. -/
def unsettled : Option Restart → Nat
  | some ⟨_, none⟩ => 1
  | _ => 0

/-- A stop and start sequence begins, or the fatal error is emitted. -/
def Entry.surfaces : Entry → Bool
  | .began | .fatalError _ => true
  | .started | .stopped | .connect | .subscribe _ | .reported _ | .ended => false

/-- What an entry makes of the errors reported late in the restart in progress: after it has
called `subscribe`, which is none of them before that. -/
def late : Option (List BaseError) → Entry → Option (List BaseError)
  | none, .subscribe .restart => some []
  | some _, .ended => none
  | some errors, .reported error => some (errors ++ [error])
  | errors, _ => errors

/-- The errors reported late in the restart in progress. -/
def lateErrors (history : List Entry) : Option (List BaseError) := history.foldl late none

/-- Once a restart has ended, each fatal error reported late in it has begun another one or the
fatal error has been emitted. -/
def Surfaced (history : List Entry) : Prop :=
  ∀ before error after, history = before ++ .reported error :: after → error.isFatal = true →
    (lateErrors before).isSome = true → .ended ∈ after → ∃ entry ∈ after, entry.surfaces = true

/-- A restart resolves only if no fatal error was reported late in it, or if one of the errors
that await it is announced in any case. -/
def Surfaces (s : State) : Event → Prop
  | .resumed => match s.restart with
    | some ⟨waiters, some (.ok ())⟩ => (∃ error ∈ waiters, Producer.onError error = .stopped) ∨
        ∀ error ∈ (lateErrors s.history).getD [], error.isFatal = false
    | _ => True
  | _ => True

instance (s : State) (e : Event) : Decidable (Surfaces s e) :=
  match e with
  | .resumed => match h : s.restart with
    | some ⟨waiters, some (.ok ())⟩ =>
      decidable_of_iff ((∃ error ∈ waiters, Producer.onError error = .stopped) ∨
        ∀ error ∈ (lateErrors s.history).getD [], error.isFatal = false) (by rw [Surfaces, h])
    | some ⟨_, some (.error _)⟩ | some ⟨_, none⟩ | none => isTrue (by rw [Surfaces, h]; trivial)
  | .start | .stop | .databaseConnected _ _ | .connectCallback _ _ | .brokerStarted _
  | .startBlockFound _ _ | .subscribed _ _ | .unsubscribed _ _ | .blocksProduced _
  | .insertionAwaited _ | .disconnectCallback _ _ | .brokerStopped _ | .next | .error _ | .closed
  | .brokerAwaited _ | .sent _ _ | .delivered _ | .inserted | .kafkaError | .disconnected =>
    isTrue trivial

/-- An activation that goes on has the same caller. -/
theorem map_set_of_getElem? {α β : Type} {f : α → β} {as : List α} {i : Nat} {a b : α}
    (h : as[i]? = some a) (hf : f b = f a) : (as.set i b).map f = as.map f := by
  obtain ⟨hi, rfl⟩ := List.getElem?_eq_some_iff.mp h
  have hi' : i < (as.map f).length := by rwa [List.length_map]
  have hget : (as.map f)[i] = f b := by rw [List.getElem_map, hf]
  rw [List.map_set, ← hget, List.set_getElem_self]

/-- An activation that ends is one less. -/
theorem count_map_eraseIdx {α β : Type} [DecidableEq β] {f : α → β} {as : List α} {i : Nat} {a : α}
    (h : as[i]? = some a) (b : β) :
    ((as.eraseIdx i).map f).count b + (if f a = b then 1 else 0) = (as.map f).count b := by
  obtain ⟨hi, rfl⟩ := List.getElem?_eq_some_iff.mp h
  have hperm := (List.getElem_cons_eraseIdx_perm hi).map f
  rw [← hperm.count_eq b, List.map_cons, List.count_cons]
  simp only [beq_iff_eq]

/-- One sequence runs exactly while a restart has not settled, and a restart is awaited. -/
structure Merged (s : State) : Prop where
  single : sequences s = unsettled s.restart
  awaited : ∀ restart, s.restart = some restart → restart.waiters ≠ []

theorem Merged.init : Merged State.init := ⟨rfl, nofun⟩

/-- The same callers and restart run the same sequence. -/
theorem Merged.callers (h : Merged s) (hrestart : t.restart = s.restart)
    (hstarts : t.starts.map Start.caller = s.starts.map Start.caller)
    (hstops : t.stops.map Stop.caller = s.stops.map Stop.caller) : Merged t where
  single := by
    rw [sequences, hstarts, hstops, hrestart]
    exact h.single
  awaited := by
    rw [hrestart]
    exact h.awaited

/-- What is the same is merged as well. -/
theorem Merged.same (h : Merged s) (hsame : Same s t) : Merged t :=
  h.callers hsame.restart (congrArg _ hsame.starts) (congrArg _ hsame.stops)

/-- An error joins the restart in progress, or begins one where none is. -/
theorem Merged.restartBlockProducer (h : Merged s) (error : BaseError) :
    Merged (restartBlockProducer s error) := by
  have hsingle := h.single
  unfold Lifecycle.restartBlockProducer
  split
  · rename_i restart hr
    rw [hr] at hsingle
    refine ⟨?_, fun other hother => ?_⟩
    · change sequences s = unsettled (some ⟨_, restart.result⟩)
      rw [hsingle]
      obtain ⟨_, result⟩ := restart
      cases result <;> rfl
    · obtain rfl := Option.some.inj hother
      simp
  · rename_i hr
    rw [hr] at hsingle
    refine ⟨?_, fun other hother => ?_⟩
    · simp only [sequences, stop, record, List.map_append, List.count_append] at hsingle ⊢
      change _ + (_ + 1) = 1
      rw [← Nat.add_assoc, hsingle]
      rfl
    · obtain rfl := Option.some.inj hother
      simp

/-- An error joins the restart in progress, or begins the only one. -/
theorem Merged.onError (h : Merged s) (error : BaseError) : Merged (onError s error) := by
  have hrecord : Merged (record s (.reported error)) := h.callers rfl rfl rfl
  unfold Lifecycle.onError
  dsimp only
  split
  · exact hrecord
  · exact hrecord.restartBlockProducer error
  · exact Merged.restartBlockProducer
      (s := { record s (.reported error) with forceStop := true }) (h.callers rfl rfl rfl) error

/-- So do several errors. -/
theorem Merged.onErrors (h : Merged s) (errors : List BaseError) :
    Merged (errors.foldl Lifecycle.onError s) := by
  induction errors generalizing s with
  | nil => exact h
  | cons error errors ih => exact ih (h.onError error)

/-- A sequence that runs belongs to a restart that has not settled. -/
theorem Merged.settle (h : Merged s) (result : Except Thrown Unit)
    (hnone : sequences t = 0) (hrestart : t.restart = s.restart) : Merged (settle t result) := by
  refine ⟨?_, fun other hother => ?_⟩
  · change sequences t = unsettled (t.restart.map _)
    rw [hnone]
    cases t.restart <;> rfl
  · rw [Lifecycle.settle, Option.map_eq_some_iff] at hother
    obtain ⟨restart, hr, rfl⟩ := hother
    exact h.awaited restart (hrestart ▸ hr)

/-- At most one restart is in progress. -/
theorem unsettled_le (restart : Option Restart) : unsettled restart ≤ 1 := by
  unfold unsettled
  split
  · exact Nat.le_refl 1
  · exact Nat.zero_le 1

private theorem onError_starts (s : State) (error : BaseError) :
    (onError s error).starts = s.starts := by
  have hrestart : ∀ u : State, (restartBlockProducer u error).starts = u.starts := by
    intro u
    unfold restartBlockProducer
    cases u.restart <;> rfl
  unfold onError
  dsimp only
  split
  · rfl
  · exact hrestart _
  · exact hrestart _

private theorem onErrors_starts (errors : List BaseError) (s : State) :
    (errors.foldl onError s).starts = s.starts := by
  induction errors generalizing s with
  | nil => rfl
  | cons error errors ih => exact (ih _).trans (onError_starts s error)

/-- An activation of `start` that ends settles its restart. -/
theorem Merged.startEnds {i : Nat} {caller : Caller} {awaits : Starting} (h : Merged s)
    (hi : s.starts[i]? = some ⟨caller, awaits⟩) (result : Except Thrown Unit) :
    Merged (startEnds s i caller result) := by
  have hless := count_map_eraseIdx (f := Start.caller) hi .restart
  have hsingle := h.single
  have hle := unsettled_le s.restart
  simp only [sequences] at hsingle
  cases caller with
  | client | closed =>
    refine ⟨?_, h.awaited⟩
    change sequences { s with starts := s.starts.eraseIdx i } = unsettled s.restart
    simp only [sequences]
    simp at hless
    omega
  | restart =>
    refine h.settle (t := { s with starts := s.starts.eraseIdx i }) result ?_ rfl
    simp only [sequences]
    simp only [if_true] at hless
    omega

/-- An activation of `stop` that ends is followed by `start` or settles its restart. -/
theorem Merged.stopEnds {i : Nat} {caller : Caller} {awaits : Stopping} (h : Merged s)
    (hi : s.stops[i]? = some ⟨caller, awaits⟩) (result : Except Thrown Unit) :
    Merged (stopEnds s i caller result) := by
  have hless := count_map_eraseIdx (f := Stop.caller) hi .restart
  have hsingle := h.single
  have hle := unsettled_le s.restart
  simp only [sequences] at hsingle
  have hother : caller ≠ .restart → ∀ t : State, t.starts = s.starts →
      t.stops = s.stops.eraseIdx i → t.restart = s.restart → Merged t := by
    intro hne t hstarts hstops hrestart
    refine ⟨?_, hrestart ▸ h.awaited⟩
    rw [if_neg hne] at hless
    rw [sequences, hstarts, hstops, hrestart]
    omega
  cases caller with
  | closed => cases result <;> exact hother nofun _ rfl rfl rfl
  | client => cases result <;> exact hother nofun _ rfl rfl rfl
  | restart =>
    simp only [if_true] at hless
    have hsettle : ∀ result, Merged (Lifecycle.settle { s with stops := s.stops.eraseIdx i }
        result) := by
      intro result
      refine h.settle (t := { s with stops := s.stops.eraseIdx i }) result ?_ rfl
      simp only [sequences]
      omega
    cases result with
    | error error => exact hsettle _
    | ok value =>
      dsimp only [Lifecycle.stopEnds]
      split
      · exact hsettle _
      · refine ⟨?_, h.awaited⟩
        change _ = unsettled s.restart
        simp [sequences, start]
        omega

/-- Every event keeps restarts merged. -/
theorem step_merged {e : Event} (h : Merged s) (hs : step s e = some t) : Merged t := by
  cases step_effect hs with
  | same hsame _ => exact h.same hsame
  | connect _ _ hsame =>
    have hconnect : Merged (record s .connect) := h.callers rfl rfl rfl
    exact hconnect.same hsame
  | start =>
    refine ⟨?_, h.awaited⟩
    change _ = unsettled s.restart
    rw [← h.single]
    simp [sequences, start, record]
  | @stop _ caller hne _ =>
    refine ⟨?_, h.awaited⟩
    change _ = unsettled s.restart
    rw [← h.single]
    simp [sequences, stop, hne]
  | startAdvances hi _ _ _ hsame =>
    refine h.callers hsame.restart ?_ (congrArg _ hsame.stops)
    rw [hsame.starts]
    exact map_set_of_getElem? hi rfl
  | startEnds hi _ _ hsame =>
    exact Merged.same ((h.onErrors _).startEnds (by rwa [onErrors_starts]) _) hsame
  | stopAdvances hi _ hsame =>
    refine h.callers hsame.restart (congrArg _ hsame.starts) ?_
    rw [hsame.stops]
    exact map_set_of_getElem? hi rfl
  | stopEnds hi _ _ hsame => exact Merged.same (h.stopEnds hi _) hsame
  | @resume restart result hr hresult =>
    refine ⟨?_, nofun⟩
    have hsingle := h.single
    rw [hr] at hsingle
    obtain ⟨waiters, _⟩ := restart
    obtain rfl := hresult
    exact hsingle
  | report hsame => exact (h.onErrors _).same hsame

/-- Only the end of the restart settles what becomes of an error reported late in it. -/
theorem mem_late {errors : Option (List BaseError)} {error : BaseError} {entry : Entry}
    (hne : entry ≠ .ended) (h : error ∈ errors.getD []) : error ∈ (late errors entry).getD [] := by
  cases errors with
  | none => cases h
  | some errors =>
    cases entry with
    | ended => exact absurd rfl hne
    | reported other => exact List.mem_append_left _ h
    | started | stopped | connect | subscribe _ | began | fatalError _ => exact h

/-- The invariant: each late fatal error is one of the restart in progress or has surfaced. -/
def Pending (history : List Entry) : Prop :=
  ∀ before error after, history = before ++ .reported error :: after → error.isFatal = true →
    (lateErrors before).isSome = true →
    (.ended ∉ after ∧ error ∈ (lateErrors history).getD []) ∨
      ∃ entry ∈ after, entry.surfaces = true

namespace Pending

variable {history entries : List Entry} {entry : Entry}

theorem nil : Pending [] := by
  intro before error after h
  simp at h

/-- Then every such error has surfaced. -/
theorem surfaced (h : Pending history) : Surfaced history := by
  intro before error after heq hfatal hlate hended
  rcases h before error after heq hfatal hlate with ⟨hne, _⟩ | hsurfaces
  · exact absurd hended hne
  · exact hsurfaces

/-- An entry keeps this, unless it ends a restart with a late error that is fatal. -/
theorem snoc (h : Pending history) (hentry : entry = .ended →
    ∀ error ∈ (lateErrors history).getD [], error.isFatal = false) :
    Pending (history ++ [entry]) := by
  intro before error after heq hfatal hlate
  have hlast : lateErrors (history ++ [entry]) = late (lateErrors history) entry :=
    List.foldl_append
  rw [hlast]
  rcases List.eq_nil_or_concat after with rfl | ⟨after, last, rfl⟩
  · obtain ⟨rfl, he⟩ := List.append_inj' heq rfl
    obtain rfl : entry = .reported error := List.head_eq_of_cons_eq he
    obtain ⟨errors, herrors⟩ := Option.isSome_iff_exists.mp hlate
    rw [herrors]
    exact Or.inl ⟨List.not_mem_nil, List.mem_append_right _ (List.mem_singleton.mpr rfl)⟩
  · have heq' : history ++ [entry] = (before ++ .reported error :: after) ++ [last] := by
      simp [heq]
    obtain ⟨hinit, he⟩ := List.append_inj' heq' rfl
    obtain rfl : entry = last := List.head_eq_of_cons_eq he
    rw [List.concat_eq_append]
    rcases h before error after hinit hfatal hlate with ⟨hne, hmem⟩ | ⟨other, hother, hsurfaces⟩
    · have hended : entry ≠ .ended := by
        intro hended
        have hmild := hentry hended error hmem
        rw [hfatal] at hmild
        cases hmild
      refine Or.inl ⟨fun hin => ?_, mem_late hended hmem⟩
      rcases List.mem_append.mp hin with hin | hin
      · exact hne hin
      · exact hended (List.mem_singleton.mp hin).symm
    · exact Or.inr ⟨other, List.mem_append_left _ hother, hsurfaces⟩

/-- Entries that end no restart keep this. -/
theorem append (h : Pending history) (hentries : .ended ∉ entries) :
    Pending (history ++ entries) := by
  induction entries using List.reverseRecOn with
  | nil => rwa [List.append_nil]
  | append_singleton entries entry ih =>
    rw [List.mem_append, not_or] at hentries
    rw [← List.append_assoc]
    refine (ih hentries.1).snoc fun hended => ?_
    exact absurd (List.mem_singleton.mpr hended.symm) hentries.2

/-- What surfaces once surfaces for all errors reported before. -/
theorem surface (hentries : ∀ error, .reported error ∉ entries)
    (hsurfaces : ∃ entry ∈ entries, entry.surfaces = true) : Pending (history ++ entries) := by
  intro before error after heq _ _
  obtain ⟨entry, hmem, hentry⟩ := hsurfaces
  refine Or.inr ⟨entry, ?_, hentry⟩
  rcases List.append_eq_append_iff.mp heq with ⟨rest, _, hrest⟩ | ⟨rest, _, hrest⟩
  · refine absurd ?_ (hentries error)
    rw [hrest]
    simp
  · cases rest with
    | nil =>
      refine absurd ?_ (hentries error)
      rw [← List.nil_append entries, ← hrest]
      exact List.mem_cons_self
    | cons other rest =>
      rw [List.cons_append] at hrest
      rw [(List.cons.inj hrest).2]
      exact List.mem_append_right _ hmem

end Pending

/-- What a step adds to the history, and when a restart ends. -/
theorem Effect.history {e : Event} (h : Effect s e t) :
    (∃ entries, .ended ∉ entries ∧ t.history = s.history ++ entries) ∨
      ∃ restart result, s.restart = some restart ∧ restart.result = some result ∧
        e = .resumed ∧ t = Lifecycle.resume s restart result := by
  have hnoted : ∀ {entries}, Noted entries → .ended ∉ entries := by
    intro entries hnoted hmem
    rcases hnoted _ hmem with h | ⟨_, h⟩
    · cases h
    · cases h
  have hquiet : ∀ u : State, u.history = s.history →
      ∃ entries, .ended ∉ entries ∧ u.history = s.history ++ entries :=
    fun u hu => ⟨[], List.not_mem_nil, by rw [hu, List.append_nil]⟩
  cases h with
  | same hsame _ => exact Or.inl (hquiet t hsame.history)
  | connect _ _ hsame => exact Or.inl ⟨[.connect], by simp, hsame.history⟩
  | start => exact Or.inl ⟨[.started], by simp, rfl⟩
  | stop _ _ => exact Or.inl (hquiet _ rfl)
  | @startAdvances _ _ _ _ _ entries _ _ _ hadvance _ hsame =>
    refine Or.inl ⟨entries, ?_, hsame.history⟩
    cases hadvance with
    | silent | connect | subscribe => simp
  | @startEnds _ _ _ _ caller _ _ _ _ hsame =>
    obtain ⟨entries, hentries, heq⟩ := onErrors_noted (reported s e) s
    refine Or.inl ⟨entries, hnoted hentries, ?_⟩
    rw [hsame.history, ← heq]
    cases caller <;> rfl
  | stopAdvances _ _ hsame => exact Or.inl (hquiet t hsame.history)
  | @stopEnds _ _ _ _ caller result _ _ _ hsame =>
    rw [hsame.history]
    cases caller with
    | closed => cases result <;> exact Or.inl (hquiet s rfl)
    | client =>
      cases result with
      | error error => exact Or.inl (hquiet s rfl)
      | ok value => exact Or.inl ⟨[.stopped], by simp, rfl⟩
    | restart =>
      cases result with
      | error error => exact Or.inl (hquiet s rfl)
      | ok value =>
        dsimp only [Lifecycle.stopEnds]
        split
        · exact Or.inl (hquiet s rfl)
        · exact Or.inl (hquiet s rfl)
  | @resume restart result hr hresult => exact Or.inr ⟨restart, result, hr, hresult, rfl, rfl⟩
  | report hsame =>
    obtain ⟨entries, hentries, heq⟩ := onErrors_noted (reported s e) s
    exact Or.inl ⟨entries, hnoted hentries, hsame.history.trans heq⟩

/-- A rejected restart and a stopping error are announced. -/
theorem exists_announcement {waiters : List BaseError} {result : Except Thrown Unit}
    {error : BaseError} (hmem : error ∈ waiters)
    (h : result = .ok () → Producer.onError error = .stopped) :
    ∃ entry ∈ waiters.flatMap (announcements result), entry.surfaces = true := by
  cases result with
  | error thrown =>
    exact ⟨.fatalError (BlockProducerError.createUnknown thrown),
      List.mem_flatMap.mpr ⟨error, hmem, List.mem_cons_self⟩, rfl⟩
  | ok value =>
    refine ⟨.fatalError error, List.mem_flatMap.mpr ⟨error, hmem, ?_⟩, rfl⟩
    rw [announcements, if_pos (h rfl)]
    exact List.mem_singleton.mpr rfl

/-- Every event that surfaces late errors keeps this. -/
theorem step_pending {e : Event} (h : Pending s.history) (hm : Merged s) (hg : Surfaces s e)
    (hs : step s e = some t) : Pending t.history := by
  rcases (step_effect hs).history with ⟨entries, hentries, heq⟩ |
    ⟨restart, result, hr, hresult, rfl, rfl⟩
  · rw [heq]
    exact h.append hentries
  · obtain ⟨waiters, _⟩ := restart
    obtain rfl := hresult
    have hfatal : ∀ entry ∈ waiters.flatMap (announcements result),
        ∃ raised, entry = .fatalError raised := by
      intro entry hmem
      obtain ⟨error, _, hentry⟩ := List.mem_flatMap.mp hmem
      exact announcement_fatal hentry
    have hannounced : (∃ error ∈ waiters, result = .ok () → Producer.onError error = .stopped) →
        Pending (resume s ⟨waiters, some result⟩ result).history := by
      rintro ⟨error, hmem, herror⟩
      obtain ⟨entry, hentry, hsurfaces⟩ := exists_announcement hmem herror
      refine Pending.surface (fun other hother => ?_)
        ⟨entry, List.mem_cons_of_mem _ hentry, hsurfaces⟩
      rcases List.mem_cons.mp hother with hother | hother
      · cases hother
      · obtain ⟨raised, hraised⟩ := hfatal _ hother
        cases hraised
    cases result with
    | error thrown =>
      obtain ⟨error, hmem⟩ := List.exists_mem_of_ne_nil _ (hm.awaited _ hr)
      exact hannounced ⟨error, hmem, nofun⟩
    | ok value =>
      rw [Surfaces, hr] at hg
      rcases hg with ⟨error, hmem, hstopped⟩ | hmild
      · exact hannounced ⟨error, hmem, fun _ => hstopped⟩
      · change Pending (s.history ++ .ended :: waiters.flatMap _)
        rw [List.append_cons]
        refine (h.snoc fun _ => hmild).append fun hmem => ?_
        obtain ⟨raised, hraised⟩ := hfatal _ hmem
        cases hraised

/-- In every run in which no restart resolves over a fatal error reported late in it, one
sequence runs at a time and every late fatal error surfaces. -/
theorem fatal_errors_surface {es : List Event} (h : machine.Run Surfaces State.init es s) :
    sequences s ≤ 1 ∧ Surfaced s.history := by
  have hkept : Merged s ∧ Pending s.history :=
    h.invariant (I := fun s => Merged s ∧ Pending s.history)
      (fun _ _ _ hi hg hs => ⟨step_merged hi.1 hs, step_pending hi.2 hi.1 hg hs⟩)
      ⟨Merged.init, Pending.nil⟩
  refine ⟨?_, hkept.2.surfaced⟩
  rw [hkept.1.single]
  exact unsettled_le s.restart

/-- A request is rejected and the producer restarts up to its call of `subscribe`. -/
def restartUp : List Event := startUp ++
  [.error rejectedRequest, .unsubscribed 0 (.ok ()), .disconnectCallback 0 (.ok ()),
    .brokerStopped 0, .databaseConnected 0 (.ok ()), .connectCallback 1 (.ok ()),
    .brokerStarted 0, .startBlockFound 0 (.ok ())]

/-- A request of the new subscription is rejected before `subscribe` returns. -/
def mergedError : List Event :=
  restartUp ++ [.error rejectedRequest, .subscribed 0 (.ok ()), .resumed]

/-- The restart ends and nobody learns of the second error. -/
theorem mergedError_lost : ∃ s, machine.Run Machine.Free State.init mergedError s ∧
    s.history = [.started, .connect, .subscribe .client, .reported rejectedRequest, .began,
      .connect, .subscribe .restart, .reported rejectedRequest, .ended] ∧
    ¬ Surfaced s.history := by
  obtain ⟨s, hr, hhistory⟩ : ∃ s, machine.Run Machine.Free State.init mergedError s ∧
      s.history = [.started, .connect, .subscribe .client, .reported rejectedRequest, .began,
        .connect, .subscribe .restart, .reported rejectedRequest, .ended] :=
    Machine.exists_run_of_exec (by decide)
  refine ⟨s, hr, hhistory, fun h => ?_⟩
  obtain ⟨entry, hmem, hsurfaces⟩ :=
    h [_, _, _, _, _, _, _] rejectedRequest [.ended] hhistory rfl rfl List.mem_cons_self
  rw [List.mem_singleton.mp hmem] at hsurfaces
  cases hsurfaces

/-- The new subscription cannot be made, and the second error is announced with that. -/
def failedRestart : List Event :=
  restartUp ++ [.error rejectedRequest, .subscribed 0 (.error (.base rejectedRequest)), .resumed]

/-- The second error surfaces when the restart fails. -/
theorem failedRestart_surfaces : ∃ s, machine.Run Surfaces State.init failedRestart s ∧
    (lateErrors s.history).isNone = true ∧ sequences s ≤ 1 ∧ Surfaced s.history := by
  obtain ⟨s, hr, hnone⟩ : ∃ s, machine.Run Surfaces State.init failedRestart s ∧
      (lateErrors s.history).isNone = true := Machine.exists_run_of_exec (by decide)
  exact ⟨s, hr, hnone, fatal_errors_surface hr⟩

end ChainIndexer.Lifecycle
