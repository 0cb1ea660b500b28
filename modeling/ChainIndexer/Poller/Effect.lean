import ChainIndexer.Poller.State

/-!
# What one step of the poller can do

The activations only append to the line of heights that are awaited or queued,
in order. Every event either moves one activation, or extends the line from the
next height of a current activation, or settles the head of the line.
-/

namespace ChainIndexer.Poller

variable {cfg : Config} {s t u : State}

/-- The height of the job being awaited. -/
def awaited : Option Activation → List Nat
  | some (.job height) => [height]
  | some .unsubscribing | none => []

/-- The heights requested and not yet settled, in order. -/
def line (s : State) : List Nat := awaited s.processing ++ s.queue

/-- The flag tells whether `processQueue` is suspended. -/
def Marked (s : State) : Prop := s.processingQueue = s.processing.isSome

/-- From the first state to the second, these heights were requested and nothing else changed. -/
structure Requested (s t : State) (heights : List Nat) : Prop where
  frame : t = { s with
    queue := t.queue, processing := t.processing, processingQueue := t.processingQueue }
  line : line t = line s ++ heights
  marked : Marked t
  /-- Processing starts only where it was idle and no error has ended the session. -/
  processing : t.processing = s.processing ∨
    s.fatalError = false ∧ s.processing = none ∧ t.processing ≠ some .unsubscribing

theorem Requested.nil (h : Marked s) : Requested s s [] where
  frame := rfl
  line := (List.append_nil _).symm
  marked := h
  processing := Or.inl rfl

/-- Further requests follow. -/
theorem Requested.append {l m : List Nat} (h : Requested s t l) (k : Requested t u m) :
    Requested s u (l ++ m) where
  frame := by
    have hk := k.frame
    rw [h.frame] at hk
    exact hk
  line := by rw [k.line, h.line, List.append_assoc]
  marked := k.marked
  processing := by
    have hfatal : t.fatalError = s.fatalError := by rw [h.frame]
    rcases k.processing with hk | ⟨hf, hn, hu⟩
    · rw [hk]
      exact h.processing
    · rcases h.processing with hh | ⟨hf', hn', _⟩
      · exact Or.inr ⟨hfatal ▸ hf, hh ▸ hn, hu⟩
      · exact Or.inr ⟨hf', hn', hu⟩

/-- The head of the loop of `processQueue` leaves the queued heights in line. -/
theorem runQueue_requested (s : State) (h : s.processingQueue = true) :
    Requested { s with processing := none, processingQueue := false } (runQueue s) [] := by
  unfold runQueue
  split
  · rename_i height rest hq
    split
    · rename_i hc
      rw [Bool.and_eq_true, Bool.not_eq_true'] at hc
      exact ⟨rfl, by simp [line, awaited, hq], h, Or.inr ⟨hc.1, rfl, nofun⟩⟩
    · exact .nil rfl
  · exact .nil rfl

/-- A job queued is one height more in line. -/
theorem request_requested (h : Marked s) (height : Nat) :
    Requested s (request s height) [height] := by
  unfold request
  dsimp only
  split
  · exact ⟨rfl, (List.append_assoc _ _ _).symm, h, Or.inl rfl⟩
  · rename_i hidle
    rw [Bool.not_eq_true] at hidle
    have hnone : s.processing = none := by
      rw [← Option.isSome_eq_false_iff.trans Option.isNone_iff_eq_none, ← h, hidle]
    have hrun := runQueue_requested { s with
      queue := s.queue ++ [height], processingQueue := true } rfl
    refine ⟨hrun.frame, ?_, hrun.marked, ?_⟩
    · refine hrun.line.trans ?_
      simp [line, awaited, hnone]
    · refine hrun.processing.imp (fun hp => hp.trans hnone.symm) fun hp => ?_
      exact ⟨hp.1, hnone, hp.2.2⟩

/-- The inner loop requests consecutive heights. -/
theorem fill_requested (cfg : Config) : ∀ (heights : Nat) {s : State} (next : Nat), Marked s →
    ∃ n, (fill cfg heights s next).2.1 = next + n ∧
      Requested s (fill cfg heights s next).1 (List.range' next n)
  | 0, _, _, h => ⟨0, rfl, .nil h⟩
  | heights + 1, s, next, h => by
    unfold fill
    split
    · exact ⟨0, rfl, .nil h⟩
    · have hone := request_requested h next
      obtain ⟨n, hn, hrest⟩ := fill_requested cfg heights (next + 1) hone.marked
      refine ⟨n + 1, by omega, ?_⟩
      rw [List.range'_succ]
      exact hone.append hrest

/-- What an event can do to the poller. -/
inductive Effect (s : State) : Event → State → Prop
  | subscribe {pollingId start} :
    Effect s (.subscribe pollingId start) (subscribe s pollingId start)
  | unsubscribe : Effect s .unsubscribe (unsubscribe s)
  /-- An activation of `startBlockPolling` waits at another await. -/
  | park {e i loop} (point) : s.loops[i]? = some loop →
    Effect s e { s with loops := s.loops.set i { loop with point := point } }
  /-- An activation of `startBlockPolling` ends, in its catch block if there is an error. -/
  | finish {e i} (raised : List Raised) : Raised.reorg ∉ raised →
    Effect s e { finish s i with errors := s.errors ++ raised }
  /-- A current activation of `startBlockPolling` requests the heights that come next. -/
  | request {e i loop t n} (point) : s.loops[i]? = some loop →
    s.pollingId = some loop.pollingId → Requested s t (List.range' loop.next n) →
    Effect s e { t with loops := s.loops.set i ⟨loop.pollingId, loop.next + n, point⟩ }
  /-- A job fails. -/
  | fail {height error} : s.processing = some (.job height) →
    Effect s (.settled (.error error))
      (caught s (.other (BlockProducerError.createUnknown error)))
  /-- A block whose parent is not the last one. -/
  | reorg {height block} : s.processing = some (.job height) → isReOrged s block = true →
    Effect s (.settled (.ok block)) { s with
      answered := s.answered ++ [⟨height, block⟩], lastSavedBlockHash := none, pollingId := none,
      processing := some .unsubscribing }
  /-- A block passed on. -/
  | emit {height block t} : s.processing = some (.job height) → isReOrged s block = false →
    Requested { s with
      answered := s.answered ++ [⟨height, block⟩], emitted := s.emitted ++ [⟨height, block⟩],
      lastSavedBlockHash := some (toLowerCase block.hash), processing := none,
      processingQueue := false } t [] →
    Effect s (.settled (.ok block)) t
  /-- The re-org is reported. -/
  | report : s.processing = some .unsubscribing →
    Effect s .unsubscribed (caught { s with queue := [] } .reorg)

/-- A current activation goes on by requesting the heights that come next. -/
theorem proceed_effect {e : Event} {i : Nat} {loop : Loop} {latestBlockNumber : Nat}
    (hm : Marked s) (hi : s.loops[i]? = some loop) (hid : s.pollingId = some loop.pollingId) :
    Effect s e (proceed cfg s i loop latestBlockNumber) := by
  obtain ⟨n, hn, hr⟩ := fill_requested cfg (latestBlockNumber + 1 - loop.next) loop.next hm
  have hloops : (fill cfg (latestBlockNumber + 1 - loop.next) s loop.next).1.loops = s.loops := by
    rw [hr.frame]
  unfold proceed
  dsimp only
  rw [hn, hloops]
  exact .request _ hi hid hr

/-- What a poll of the latest block does is one of the effects. -/
theorem latest_effect {i : Nat} {result : Except Thrown Nat} (hm : Marked s)
    (h : latest cfg s i result = some t) : Effect s (.latest i result) t := by
  unfold latest at h
  split at h
  · rename_i pollingId next hi
    obtain rfl := Option.some.inj h
    cases result with
    | error error => exact .finish [.other _] (by simp)
    | ok latestBlockNumber =>
      dsimp only
      split
      · exact .park .asleep hi
      · split
        · rename_i hid
          exact proceed_effect hm hi hid
        · have hfin := Effect.finish (s := s) (e := .latest i (.ok latestBlockNumber)) (i := i) []
            List.not_mem_nil
          rwa [List.append_nil] at hfin
  · cases h

private theorem woken_effect {i : Nat} (hm : Marked s) (h : woken cfg s i = some t) :
    Effect s (.woken i) t := by
  have hfin : Effect s (.woken i) (finish s i) := by
    have hfin := Effect.finish (s := s) (e := .woken i) (i := i) [] List.not_mem_nil
    rwa [List.append_nil] at hfin
  unfold woken at h
  split at h
  · rename_i pollingId next hi
    obtain rfl := Option.some.inj h
    split
    · exact .park .latest hi
    · exact hfin
  · rename_i pollingId next latestBlockNumber hi
    obtain rfl := Option.some.inj h
    split
    · have hpark := Effect.park (e := .woken i) (.full latestBlockNumber) hi
      obtain ⟨hlt, hget⟩ := List.getElem?_eq_some_iff.mp hi
      rwa [← hget, List.set_getElem_self hlt] at hpark
    · split
      · rename_i hid
        exact proceed_effect hm hi hid
      · exact hfin
  · cases h

/-- So is what an awaited job does. -/
theorem settled_effect {result : Except Thrown Block} (hm : Marked s)
    (h : settled s result = some t) : Effect s (.settled result) t := by
  unfold settled at h
  split at h
  · rename_i height hp
    obtain rfl := Option.some.inj h
    cases result with
    | error error => exact .fail hp
    | ok block =>
      have hflag : s.processingQueue = true := by rw [hm, hp]; rfl
      dsimp only
      split
      · rename_i hre
        exact .reorg hp hre
      · rename_i hre
        rw [Bool.not_eq_true] at hre
        exact .emit hp hre (runQueue_requested { s with
          answered := s.answered ++ [⟨height, block⟩]
          lastSavedBlockHash := some (toLowerCase block.hash)
          emitted := s.emitted ++ [⟨height, block⟩] } hflag)
  · cases h

/-- Every step is one of these effects. -/
theorem step_effect {e : Event} (hm : Marked s) (h : step cfg s e = some t) : Effect s e t := by
  cases e with
  | subscribe pollingId start =>
    obtain rfl := Option.some.inj h
    exact .subscribe
  | unsubscribe =>
    obtain rfl := Option.some.inj h
    exact .unsubscribe
  | latest i result => exact latest_effect hm h
  | woken i => exact woken_effect hm h
  | settled result => exact settled_effect hm h
  | unsubscribed =>
    obtain ⟨hp, ht⟩ := Option.ite_none_right_eq_some.mp h
    obtain rfl := Option.some.inj ht
    exact .report hp

end ChainIndexer.Poller
