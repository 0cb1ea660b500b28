import ChainIndexer.Consumer.Buffered
import ChainIndexer.Consumer.Flag

/-!
# Order within a partition

Every message is decoded in its own activation of `onData`, so messages enter
the queue in the order in which their decodings complete. Where the decodings of
a partition complete in the order of arrival, its messages enter the queue, are
handed to a synchronous observer and are committed in the order of their offsets.
A tombstone waits for no coder, so it can overtake.
-/

namespace ChainIndexer.Consumer

variable {β γ : Type} {cfg : Config} {s t u : State β γ}

/-- A value is decoded only when no earlier message of its partition is still being decoded. -/
def InArrivalOrder (s : State β γ) : Event β γ → Prop
  | .deserialized i (.ok _) _ => ∀ m, s.arriving[i]? = some m →
      ∀ x ∈ s.arriving.take i, ¬ x.position.SamePartition m.position
  | _ => True

instance (s : State β γ) (e : Event β γ) : Decidable (InArrivalOrder s e) :=
  match e with
  | .deserialized i (.ok _) _ => match h : s.arriving[i]? with
    | none => isTrue (by intro m hm; simp [h] at hm)
    | some m => decidable_of_iff (∀ x ∈ s.arriving.take i, ¬ x.position.SamePartition m.position)
        (by simp [InArrivalOrder, h])
  | .deserialized _ (.error _) _ | .start | .connected _ | .data _ | .seeked .. | .retried ..
  | .settled .. | .clientError _ | .disconnected | .stop | .disconnectCallback => isTrue trivial

theorem Position.SamePartition.symm {a b : Position} (h : a.SamePartition b) :
    b.SamePartition a :=
  ⟨h.1.symm, h.2.symm⟩

theorem Position.SamePartition.trans {a b c : Position} (h : a.SamePartition b)
    (k : b.SamePartition c) : a.SamePartition c :=
  ⟨h.1.trans k.1, h.2.trans k.2⟩

/-- The waiting message behind a place of the view. -/
theorem view_waiting {i : Nat} {p : Position} (h : (view s).waiting[i]? = some p) :
    ∃ m, s.arriving[i]? = some m ∧ m.position = p := by
  simpa [view] using h

/-- Decoding in the order of arrival lets no message of the partition overtake. -/
theorem InArrivalOrder.permits (q : Position) {e : Event β γ} (h : InArrivalOrder s e) :
    Permits (Buffer.InOrder q.SamePartition) s e := by
  cases e with
  | deserialized i result flow =>
    cases result with
    | error error => trivial
    | ok value =>
      intro p hp hq x hx
      obtain ⟨m, hm, rfl⟩ := view_waiting hp
      have hx' : x ∈ (s.arriving.take i).map (·.position) := by
        simpa only [view, List.map_take] using hx
      obtain ⟨y, hy, rfl⟩ := List.mem_map.mp hx'
      intro hqy
      exact h m hm y hy (hqy.symm.trans hq)
  | settled failure commits flow =>
    cases failure with
    | none => exact fun _ _ _ _ => trivial
    | some error => trivial
  | start | connected | data | seeked | retried | clientError | disconnected | stop
  | disconnectCallback => trivial

/-! ## What the books say -/

/-- Commits are recorded where they were made, and a synchronous consumer calls
`observer.next` for the element it awaits and at no other time. -/
structure Ledger (cfg : Config) (s : State β γ) : Prop where
  committed : s.committed.Sublist s.handled
  promises : cfg.mode = .synchronous → s.promises = []
  queue : cfg.mode = .synchronous → ∀ element ∈ s.queue, element.promise = none
  nextCalls : cfg.mode = .synchronous → s.nextCalls = s.awaited

theorem Ledger.init : Ledger cfg (State.init : State β γ) :=
  ⟨List.Sublist.refl _, fun _ => rfl, fun _ => nofun, fun _ => rfl⟩

/-- What moves no message keeps the books. -/
theorem Ledger.quiet (h : Ledger cfg s) (hq : Quiet s t) : Ledger cfg t where
  committed := by
    rw [hq.committed, hq.handled]
    exact h.committed
  promises hm := hq.promises.trans (h.promises hm)
  queue hm element he := by
    obtain ⟨hqueue, _⟩ | ⟨hqueue, _⟩ := hq.queue
    · exact h.queue hm element (hqueue ▸ he)
    · rw [hqueue] at he
      cases he
  nextCalls hm := by
    rw [hq.nextCalls, hq.awaited]
    exact h.nextCalls hm

/-- The head of the loop calls `next` for the element that it awaits. -/
theorem Ledger.runQueue (h : Ledger cfg s) (errorCount : Nat) :
    Ledger cfg (runQueue s errorCount) := by
  cases hq : s.queue with
  | nil =>
    rw [runQueue_nil hq]
    exact ⟨h.committed, h.promises, h.queue, h.nextCalls⟩
  | cons element rest =>
    rw [runQueue_cons hq]
    refine ⟨h.committed, h.promises, h.queue, fun hm => ?_⟩
    have hpromise : element.promise = none := h.queue hm element (by simp [hq])
    simp [hpromise, h.nextCalls hm]

/-- A call of the loop keeps the books. -/
theorem Ledger.processQueue (h : Ledger cfg s) : Ledger cfg (processQueue s) := by
  unfold Consumer.processQueue
  split
  · exact Ledger.runQueue (s := { s with queueIsProcessing := true })
      ⟨h.committed, h.promises, h.queue, h.nextCalls⟩ 0
  · exact h

/-- So does a call that rejects. -/
theorem Ledger.caught (h : Ledger cfg s) (a : Activation γ) (error : Thrown) :
    Ledger cfg (caught cfg s a error) := by
  unfold Consumer.caught
  split
  · have he := h.quiet (onError_quiet s (KafkaError.createUnknown error false))
    exact ⟨he.committed, he.promises, he.queue, he.nextCalls⟩
  · exact h.runQueue _

/-- A synchronous consumer calls nothing when a message enters. -/
theorem Ledger.push (h : Ledger cfg s) (m : Message γ) : Ledger cfg (push cfg s m) := by
  refine ⟨?_, ?_, ?_, ?_⟩
  · obtain ⟨element, nextCalls, promises, _, hp⟩ := push_eq cfg s m
    rw [hp]
    exact h.committed
  · intro hm
    simpa [Consumer.push, enqueue, hm] using h.promises hm
  · intro hm element he
    simp only [Consumer.push, enqueue, hm, List.mem_append, List.mem_singleton] at he
    rcases he with he | rfl
    · exact h.queue hm element he
    · rfl
  · intro hm
    simpa [Consumer.push, enqueue, hm] using h.nextCalls hm

/-- A message is committed right after it was handled. -/
theorem Ledger.succeed (h : Ledger cfg s) (a : Activation γ) (commits : List (Option Thrown)) :
    Ledger cfg (succeed cfg s a commits) := by
  obtain ⟨committed, hc, hq⟩ :=
    safeCommitMessage_quiet cfg (resolve s a) a.element.position commits 0
  have hresolve : Ledger cfg { resolve s a with committed := committed } := by
    refine ⟨?_, h.promises, h.queue, h.nextCalls⟩
    rcases hc with rfl | rfl
    · exact h.committed.append_right _
    · exact h.committed.trans (List.sublist_append_left _ _)
  have hcommit := hresolve.quiet hq
  exact ⟨hcommit.committed, hcommit.promises,
    fun hm element he => hcommit.queue hm element (List.mem_of_mem_tail he), hcommit.nextCalls⟩

/-- Every step keeps the books. -/
theorem step_ledger {e : Event β γ} (h : Ledger cfg s) (hs : step cfg s e = some t) :
    Ledger cfg t := by
  have hdecoded : ∀ i, Ledger cfg (decoded s i) :=
    fun i => ⟨h.committed, h.promises, h.queue, h.nextCalls⟩
  cases step_effect hs with
  | quiet _ hq => exact h.quiet hq
  | arrive _ => exact ⟨h.committed, h.promises, h.queue, h.nextCalls⟩
  | retry hp _ | resolve hp =>
    have hno : cfg.mode ≠ .synchronous := by
      intro hm
      simp [h.promises hm] at hp
    exact ⟨h.committed, fun hm => absurd hm hno, fun hm => absurd hm hno,
      fun hm => absurd hm hno⟩
  | @reject i m _ _ _ _ hq =>
    have hreject : Ledger cfg { decoded s i with dropped := s.dropped ++ [m.position] } :=
      ⟨h.committed, h.promises, h.queue, h.nextCalls⟩
    exact hreject.quiet hq
  | enter _ hu => exact (((hdecoded _).push _).quiet hu.quiet).processQueue
  | overflow _ hq => exact ((hdecoded _).push _).quiet hq
  | fail _ => exact h.caught _ _
  | succeed _ _ hu => exact ((h.succeed _ _).quiet hu.quiet).runQueue 0
  | underflow _ _ hu => exact ((h.succeed _ _).quiet hu.quiet).caught _ _

/-! ## The order of offsets -/

/-- The offsets of the messages of one partition ascend. -/
def Ascending (q : Position) (positions : List Position) : Prop :=
  (positions.filter (q.SamePartition ·)).Pairwise fun a b => a.offset < b.offset

instance (q : Position) (positions : List Position) : Decidable (Ascending q positions) :=
  inferInstanceAs (Decidable (List.Pairwise _ _))

/-- The offsets of the messages of one partition never go back. -/
def NeverBack (q : Position) (positions : List Position) : Prop :=
  (positions.filter (q.SamePartition ·)).Pairwise fun a b => a.offset ≤ b.offset

/-- What is left out keeps the rest in order. -/
theorem Ascending.sublist {q : Position} {xs ys : List Position} (h : Ascending q ys)
    (hsub : xs.Sublist ys) : Ascending q xs :=
  List.Pairwise.sublist (hsub.filter _) h

/-- Positions that occur in turn among ascending ones never go back. -/
theorem Ascending.neverBack {q : Position} {xs ys : List Position} (h : Ascending q ys)
    (hturn : xs.Pairwise (Buffer.InTurn ys)) : NeverBack q xs := by
  refine (hturn.filter _).imp_of_mem ?_
  intro a b ha hb hab
  rcases hab with rfl | hab
  · exact Nat.le_refl _
  · have hpair := h.sublist hab
    have hqa : q.SamePartition a := by simpa using (List.mem_filter.mp ha).2
    have hqb : q.SamePartition b := by simpa using (List.mem_filter.mp hb).2
    have hlt : a.offset < b.offset := by simpa [Ascending, hqa, hqb] using hpair
    exact Nat.le_of_lt hlt

/-- Where decodings complete in the order of arrival and a partition is delivered in the order
of its offsets, it enters the queue and is committed in that order, and a synchronous
consumer calls `observer.next` in that order. -/
theorem offset_order {es : List (Event β γ)}
    (h : (machine cfg).Run InArrivalOrder State.init es s) (q : Position)
    (hd : Ascending q s.delivered) :
    Ascending q s.entered ∧ Ascending q s.handled ∧ Ascending q s.committed ∧
      (cfg.mode = .synchronous → NeverBack q s.nextCalls) := by
  have hledger : Ledger cfg s := h.invariant (fun _ _ _ hi _ hs => step_ledger hi hs) Ledger.init
  obtain ⟨_, hreach⟩ := h.simulate (n := Buffer.machine Position) (I := fun _ => True)
    (H := Buffer.InOrder q.SamePartition) view
    (fun _ _ _ _ hg hs =>
      ⟨trivial, step_reach (Buffer.InOrder.lenient _) (hg.permits q) hs⟩) trivial
  have horderly : Buffer.Orderly (view s) := Buffer.Orderly.of_reach hreach
  have hsorted : Buffer.Sorted q.SamePartition (view s) := Buffer.Sorted.of_reach hreach
  have hentered : Ascending q s.entered :=
    List.Pairwise.sublist ((List.sublist_append_left _ _).trans hsorted) hd
  have hhandled : Ascending q s.handled := hentered.sublist horderly.done_sublist
  refine ⟨hentered, hhandled, hhandled.sublist hledger.committed, fun hm => ?_⟩
  rw [hledger.nextCalls hm]
  exact hentered.neverBack horderly.taken

/-- A message with a value on the only partition. -/
def valued (offset : Nat) : Message Unit := ⟨⟨"blocks", 0, offset⟩, some ()⟩

/-- The tombstone at offset 1 is not decoded, so it overtakes the value at offset 0. -/
def overtaking : List (Event Unit Unit) :=
  [.start, .connected true, .data (valued 0), .data (tombstone 1),
    .deserialized 1 (.ok none) none, .deserialized 0 (.ok (some ())) none,
    .settled none [] none, .settled none [] none]

/-- Offset 1 is committed before offset 0. -/
theorem tombstone_overtakes :
    ∃ s, (machine impatient).Run Machine.Free State.init overtaking s ∧
      s.delivered.map (·.offset) = [0, 1] ∧ s.entered.map (·.offset) = [1, 0] ∧
      s.nextCalls.map (·.offset) = [1, 0] ∧ s.committed.map (·.offset) = [1, 0] :=
  Machine.exists_run_of_exec (by decide)

/-- The same messages, decoded in the order of their arrival. -/
def patient : List (Event Unit Unit) :=
  [.start, .connected true, .data (valued 0), .data (tombstone 1),
    .deserialized 0 (.ok (some ())) none, .deserialized 0 (.ok none) none,
    .settled none [] none, .settled none [] none]

/-- In this order, the offsets of entry and commit ascend. -/
theorem patient_offset_order :
    ∃ s, (machine impatient).Run InArrivalOrder State.init patient s ∧
      s.committed.map (·.offset) = [0, 1] ∧
      Ascending ⟨"blocks", 0, 0⟩ s.entered ∧ Ascending ⟨"blocks", 0, 0⟩ s.handled ∧
      Ascending ⟨"blocks", 0, 0⟩ s.committed ∧
      (impatient.mode = .synchronous → NeverBack ⟨"blocks", 0, 0⟩ s.nextCalls) := by
  obtain ⟨s, hr, hd, hc⟩ : ∃ s, (machine impatient).Run InArrivalOrder State.init patient s ∧
      Ascending ⟨"blocks", 0, 0⟩ s.delivered ∧ s.committed.map (·.offset) = [0, 1] :=
    Machine.exists_run_of_exec (by decide)
  exact ⟨s, hr, hc, offset_order hr _ hd⟩

end ChainIndexer.Consumer
