import ChainIndexer.Consumer.Buffered
import ChainIndexer.Core.Backlog

/-!
# Back-pressure over several partitions

One flag stands for the partitions that are paused. `pause` names the partition of the
message that was handled last, and so does `resume`. They fit together as long as no
partition but that one is assigned when `pause` is called. The flag also outlives the
connection, while a new connection has nothing paused.
-/

namespace ChainIndexer.Consumer

variable {β γ : Type} {cfg : Config} {s t : State β γ} {assigned : List (String × Nat)}

/-- What `pause` and `resume` read of a message. -/
def Position.topicPartition (p : Position) : String × Nat := (p.topic, p.partition)

/-- The Kafka client delivers messages of the assigned partitions that are not paused. -/
def Delivers (assigned : List (String × Nat)) (s : State β γ) : Event β γ → Prop
  | .data m => m.position.topicPartition ∈ assigned ∧ m.position.topicPartition ∉ s.paused
  | .start | .connected _ | .seeked .. | .deserialized .. | .retried .. | .settled ..
  | .clientError _ | .disconnected | .stop | .disconnectCallback => True

instance (assigned : List (String × Nat)) (s : State β γ) :
    (e : Event β γ) → Decidable (Delivers assigned s e)
  | .data m => inferInstanceAs (Decidable (m.position.topicPartition ∈ assigned ∧
      m.position.topicPartition ∉ s.paused))
  | .start | .connected _ | .seeked .. | .deserialized .. | .retried .. | .settled ..
  | .clientError _ | .disconnected | .stop | .disconnectCallback => .isTrue trivial

/-- The message that `pause` is called with when an event happens. -/
def pausing (cfg : Config) (s : State β γ) : Event β γ → Option Position
  | .deserialized i (.ok value) none => match s.arriving[i]? with
    | some m =>
      if asksPause cfg (push cfg (decoded s i) ⟨m.position, value⟩) then some m.position else none
    | none => none
  | .settled none commits none => match s.processing with
    | some a => if asksPause cfg (succeed cfg s a commits) then some a.element.position else none
    | none => none
  | _ => none

/-- A connection is made. -/
def Event.connects : Event β γ → Bool
  | .connected true => true
  | _ => false

/-- No partition but that of the message is assigned when `pause` is called, and the flag is not
set when a connection is made. -/
def PausesWhole (cfg : Config) (assigned : List (String × Nat)) (s : State β γ)
    (e : Event β γ) : Prop :=
  (∀ p ∈ pausing cfg s e, ∀ partition ∈ assigned, partition = p.topicPartition) ∧
    (e.connects = true → s.consumerPaused = false)

instance (cfg : Config) (assigned : List (String × Nat)) (s : State β γ) (e : Event β γ) :
    Decidable (PausesWhole cfg assigned s e) :=
  inferInstanceAs (Decidable ((∀ p ∈ pausing cfg s e, ∀ partition ∈ assigned,
    partition = p.topicPartition) ∧ (e.connects = true → s.consumerPaused = false)))

/-- Messages handed to `onData` that have not left the queue. -/
def backlog (s : State β γ) : Nat := s.arriving.length + s.queue.length

/-- The flag and the client agree on what is paused. -/
structure Balanced (cfg : Config) (assigned : List (String × Nat)) (s : State β γ) : Prop where
  resumed : s.consumerPaused = false → s.paused = []
  /-- While the consumer is paused, nothing is delivered, so the buffer does not grow. -/
  silent : s.consumerPaused = true → ∀ m : Message β, ¬ Delivers assigned s (.data m)
  bounded : s.consumerPaused = true → ∀ es t, (machine cfg).Run
    (fun u e => Delivers assigned u e ∧ u.consumerPaused = true ∧ e.connects = false) s es t →
    backlog t ≤ backlog s

/-! ## What a step does to the pause -/

/-- The flag and the partitions that the client has been told to pause. -/
def throttle (s : State β γ) : Bool × List (String × Nat) := (s.consumerPaused, s.paused)

@[simp] theorem onError_throttle (s : State β γ) (error : BaseError) :
    throttle (onError s error) = throttle s := by
  unfold onError
  cases error.isFatal
  · rfl
  · rfl

@[simp] theorem onDisconnect_throttle (s : State β γ) :
    throttle (onDisconnect s) = throttle s := by
  unfold onDisconnect
  split
  · rfl
  · rfl

@[simp] theorem runQueue_throttle (s : State β γ) (errorCount : Nat) :
    throttle (runQueue s errorCount) = throttle s := by
  unfold runQueue
  split
  · rfl
  · rfl

@[simp] theorem processQueue_throttle (s : State β γ) :
    throttle (processQueue s) = throttle s := by
  unfold processQueue
  split
  · exact runQueue_throttle _ _
  · rfl

@[simp] theorem caught_throttle (cfg : Config) (s : State β γ) (a : Activation γ) (error : Thrown) :
    throttle (caught cfg s a error) = throttle s := by
  unfold caught
  split
  · exact onError_throttle s _
  · exact runQueue_throttle s _

@[simp] theorem push_throttle (s : State β γ) (m : Message γ) :
    throttle (push cfg s m) = throttle s := by
  obtain ⟨_, _, _, _, h⟩ := push_eq cfg s m
  rw [h]
  rfl

@[simp] theorem succeed_throttle (s : State β γ) (a : Activation γ)
    (commits : List (Option Thrown)) : throttle (succeed cfg s a commits) = throttle s := by
  have hcommit : throttle (safeCommitMessage cfg (resolve s a) a.element.position commits 0) =
      throttle s := by
    obtain h | ⟨error, h⟩ :=
      safeCommitMessage_eq cfg (resolve s a) a.element.position commits 0
    · rw [h]
      rfl
    · rw [h, onError_throttle]
      rfl
  exact hcommit

/-- `pause` and `resume` name the partition of the message. -/
theorem handleBackpressure_throttle {p : Position} {flow failure : Option Thrown}
    (h : handleBackpressure cfg s p flow = some (t, failure)) :
    asksPause cfg s = true ∧ flow = none ∧ throttle t = (true, s.paused ++ [p.topicPartition]) ∨
      ¬ (asksPause cfg s = true ∧ flow = none) ∧ (throttle t = throttle s ∨
        s.consumerPaused = true ∧
          throttle t = (false, s.paused.filter (· ≠ p.topicPartition))) := by
  unfold handleBackpressure at h
  split at h
  · rename_i hpause
    cases flow with
    | none =>
      cases h
      exact Or.inl ⟨hpause, rfl, rfl⟩
    | some error =>
      cases h
      exact Or.inr ⟨nofun, Or.inl rfl⟩
  · rename_i hpause
    have hnot : ¬ (asksPause cfg s = true ∧ flow = none) := fun hboth => hpause hboth.1
    split at h
    · rename_i hresume
      cases flow with
      | none =>
        cases h
        rw [asksResume, Bool.and_eq_true] at hresume
        exact Or.inr ⟨hnot, Or.inr ⟨hresume.1, rfl⟩⟩
      | some error =>
        cases h
        exact Or.inr ⟨hnot, Or.inl rfl⟩
    · cases flow <;> cases h
      exact Or.inr ⟨hnot, Or.inl rfl⟩

/-- A message that has been handed to `onData`. -/
def Known (s : State β γ) (p : Position) : Prop :=
  p ∈ (view s).waiting ∨ (view s).hand = some p

/-- What a step does to the pause, given the message that it calls `pause` with and whether a
connection is made. -/
inductive Throttle (s t : State β γ) : Option Position → Bool → Prop
  | pause {p} : Known s p → s.consumerPaused = false →
    throttle t = (true, s.paused ++ [p.topicPartition]) → Throttle s t (some p) false
  | resume {p} : Known s p → s.consumerPaused = true →
    throttle t = (false, s.paused.filter (· ≠ p.topicPartition)) → Throttle s t none false
  | connect : throttle t = (s.consumerPaused, []) → Throttle s t none true
  | still : throttle t = throttle s → Throttle s t none false

/-- Back-pressure is applied to a known message, and nothing else moves the pause. -/
theorem Throttle.of_backpressure {u v : State β γ} {p : Position} {flow failure : Option Thrown}
    (hu : throttle u = throttle s) (hknown : Known s p)
    (h : handleBackpressure cfg u p flow = some (v, failure)) (ht : throttle t = throttle v) :
    Throttle s t (if asksPause cfg u = true ∧ flow = none then some p else none) false := by
  have hflag : u.consumerPaused = s.consumerPaused := congrArg Prod.fst hu
  have hpaused : u.paused = s.paused := congrArg Prod.snd hu
  obtain ⟨hpause, hflow, hv⟩ | ⟨hnot, hv⟩ := handleBackpressure_throttle h
  · rw [if_pos ⟨hpause, hflow⟩]
    rw [asksPause, Bool.and_eq_true, Bool.not_eq_true'] at hpause
    exact .pause hknown (hflag ▸ hpause.1) (hpaused ▸ ht.trans hv)
  · rw [if_neg hnot]
    obtain hsame | ⟨hresume, hv⟩ := hv
    · exact .still (ht.trans (hsame.trans hu))
    · exact .resume hknown (hflag ▸ hresume) (hpaused ▸ ht.trans hv)

/-- Every step moves the pause in one of these ways. -/
theorem step_throttle {e : Event β γ} (h : step cfg s e = some t) :
    Throttle s t (pausing cfg s e) e.connects := by
  have hwaiting : ∀ {i : Nat} {m}, s.arriving[i]? = some m → Known s m.position :=
    fun hm => Or.inl (List.mem_map_of_mem (List.mem_of_getElem? hm))
  have hhand : ∀ {a}, s.processing = some a → Known s a.element.position :=
    fun ha => Or.inr (by simp [view, ha])
  have hpush : ∀ i m, throttle (push cfg (decoded s i) m) = throttle s :=
    fun i m => push_throttle (decoded s i) m
  cases step_transition h with
  | connected => exact .connect rfl
  | start | stop | refused | below | seek | arrive | seeked | resolve | renounce | retry =>
    exact .still rfl
  | seekFailed | reject | clientError => exact .still (onError_throttle _ _)
  | disconnected | disconnectCallback => exact .still (onDisconnect_throttle _)
  | fail => exact .still (caught_throttle cfg s _ _)
  | @enter i m value u hm hu =>
    have hmoved := Throttle.of_backpressure (hpush _ _) (hwaiting hm) hu
      (processQueue_throttle u)
    simpa [pausing, hm, Event.connects] using hmoved
  | @overflow i m value error u hm hu =>
    have hmoved := Throttle.of_backpressure (hpush _ _) (hwaiting hm) hu
      (onError_throttle u (KafkaError.createUnknown error false))
    simpa [pausing, hm, Event.connects] using hmoved
  | @succeed a commits u ha _ hu =>
    have hmoved := Throttle.of_backpressure (succeed_throttle s _ _) (hhand ha) hu
      (runQueue_throttle u 0)
    simpa [pausing, ha, Event.connects] using hmoved
  | @underflow a commits error u ha _ hu =>
    have hmoved := Throttle.of_backpressure (succeed_throttle s _ _) (hhand ha) hu
      (caught_throttle cfg u a error)
    simpa [pausing, ha, Event.connects] using hmoved

/-! ## Runs in which the pause is whole -/

/-- Every known message is of an assigned partition, and the one partition that is paused is
assigned and no other is. -/
structure Paired (assigned : List (String × Nat)) (s : State β γ) : Prop where
  holds : Buffer.Holds (·.topicPartition ∈ assigned) (view s)
  resumed : s.consumerPaused = false → s.paused = []
  paused : s.consumerPaused = true → ∃ partition ∈ assigned, s.paused = [partition] ∧
    ∀ other ∈ assigned, other = partition

theorem Paired.init : Paired assigned (State.init : State β γ) :=
  ⟨⟨nofun, nofun, nofun⟩, fun _ => rfl, nofun⟩

/-- A known message is of an assigned partition. -/
theorem Paired.known {p : Position} (h : Paired assigned s) (hp : Known s p) :
    p.topicPartition ∈ assigned :=
  hp.elim (h.holds.waiting p) (h.holds.hand p)

/-- Only a delivery is an arrival. -/
theorem permits_arriving {P : Position → Prop} {e : Event β γ}
    (h : ∀ m, e = .data m → P m.position) : Permits (Buffer.Arriving P) s e := by
  cases e with
  | data m => exact h m rfl
  | deserialized i result flow => cases result <;> trivial
  | settled failure commits flow =>
    cases failure with
    | none => exact fun _ _ _ _ => trivial
    | some error => trivial
  | start | connected | seeked | retried | clientError | disconnected | stop
  | disconnectCallback => trivial

/-- While nothing is delivered, the backlog does not grow. -/
theorem backlog_le {e : Event β γ} (hg : ∀ m, e ≠ .data m) (h : step cfg s e = some t) :
    backlog t ≤ backlog s := by
  have hreach := step_reach (Buffer.Arriving.lenient fun _ => False)
    (permits_arriving fun m hm => hg m hm) h
  simpa [Buffer.backlog, view, backlog] using Buffer.backlog_le_of_reach hreach

/-- A paused consumer gets nothing from the partition that is paused, and there is no other. -/
theorem Paired.silent (h : Paired assigned s) (hp : s.consumerPaused = true) (m : Message β) :
    ¬ Delivers assigned s (.data m) := by
  rintro ⟨hassigned, hfree⟩
  obtain ⟨partition, _, hpaused, honly⟩ := h.paused hp
  rw [hpaused, List.mem_singleton] at hfree
  exact hfree (honly _ hassigned)

/-- While the consumer stays paused on a connection, so do the partitions. -/
theorem Throttle.paused_eq {pausing : Option Position} (h : Throttle s t pausing false)
    (hs : s.consumerPaused = true) (ht : t.consumerPaused = true) : t.paused = s.paused := by
  cases h with
  | pause _ hflag _ => simp [hflag] at hs
  | resume _ _ hresumed =>
    have hflag : t.consumerPaused = false := congrArg Prod.fst hresumed
    simp [hflag] at ht
  | still hsame => exact congrArg Prod.snd hsame

/-- Then the flag and the client agree. -/
theorem Paired.balanced (h : Paired assigned s) : Balanced cfg assigned s where
  resumed := h.resumed
  silent := h.silent
  bounded hp es t hr := by
    have hkept : (t.consumerPaused = true → t.paused = s.paused) ∧ backlog t ≤ backlog s := by
      refine hr.invariant (I := fun u => (u.consumerPaused = true → u.paused = s.paused) ∧
        backlog u ≤ backlog s) (fun u e v hu hg hs => ?_) ⟨fun _ => rfl, Nat.le_refl _⟩
      have hpaused := hu.1 hg.2.1
      have hnone : ∀ m, e ≠ .data m := by
        rintro m rfl
        have hsilent := h.silent hp m
        rw [Delivers, ← hpaused] at hsilent
        exact hsilent hg.1
      refine ⟨fun hv => ?_, Nat.le_trans (backlog_le hnone hs) hu.2⟩
      have hthrottle := step_throttle hs
      rw [hg.2.2] at hthrottle
      rw [hthrottle.paused_eq hg.2.1 hv, hpaused]
    exact hkept.2

/-- If nothing is delivered, every assigned partition is paused. -/
theorem Balanced.mem_paused (h : Balanced cfg assigned s) (hp : s.consumerPaused = true) :
    ∀ partition ∈ assigned, partition ∈ s.paused := by
  intro partition hmem
  by_contra hfree
  exact h.silent hp ⟨⟨partition.1, partition.2, 0⟩, none⟩ ⟨hmem, hfree⟩

/-- A step keeps the balance exactly when a pause that it makes is whole and a connection that
it makes finds nothing paused. -/
theorem Paired.step {e : Event β γ} (h : Paired assigned s) (hg : Delivers assigned s e)
    (hs : step cfg s e = some t) :
    (Balanced cfg assigned t ↔ PausesWhole cfg assigned s e) ∧
      (PausesWhole cfg assigned s e → Paired assigned t) := by
  have hholds : Buffer.Holds (·.topicPartition ∈ assigned) (view t) := by
    refine h.holds.of_reach (step_reach (Buffer.Arriving.lenient _) (permits_arriving ?_) hs)
    rintro m rfl
    exact hg.1
  have hthrottle := step_throttle hs
  generalize hpausing : pausing cfg s e = pausing, hconnects : e.connects = connects at hthrottle
  cases hthrottle with
  | @pause p hknown hflag ht =>
    have hflag' : t.consumerPaused = true := congrArg Prod.fst ht
    have hpaused : t.paused = [p.topicPartition] := by
      have hpaused : t.paused = s.paused ++ [p.topicPartition] := congrArg Prod.snd ht
      rw [hpaused, h.resumed hflag]
      rfl
    have hpaired : PausesWhole cfg assigned s e → Paired assigned t := fun hwhole =>
      ⟨hholds, by simp [hflag'], fun _ => ⟨_, h.known hknown, hpaused, hwhole.1 p hpausing⟩⟩
    refine ⟨⟨fun hbalanced => ⟨fun q hq partition hmem => ?_, by simp [hconnects]⟩,
      fun hwhole => (hpaired hwhole).balanced⟩, hpaired⟩
    obtain rfl := Option.some.inj (hpausing.symm.trans hq)
    have hin := hbalanced.mem_paused hflag' partition hmem
    rw [hpaused, List.mem_singleton] at hin
    exact hin
  | @resume p hknown hflag ht =>
    have hflag' : t.consumerPaused = false := congrArg Prod.fst ht
    have hpaused : t.paused = [] := by
      obtain ⟨partition, _, hone, honly⟩ := h.paused hflag
      have hpaused : t.paused = s.paused.filter (· ≠ p.topicPartition) := congrArg Prod.snd ht
      rw [hpaused, hone, honly _ (h.known hknown)]
      simp
    have hpaired : Paired assigned t := ⟨hholds, fun _ => hpaused, by simp [hflag']⟩
    refine ⟨⟨fun _ => ?_, fun _ => hpaired.balanced⟩, fun _ => hpaired⟩
    simp [PausesWhole, hpausing, hconnects]
  | connect ht =>
    have hflag' : t.consumerPaused = s.consumerPaused := congrArg Prod.fst ht
    have hpaused : t.paused = [] := congrArg Prod.snd ht
    have hpaired (hfree : s.consumerPaused = false) : Paired assigned t :=
      ⟨hholds, fun _ => hpaused, by simp [hflag', hfree]⟩
    refine ⟨⟨fun hbalanced => ⟨by simp [hpausing], fun _ => ?_⟩,
      fun hwhole => (hpaired (hwhole.2 hconnects)).balanced⟩,
      fun hwhole => hpaired (hwhole.2 hconnects)⟩
    by_contra hflag
    rw [Bool.not_eq_false] at hflag
    obtain ⟨partition, hmem, -⟩ := h.paused hflag
    have hin := hbalanced.mem_paused (hflag'.trans hflag) partition hmem
    rw [hpaused] at hin
    cases hin
  | still ht =>
    have hflag' : t.consumerPaused = s.consumerPaused := congrArg Prod.fst ht
    have hpaused : t.paused = s.paused := congrArg Prod.snd ht
    have hpaired : Paired assigned t := by
      refine ⟨hholds, ?_, ?_⟩
      · rw [hflag', hpaused]
        exact h.resumed
      · rw [hflag', hpaused]
        exact h.paused
    refine ⟨⟨fun _ => ?_, fun _ => hpaired.balanced⟩, fun _ => hpaired⟩
    simp [PausesWhole, hpausing, hconnects]

/-- In every run, no partition is stranded and none keeps delivering to a paused consumer exactly
when `pause` is only called while no other partition is assigned, and no connection is made
while the flag is set. -/
theorem balanced_iff {es : List (Event β γ)}
    (h : (machine cfg).Run (Delivers assigned) State.init es s) :
    (∀ fs t, fs <+: es → (machine cfg).Run (Delivers assigned) State.init fs t →
      Balanced cfg assigned t) ↔
    (machine cfg).Run (fun s e => Delivers assigned s e ∧ PausesWhole cfg assigned s e)
      State.init es s :=
  h.always_iff (fun _ ht => ht.balanced) (fun _ _ _ ht hg hs => ht.step hg hs) Paired.init

/-- A consumer of one partition is balanced as long as it does not connect while paused. -/
theorem balanced_of_one_partition {es : List (Event β γ)}
    (hone : ∀ a ∈ assigned, ∀ b ∈ assigned, a = b)
    (h : (machine cfg).Run (fun s e => Delivers assigned s e ∧
      (e.connects = true → s.consumerPaused = false)) State.init es s) :
    Balanced cfg assigned s := by
  refine (h.invariant (I := Paired assigned) (fun t e u ht hg hs => (ht.step hg.1 hs).2 ?_)
    Paired.init).balanced
  refine ⟨fun p hp partition hmem => ?_, hg.2⟩
  have hthrottle := step_throttle hs
  generalize e.connects = connects at hthrottle
  rw [hp] at hthrottle
  cases hthrottle with
  | pause hknown _ _ => exact hone _ hmem _ (ht.known hknown)

/-- A tombstone of a partition. -/
def tombstoneOf (partition offset : Nat) : Message Unit := ⟨⟨"blocks", partition, offset⟩, none⟩

/-- The consumer whose buffer asks for a pause as soon as one message is in it. -/
def narrow : Config where
  mode := .synchronous
  maxBufferLength := 1
  maxRetries := 0
  startOffset _ := 0

/-- A message of one partition is queued and pauses it; then one of the other partition comes. -/
def twoPartitions : List (Event Unit Unit) :=
  [.start, .connected true, .data (tombstoneOf 0 0), .deserialized 0 (.ok none) none,
    .data (tombstoneOf 1 0), .deserialized 0 (.ok none) none, .settled none [] none,
    .settled none [] none]

/-- The second one is resumed, and the first one stays paused. -/
theorem twoPartitions_stranded : ∃ s,
    (machine narrow).Run (Delivers [("blocks", 0), ("blocks", 1)])
      (State.init : State Unit Unit) twoPartitions s ∧
    s.consumerPaused = false ∧ s.paused = [("blocks", 0)] ∧
    ¬ Balanced narrow [("blocks", 0), ("blocks", 1)] s := by
  obtain ⟨s, hr, hflag, hpaused⟩ : ∃ s,
      (machine narrow).Run (Delivers [("blocks", 0), ("blocks", 1)])
        (State.init : State Unit Unit) twoPartitions s ∧
      s.consumerPaused = false ∧ s.paused = [("blocks", 0)] :=
    Machine.exists_run_of_exec (by decide)
  refine ⟨s, hr, hflag, hpaused, fun hbalanced => ?_⟩
  rw [hbalanced.resumed hflag] at hpaused
  cases hpaused

/-- The only partition is paused by its first message and resumed after it. -/
def onePartition : List (Event Unit Unit) :=
  [.start, .connected true, .data (tombstoneOf 0 0), .deserialized 0 (.ok none) none,
    .settled none [] none, .data (tombstoneOf 0 1), .deserialized 0 (.ok none) none]

/-- With one partition, they agree after every event of the run. -/
theorem onePartition_balanced : ∃ s,
    (machine narrow).Run (Delivers [("blocks", 0)]) (State.init : State Unit Unit) onePartition s ∧
    s.paused = [("blocks", 0)] ∧ ∀ fs t, fs <+: onePartition →
      (machine narrow).Run (Delivers [("blocks", 0)]) State.init fs t →
      Balanced narrow [("blocks", 0)] t := by
  obtain ⟨s, hr, hpaused⟩ : ∃ s, (machine narrow).Run
      (fun s e => Delivers [("blocks", 0)] s e ∧ PausesWhole narrow [("blocks", 0)] s e)
      (State.init : State Unit Unit) onePartition s ∧ s.paused = [("blocks", 0)] :=
    Machine.exists_run_of_exec (by decide)
  have hdelivered := hr.mono fun _ _ hg => hg.1
  exact ⟨s, hdelivered, hpaused, (balanced_iff hdelivered).mpr hr⟩

end ChainIndexer.Consumer
