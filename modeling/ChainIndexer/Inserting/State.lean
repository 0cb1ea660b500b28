import ChainIndexer.Producer.Effect

/-!
# The insertions of delivered blocks

The part of the producer between the delivered listener and the store, with every
activation of `processQueue` kept in a list, so that two of them could run at once.
The producer's machine, which has room for one, is simulated by this one.
-/

namespace ChainIndexer.Inserting

open Producer (ProducedBlock Store Config Insertion Phase takeNext)

/-- The insertions between two awaits. -/
structure State where
  store : Store
  mongoInsertQueue : List ProducedBlock := []
  mongoInsertInProcess : Bool := false
  /-- The activations of `processQueue`, each suspended in its `addBlockToMongo`. -/
  activations : List Insertion := []
  /-- Blocks in the order they were put on the insert queue. -/
  delivered : List ProducedBlock := []

/-- Nothing has been delivered. -/
def State.init (store : Store) : State where
  store := store

/-- `processQueue` up to its first await. -/
def processQueue (cfg : Config) (s : State) : State :=
  match takeNext cfg.maxReOrgDepth s.mongoInsertQueue with
  | none => { s with mongoInsertInProcess := false }
  | some (_, details, rest) => { s with
      mongoInsertQueue := rest
      mongoInsertInProcess := true
      activations := s.activations ++ [⟨details, 0, .create⟩] }

/-- The activation at place `i` is back at the head of the loop of `processQueue`. -/
def runQueue (cfg : Config) (s : State) (i : Nat) : State :=
  match takeNext cfg.maxReOrgDepth s.mongoInsertQueue with
  | none => { s with mongoInsertInProcess := false, activations := s.activations.eraseIdx i }
  | some (_, details, rest) => { s with
      mongoInsertQueue := rest
      activations := s.activations.set i ⟨details, 0, .create⟩ }

/-- The delivered listener, for a report with a partition. -/
def delivered (cfg : Config) (s : State) (block : ProducedBlock) : State :=
  let s := { s with
    mongoInsertQueue := s.mongoInsertQueue ++ [block], delivered := s.delivered ++ [block] }
  if s.mongoInsertInProcess then s else processQueue cfg s

/-- `addBlockToMongo` after a failed attempt: up to five attempts, then `processQueue` ends. -/
def retry (s : State) (i : Nat) (insertion : Insertion) : State :=
  if insertion.retryCount < 4 then
    { s with
      activations := s.activations.set i ⟨insertion.details, insertion.retryCount + 1, .create⟩ }
  else { s with mongoInsertInProcess := false, activations := s.activations.eraseIdx i }

/-- The `create` of the activation at place `i` settles. -/
def created (s : State) (i : Nat) (fails : Bool) : Option State :=
  match s.activations[i]? with
  | some ⟨details, retryCount, .create⟩ =>
    some (match if fails then none else s.store.create details with
      | none => retry s i ⟨details, retryCount, .create⟩
      | some store => { s with
          store := store
          activations := s.activations.set i ⟨details, retryCount, .deleteMany⟩ })
  | _ => none

/-- The `deleteMany` of the activation at place `i` settles. -/
def deleted (cfg : Config) (s : State) (i : Nat) (fails : Bool) : Option State :=
  match s.activations[i]? with
  | some ⟨details, retryCount, .deleteMany⟩ =>
    some (if fails then retry s i ⟨details, retryCount, .deleteMany⟩
      else runQueue cfg { s with store := s.store.deleteMany cfg.maxReOrgDepth details } i)
  | _ => none

/-- What may happen next. An activation of `processQueue` is named by its place. -/
inductive Event where
  | delivered (block : ProducedBlock)
  /-- A `create` settles; `fails` is a failure other than a duplicate. -/
  | created (i : Nat) (fails : Bool)
  | deleted (i : Nat) (fails : Bool)

/-- One event, run up to the next await. -/
def step (cfg : Config) (s : State) : Event → Option State
  | .delivered block => some (delivered cfg s block)
  | .created i fails => created s i fails
  | .deleted i fails => deleted cfg s i fails

/-- The machine of the insertions. -/
def machine (cfg : Config) : Machine State Event where
  step := step cfg

variable {cfg : Config}

/-- What the insertions see of the producer. -/
def view (s : Producer.State) : State where
  store := s.store
  mongoInsertQueue := s.mongoInsertQueue
  mongoInsertInProcess := s.mongoInsertInProcess
  activations := s.inserting.toList
  delivered := s.delivered

/-- The flag of the producer tells whether an activation is suspended. -/
def Marked (s : Producer.State) : Prop := s.mongoInsertInProcess = s.inserting.isSome

theorem Marked.init (store : Store) : Marked (Producer.State.init store) := rfl

/-- Without the flag nothing is suspended. -/
theorem Marked.idle {s : Producer.State} (h : Marked s) (hp : s.mongoInsertInProcess = false) :
    s.inserting = none := by
  rw [h] at hp
  exact Option.isNone_iff_eq_none.mp (Option.isSome_eq_false_iff.mp hp)

@[simp] theorem view_store (s : Producer.State) : (view s).store = s.store := rfl

/-- The insertion of the producer is the first activation. -/
theorem view_activation {s : Producer.State} {insertion : Insertion}
    (hi : s.inserting = some insertion) : (view s).activations[0]? = some insertion := by
  simp [view, hi]

/-- The head of the loop keeps the flag, and is the head of the loop here. -/
theorem view_runQueue (cfg : Config) {s : Producer.State} {insertion : Insertion}
    (hi : s.inserting = some insertion) (hp : s.mongoInsertInProcess = true) :
    Marked (Producer.runQueue cfg s) ∧
      view (Producer.runQueue cfg s) = runQueue cfg (view s) 0 := by
  unfold Producer.runQueue runQueue
  cases hnext : takeNext cfg.maxReOrgDepth s.mongoInsertQueue with
  | none =>
    refine ⟨rfl, ?_⟩
    simp [view, hnext, hi]
  | some next =>
    refine ⟨hp, ?_⟩
    simp [view, hnext, hi]

/-- A retry of the producer is one of that activation. -/
theorem view_retry {s : Producer.State} {insertion : Insertion}
    (hi : s.inserting = some insertion) (hm : Marked s) :
    Marked (Producer.retry s insertion) ∧
      view (Producer.retry s insertion) = retry (view s) 0 insertion := by
  unfold Producer.retry retry
  split
  · refine ⟨?_, by simp [view, hi]⟩
    rw [Marked, hm, hi]
    rfl
  · exact ⟨rfl, by simp [view, hi]⟩

/-- A listener of the producer is called, with or without a partition. -/
theorem view_onDelivered (cfg : Config) {s : Producer.State} (hm : Marked s) (block : ProducedBlock)
    (partition : Int) : Marked (Producer.onDelivered cfg s block partition) ∧
      (machine cfg).Reach Machine.Free (view s)
        (view (Producer.onDelivered cfg s block partition)) := by
  unfold Producer.onDelivered
  split
  · exact ⟨hm, .refl _ _⟩
  · have hstep : ∀ {t : State}, delivered cfg (view s) block = t →
        (machine cfg).Reach Machine.Free (view s) t := by
      rintro t rfl
      exact Machine.Reach.single (e := .delivered block) trivial rfl
    dsimp only
    split
    · rename_i hp
      refine ⟨hm, hstep ?_⟩
      exact if_pos hp
    · rename_i hp
      rw [Bool.not_eq_true] at hp
      have hnone := hm.idle hp
      unfold Producer.processQueue Producer.runQueue
      have hdelivered : delivered cfg (view s) block = processQueue cfg { view s with
          mongoInsertQueue := s.mongoInsertQueue ++ [block]
          delivered := s.delivered ++ [block] } := if_neg (by simp [view, hp])
      cases hnext : takeNext cfg.maxReOrgDepth (s.mongoInsertQueue ++ [block]) with
      | none =>
        refine ⟨rfl, hstep (hdelivered.trans ?_)⟩
        simp [processQueue, hnext, view, hnone]
      | some next =>
        refine ⟨rfl, hstep (hdelivered.trans ?_)⟩
        simp [processQueue, hnext, view, hnone]

private theorem view_emitDelivered {s : Producer.State} (hm : Marked s) (block : ProducedBlock)
    (partition : Int) (listeners : Nat) :
    Marked (Producer.emitDelivered cfg s block partition listeners) ∧
      (machine cfg).Reach Machine.Free (view s)
        (view (Producer.emitDelivered cfg s block partition listeners)) := by
  induction listeners with
  | zero => exact ⟨hm, .refl _ _⟩
  | succ listeners ih =>
    obtain ⟨hmarked, hreach⟩ := view_onDelivered cfg ih.1 block partition
    exact ⟨hmarked, ih.2.trans hreach⟩

private theorem deliveryReport_simulates {s t : Producer.State} {error : Option LibrdKafkaError}
    {report : Option Int} (hm : Marked s)
    (h : Producer.deliveryReport cfg s error report = some t) :
    Marked t ∧ (machine cfg).Reach Machine.Free (view s) (view t) := by
  simp only [Producer.deliveryReport] at h
  split at h
  · cases h
  · rename_i block sent hsent
    obtain rfl := Option.some.inj h
    have hack : Marked (Producer.acknowledge s error block sent) := hm
    split
    · cases report with
      | none => exact ⟨hm, .refl _ _⟩
      | some partition => exact view_emitDelivered hack block partition s.listeners
    · exact ⟨hm, .refl _ _⟩

/-- The insertion in progress is the only activation, so its calls end in the first place. -/
theorem created_simulates {s t : Producer.State} {fails : Bool} (hm : Marked s)
    (h : Producer.created s fails = some t) :
    Marked t ∧ (machine cfg).Reach Machine.Free (view s) (view t) := by
  unfold Producer.created at h
  split at h
  · rename_i details retryCount hi
    obtain rfl := Option.some.inj h
    have hstep : ∀ {u}, created (view s) 0 fails = some u →
        (machine cfg).Reach Machine.Free (view s) u :=
      fun hu => Machine.Reach.single (e := .created 0 fails) trivial hu
    cases hc : if fails then none else s.store.create details with
    | none =>
      obtain ⟨hmarked, hview⟩ := view_retry hi hm
      refine ⟨hmarked, hstep ?_⟩
      rw [hview, created, view_activation hi]
      simp only [view_store, hc]
    | some store =>
      refine ⟨hm.trans (by rw [hi]; rfl), hstep ?_⟩
      rw [created, view_activation hi]
      simp only [view_store, hc]
      simp [view, hi]
  · cases h

private theorem deleted_simulates {s t : Producer.State} {fails : Bool} (hm : Marked s)
    (h : Producer.deleted cfg s fails = some t) :
    Marked t ∧ (machine cfg).Reach Machine.Free (view s) (view t) := by
  unfold Producer.deleted at h
  split at h
  · rename_i details retryCount hi
    obtain rfl := Option.some.inj h
    have hstep : ∀ {u}, deleted cfg (view s) 0 fails = some u →
        (machine cfg).Reach Machine.Free (view s) u :=
      fun hu => Machine.Reach.single (e := .deleted 0 fails) trivial hu
    cases fails with
    | true =>
      obtain ⟨hmarked, hview⟩ := view_retry hi hm
      refine ⟨hmarked, hstep ?_⟩
      rw [if_pos rfl, hview, deleted, view_activation hi]
      exact congrArg some (if_pos rfl)
    | false =>
      have hflag : s.mongoInsertInProcess = true := by
        rw [hm, hi]
        rfl
      obtain ⟨hmarked, hview⟩ := view_runQueue cfg (s := { s with
        store := s.store.deleteMany cfg.maxReOrgDepth details }) hi hflag
      refine ⟨hmarked, hstep ?_⟩
      rw [if_neg Bool.false_ne_true, hview, deleted, view_activation hi]
      exact congrArg some (if_neg Bool.false_ne_true)
  · cases h

/-- An event of the producer is a run of the insertions, and keeps the flag. -/
theorem step_simulates {s t : Producer.State} {e : Producer.Event} (hm : Marked s)
    (h : Producer.step cfg s e = some t) :
    Marked t ∧ (machine cfg).Reach Machine.Free (view s) (view t) := by
  cases e with
  | listen | unlisten | disconnect | emit block =>
    cases h
    exact ⟨hm, .refl _ _⟩
  | produced i failure =>
    obtain ⟨block, _, rfl⟩ := Option.map_eq_some_iff.mp h
    cases failure <;> exact ⟨hm, .refl _ _⟩
  | deliveryReport error report => exact deliveryReport_simulates hm h
  | created fails => exact created_simulates hm h
  | deleted fails => exact deleted_simulates hm h

/-- A run of the producer is a run of the insertions. -/
theorem producer_simulates {store : Store} {es : List Producer.Event} {s : Producer.State}
    (h : (Producer.machine cfg).Run Machine.Free (.init store) es s) :
    (machine cfg).Reach Machine.Free (.init store) (view s) :=
  (h.simulate view (fun _ _ _ hm _ hs => step_simulates hm hs) (Marked.init store)).2

end ChainIndexer.Inserting
