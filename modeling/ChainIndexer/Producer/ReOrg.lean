import ChainIndexer.Producer.Checkpoint

/-!
# The store and re-organised blocks

An insertion creates the block and then deletes what lies above it. After a
re-organisation a number comes again with another hash, and the unique index
refuses it: the attempts are used up, `processQueue` ends, and the old hash and
everything above it stay. A skipped entry can hide a changed hash as well. In
runs where neither happens the store follows the deliveries.
-/

namespace ChainIndexer.Producer

variable {cfg : Config} {s t : State}

/-- The hash a number was last delivered with. -/
def lastHash (delivered : List ProducedBlock) (number : Nat) : Option String :=
  ((delivered.filter (·.number = number)).getLast?).map (·.hash)

/-- Every stored hash is the one last delivered, and nothing is stored above the last delivery. -/
structure Follows (store : Store) (delivered : List ProducedBlock) : Prop where
  hash : ∀ block ∈ store.blocks, lastHash delivered block.number = some block.hash
  last : ∀ block ∈ store.blocks, ∀ final ∈ delivered.getLast?, block.number ≤ final.number

theorem Follows.empty : Follows Store.empty [] := ⟨nofun, nofun⟩

/-- The hash last delivered is found in the later deliveries first. -/
theorem lastHash_append (before after : List ProducedBlock) (number : Nat) :
    lastHash (before ++ after) number = (lastHash after number).or (lastHash before number) := by
  unfold lastHash
  rw [List.filter_append, List.getLast?_append]
  cases (after.filter (·.number = number)).getLast? <;> rfl

private theorem lastHash_mem {delivered : List ProducedBlock} {number : Nat} {hash : String}
    (h : lastHash delivered number = some hash) :
    ∃ block ∈ delivered, block.number = number ∧ block.hash = hash := by
  obtain ⟨block, hblock, rfl⟩ := Option.map_eq_some_iff.mp h
  obtain ⟨hmem, hnumber⟩ := List.mem_filter.mp (List.mem_of_getLast? hblock)
  exact ⟨block, hmem, by simpa using hnumber, rfl⟩

/-- Deliveries that agree on a number do not change its hash. -/
theorem lastHash_agree {before after : List ProducedBlock} {number : Nat} {hash : String}
    (h : lastHash before number = some hash)
    (hagree : ∀ block ∈ after, block.number = number → block.hash = hash) :
    lastHash (before ++ after) number = some hash := by
  rw [lastHash_append]
  cases hafter : lastHash after number with
  | none => exact h
  | some other =>
    obtain ⟨block, hmem, hnumber, rfl⟩ := lastHash_mem hafter
    exact congrArg some (hagree block hmem hnumber)

private theorem lastHash_concat (before : List ProducedBlock) (block : ProducedBlock) :
    lastHash (before ++ [block]) block.number = some block.hash := by
  simp [lastHash]

/-- The skipped entries agree with what stays stored. A stored number is delivered again only
with its hash, and with nothing stored above it. -/
def Agrees (cfg : Config) (s : State) (details : ProducedBlock) : Prop :=
  if s.store.Has details.number then
    ∀ block ∈ s.store.blocks, block.number ≤ details.number ∧
      ∀ other ∈ s.skipped ++ [details], other.number = block.number → other.hash = block.hash
  else
    ∀ block ∈ s.store.blocks, ¬ Store.Deletes cfg.maxReOrgDepth details block →
      ∀ other ∈ s.skipped, other.number = block.number → other.hash = block.hash

instance (s : State) (details : ProducedBlock) : Decidable (Agrees cfg s details) := by
  unfold Agrees
  infer_instance

/-- Mongo fails only for duplicates, and what is created agrees with the store. -/
def InsertsInAgreement (cfg : Config) (s : State) : Event → Prop
  | .created fails => fails = false ∧ ∀ insertion ∈ s.inserting, Agrees cfg s insertion.details
  | .deleted fails => fails = false
  | _ => True

instance (s : State) (e : Event) : Decidable (InsertsInAgreement cfg s e) := by
  unfold InsertsInAgreement
  split <;> infer_instance

/-- The deliveries divide into settled ones, the skipped ones, the one being inserted and the
queue, and the store follows the settled ones. -/
inductive Tracks (cfg : Config) (s : State) : Prop
  | idle (settled : List ProducedBlock) : s.inserting = none →
      s.delivered = settled ++ s.mongoInsertQueue → Follows s.store settled → Tracks cfg s
  | creating {details : ProducedBlock} {retryCount : Nat} (settled : List ProducedBlock) :
      s.inserting = some ⟨details, retryCount, .create⟩ → s.mongoInsertInProcess = true →
      s.delivered = settled ++ s.skipped ++ [details] ++ s.mongoInsertQueue →
      Follows s.store settled → Tracks cfg s
  | deleting {details : ProducedBlock} {retryCount : Nat} (settled : List ProducedBlock) :
      s.inserting = some ⟨details, retryCount, .deleteMany⟩ → s.mongoInsertInProcess = true →
      s.delivered = settled ++ s.skipped ++ [details] ++ s.mongoInsertQueue →
      (∀ block ∈ s.store.blocks, ¬ Store.Deletes cfg.maxReOrgDepth details block →
        lastHash (settled ++ s.skipped ++ [details]) block.number = some block.hash) →
      Tracks cfg s

/-- What `Tracks` reads. -/
theorem Tracks.congr (h : Tracks cfg s) (hi : t.inserting = s.inserting)
    (hp : t.mongoInsertInProcess = s.mongoInsertInProcess) (hd : t.delivered = s.delivered)
    (hsk : t.skipped = s.skipped) (hq : t.mongoInsertQueue = s.mongoInsertQueue)
    (hst : t.store = s.store) : Tracks cfg t := by
  cases h with
  | idle settled hins hdel hfol =>
    exact .idle settled (hi.trans hins) (by rw [hd, hq, hdel]) (hst ▸ hfol)
  | creating settled hins hproc hdel hfol =>
    exact .creating settled (hi.trans hins) (hp.trans hproc) (by rw [hd, hsk, hq, hdel])
      (hst ▸ hfol)
  | deleting settled hins hproc hdel hfol =>
    refine .deleting settled (hi.trans hins) (hp.trans hproc) (by rw [hd, hsk, hq, hdel]) ?_
    rw [hst, hsk]
    exact hfol

/-- Beginning the next insertion divides the queue. -/
theorem runQueue_tracks {settled : List ProducedBlock} (hp : s.mongoInsertInProcess = true)
    (hd : s.delivered = settled ++ s.mongoInsertQueue) (hf : Follows s.store settled) :
    Tracks cfg (runQueue cfg s) := by
  obtain ⟨hq, hr⟩ | ⟨skipped, details, rest, hq, hr⟩ := runQueue_cases cfg s
  · rw [hr]
    exact .idle settled rfl hd hf
  · rw [hr]
    refine .creating settled rfl hp ?_ hf
    simp [hd, hq]

/-- A delivery joins the end of the queue. -/
theorem onDelivered_tracks (h : Tracks cfg s) (block : ProducedBlock) (partition : Int) :
    Tracks cfg (onDelivered cfg s block partition) := by
  unfold onDelivered
  split
  · exact h.congr rfl rfl rfl rfl rfl rfl
  · dsimp only
    cases h with
    | idle settled hins hdel hfol =>
      split
      · exact .idle settled hins (by simp [hdel]) hfol
      · exact runQueue_tracks rfl (by simp [hdel]) hfol
    | creating settled hins hproc hdel hfol =>
      rw [if_pos hproc]
      exact .creating settled hins hproc (by simp [hdel]) hfol
    | deleting settled hins hproc hdel hfol =>
      rw [if_pos hproc]
      exact .deleting settled hins hproc (by simp [hdel]) hfol

private theorem emitDelivered_tracks (h : Tracks cfg s) (block : ProducedBlock) (partition : Int)
    (listeners : Nat) : Tracks cfg (emitDelivered cfg s block partition listeners) := by
  induction listeners with
  | zero => exact h
  | succ listeners ih => exact onDelivered_tracks ih block partition

/-- After a `create` in agreement, what `deleteMany` keeps has the hash last delivered. -/
theorem create_follows {settled : List ProducedBlock} {details : ProducedBlock} {store : Store}
    (hf : Follows s.store settled) (hc : s.store.create details = some store)
    (ha : Agrees cfg s details) : ∀ block ∈ store.blocks,
      ¬ Store.Deletes cfg.maxReOrgDepth details block →
      lastHash (settled ++ s.skipped ++ [details]) block.number = some block.hash := by
  intro block hblock hkeep
  have hnew : ¬ s.store.Has details.number := by
    intro hhas
    rw [Store.create_eq_none_iff.mpr hhas] at hc
    cases hc
  rw [Agrees, if_neg hnew] at ha
  rcases (Store.mem_create hc).mp hblock with hold | rfl
  · refine lastHash_agree (lastHash_agree (hf.hash block hold) (ha block hold hkeep)) ?_
    intro other hother hnumber
    rw [List.mem_singleton.mp hother] at hnumber
    exact absurd ⟨block, hold, hnumber.symm⟩ hnew
  · exact lastHash_concat _ block

/-- What `deleteMany` leaves follows the deliveries up to the inserted one. -/
theorem deleteMany_follows {settled : List ProducedBlock} {details : ProducedBlock}
    (h : ∀ block ∈ s.store.blocks, ¬ Store.Deletes cfg.maxReOrgDepth details block →
      lastHash (settled ++ [details]) block.number = some block.hash) :
    Follows (s.store.deleteMany cfg.maxReOrgDepth details) (settled ++ [details]) where
  hash block hblock := by
    obtain ⟨hmem, hkeep⟩ := Store.mem_deleteMany.mp hblock
    exact h block hmem hkeep
  last block hblock final hfinal := by
    obtain ⟨_, hkeep⟩ := Store.mem_deleteMany.mp hblock
    rw [List.getLast?_concat] at hfinal
    obtain rfl := Option.some.inj hfinal
    unfold Store.Deletes at hkeep
    omega

/-- A duplicate in agreement leaves the store following. -/
theorem duplicate_follows {settled : List ProducedBlock} {details : ProducedBlock}
    (hf : Follows s.store settled) (hhas : s.store.Has details.number)
    (ha : Agrees cfg s details) : Follows s.store (settled ++ s.skipped ++ [details]) := by
  rw [Agrees, if_pos hhas] at ha
  constructor
  · intro block hblock
    rw [List.append_assoc]
    exact lastHash_agree (hf.hash block hblock) (ha block hblock).2
  · intro block hblock final hfinal
    rw [List.getLast?_concat] at hfinal
    obtain rfl := Option.some.inj hfinal
    exact (ha block hblock).1

/-- What is known while a `create` is awaited. -/
theorem Tracks.awaits_create {details : ProducedBlock} {retryCount : Nat} (h : Tracks cfg s)
    (hi : s.inserting = some ⟨details, retryCount, .create⟩) :
    s.mongoInsertInProcess = true ∧ ∃ settled, Follows s.store settled ∧
      s.delivered = settled ++ s.skipped ++ [details] ++ s.mongoInsertQueue := by
  cases h with
  | idle settled hins _ _ => simp [hins] at hi
  | deleting settled hins _ _ _ => simp [hins] at hi
  | creating settled hins hproc hdel hfol =>
    obtain ⟨rfl, rfl⟩ : details = _ ∧ retryCount = _ := by simpa using hi.symm.trans hins
    exact ⟨hproc, settled, hfol, hdel⟩

/-- What is known while a `deleteMany` is awaited. -/
theorem Tracks.awaits_delete {details : ProducedBlock} {retryCount : Nat} (h : Tracks cfg s)
    (hi : s.inserting = some ⟨details, retryCount, .deleteMany⟩) :
    s.mongoInsertInProcess = true ∧ ∃ settled,
      s.delivered = settled ++ s.skipped ++ [details] ++ s.mongoInsertQueue ∧
      ∀ block ∈ s.store.blocks, ¬ Store.Deletes cfg.maxReOrgDepth details block →
        lastHash (settled ++ s.skipped ++ [details]) block.number = some block.hash := by
  cases h with
  | idle settled hins _ _ => simp [hins] at hi
  | creating settled hins _ _ _ => simp [hins] at hi
  | deleting settled hins hproc hdel hfol =>
    obtain ⟨rfl, rfl⟩ : details = _ ∧ retryCount = _ := by simpa using hi.symm.trans hins
    exact ⟨hproc, settled, hdel, hfol⟩

/-- A `create` in agreement goes on to `deleteMany`, is attempted again, or ends the queue. -/
theorem created_tracks (h : Tracks cfg s)
    (ha : ∀ insertion ∈ s.inserting, Agrees cfg s insertion.details)
    (hs : created s false = some t) : Tracks cfg t := by
  unfold created at hs
  split at hs
  · rename_i details retryCount hi
    obtain rfl := Option.some.inj hs
    obtain ⟨hproc, settled, hfol, hdel⟩ := h.awaits_create hi
    have hagrees : Agrees cfg s details := ha _ hi
    cases hc : s.store.create details with
    | some store =>
      exact .deleting settled rfl hproc hdel (create_follows (s := s) hfol hc hagrees)
    | none =>
      have hhas := Store.create_eq_none_iff.mp hc
      simp only [Bool.false_eq_true, ite_false, retry]
      split
      · exact .creating settled rfl hproc hdel hfol
      · exact .idle _ rfl hdel (duplicate_follows hfol hhas hagrees)
  · cases hs

/-- A `deleteMany` settles what was skipped and inserted, and the next insertion begins. -/
theorem deleted_tracks (h : Tracks cfg s) (hs : deleted cfg s false = some t) :
    Tracks cfg t := by
  unfold deleted at hs
  split at hs
  · rename_i details retryCount hi
    obtain rfl := Option.some.inj hs
    obtain ⟨hproc, settled, hdel, hfol⟩ := h.awaits_delete hi
    exact runQueue_tracks hproc hdel (deleteMany_follows hfol)
  · cases hs

/-- A report delivers a block at most. -/
theorem deliveryReport_tracks {error : Option LibrdKafkaError} {report : Option Int}
    (h : Tracks cfg s) (hs : step cfg s (.deliveryReport error report) = some t) :
    Tracks cfg t := by
  have hack : ∀ block sent, Tracks cfg (acknowledge s error block sent) :=
    fun block sent => h.congr rfl rfl rfl rfl rfl rfl
  cases step_effect hs with
  | idle hreports _ _ => exact (hreports trivial).elim
  | attempt hreports _ => exact (hreports trivial).elim
  | unheard _ => exact hack _ _
  | report _ => exact emitDelivered_tracks (hack _ _) _ _ _

/-- Every step in agreement keeps the store on the track of the deliveries. -/
theorem step_tracks {e : Event} (h : Tracks cfg s) (hg : InsertsInAgreement cfg s e)
    (hs : step cfg s e = some t) : Tracks cfg t := by
  cases e with
  | listen | unlisten | disconnect | emit b =>
    cases hs
    exact h.congr rfl rfl rfl rfl rfl rfl
  | produced i failure =>
    obtain ⟨block, _, rfl⟩ := Option.map_eq_some_iff.mp hs
    cases failure <;> exact h.congr rfl rfl rfl rfl rfl rfl
  | deliveryReport error report => exact deliveryReport_tracks h hs
  | created fails =>
    obtain ⟨rfl, hagrees⟩ := hg
    exact created_tracks h hagrees hs
  | deleted fails =>
    obtain rfl : fails = false := hg
    exact deleted_tracks h hs

/-- A producer that resumes on a store, with what has been delivered for it before. -/
def State.resume (store : Store) (delivered : List ProducedBlock) : State :=
  { State.init store with delivered := delivered }

/-- Where insertions are in agreement, an idle producer with an empty queue has a store that
follows the deliveries. -/
theorem store_follows {store : Store} {delivered : List ProducedBlock} {es : List Event}
    (hf : Follows store delivered)
    (h : (machine cfg).Run (InsertsInAgreement cfg) (State.resume store delivered) es s)
    (hq : s.mongoInsertQueue = []) (hp : s.mongoInsertInProcess = false) :
    Follows s.store s.delivered := by
  have htracks : Tracks cfg s := by
    refine h.invariant (fun _ _ _ hi hg hs => step_tracks hi hg hs) ?_
    exact .idle delivered rfl (List.append_nil _).symm hf
  cases htracks with
  | idle settled _ hdel hfol =>
    rw [hdel, hq, List.append_nil]
    exact hfol
  | creating _ _ hproc _ _ | deleting _ _ hproc _ _ =>
    rw [hp] at hproc
    cases hproc

/-- Block 10 is delivered, and after a re-org it is delivered again with another hash; all five
attempts to create it fail. -/
def reorganised : List Event :=
  [.listen, .emit ⟨10, "0xa"⟩, .produced 0 none, .deliveryReport none (some 0), .created false,
    .deleted false, .emit ⟨10, "0xa1"⟩, .produced 0 none, .deliveryReport none (some 0),
    .created false, .created false, .created false, .created false, .created false]

/-- The store keeps the hash of the abandoned branch. -/
theorem reorganised_hash_stale :
    ∃ s, (machine fromTen).Run Machine.Free (State.resume Store.empty []) reorganised s ∧
      s.mongoInsertQueue = [] ∧ s.mongoInsertInProcess = false ∧
      s.delivered = [⟨10, "0xa"⟩, ⟨10, "0xa1"⟩] ∧ s.store.blocks = [⟨10, "0xa"⟩] ∧
      ¬ Follows s.store s.delivered := by
  obtain ⟨s, hr, hq, hp, hd, hs⟩ :
      ∃ s, (machine fromTen).Run Machine.Free (State.resume Store.empty []) reorganised s ∧
        s.mongoInsertQueue = [] ∧ s.mongoInsertInProcess = false ∧
        s.delivered = [⟨10, "0xa"⟩, ⟨10, "0xa1"⟩] ∧ s.store.blocks = [⟨10, "0xa"⟩] :=
    Machine.exists_run_of_exec (by decide)
  refine ⟨s, hr, hq, hp, hd, hs, fun hf => ?_⟩
  have hhash := hf.hash ⟨10, "0xa"⟩ (by rw [hs]; exact List.mem_singleton_self _)
  rw [hd] at hhash
  exact absurd hhash (by decide)

/-- Blocks 10 and 11 are delivered one after the other. -/
def ascending : List Event :=
  [.listen, .emit ⟨10, "0xa"⟩, .produced 0 none, .deliveryReport none (some 0), .created false,
    .deleted false, .emit ⟨11, "0xb"⟩, .produced 0 none, .deliveryReport none (some 0),
    .created false, .deleted false]

/-- Two blocks delivered one after the other are stored as delivered. -/
theorem ascending_store_follows :
    ∃ s, (machine fromTen).Run (InsertsInAgreement fromTen) (State.resume Store.empty [])
      ascending s ∧ s.store.blocks = [⟨10, "0xa"⟩, ⟨11, "0xb"⟩] ∧
      Follows s.store s.delivered := by
  obtain ⟨s, hr, hq, hp, hs⟩ : ∃ s, (machine fromTen).Run (InsertsInAgreement fromTen)
      (State.resume Store.empty []) ascending s ∧ s.mongoInsertQueue = [] ∧
      s.mongoInsertInProcess = false ∧ s.store.blocks = [⟨10, "0xa"⟩, ⟨11, "0xb"⟩] :=
    Machine.exists_run_of_exec (by decide)
  exact ⟨s, hr, hs, store_follows Follows.empty hr hq hp⟩

end ChainIndexer.Producer
