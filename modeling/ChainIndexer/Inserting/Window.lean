import ChainIndexer.Inserting.State
import Mathlib.Data.List.Induction
import Mathlib.Data.List.Range

/-!
# Skipping entries does not change the checkpoint

`processQueue` passes over all but the last entries of a long queue. What it passes
over lies too far below the last delivered block to stay in the store, so a store that
has caught up with ascending deliveries is the same as if every block had been
inserted.
-/

namespace ChainIndexer.Inserting

open Producer (ProducedBlock Store Config Insertion Phase takeNext)

variable {cfg : Config} {s t : State} {store : Store}

/-- `add` with both calls succeeding. -/
def add (maxReOrgDepth : Nat) (store : Store) (block : ProducedBlock) : Option Store :=
  (store.create block).map fun created => created.deleteMany maxReOrgDepth block

/-- Every block is inserted, one after the other. -/
def addAll (maxReOrgDepth : Nat) (store : Store) (blocks : List ProducedBlock) : Option Store :=
  blocks.foldlM (add maxReOrgDepth) store

/-- The delivered numbers are consecutive from this one on, which is above all stored ones. -/
def AscendsFrom (store : Store) (delivered : List ProducedBlock) (first : Nat) : Prop :=
  (∀ block ∈ store.blocks, block.number < first) ∧
    delivered.map (·.number) = List.range' first delivered.length

/-- The delivered numbers are consecutive, and above all stored ones. -/
def Ascends (store : Store) (delivered : List ProducedBlock) : Prop :=
  ∃ first, AscendsFrom store delivered first

/-- The database does not fail. -/
def NoFailure (_ : State) : Event → Prop
  | .delivered _ => True
  | .created _ fails | .deleted _ fails => fails = false

instance (s : State) (e : Event) : Decidable (NoFailure s e) := by
  unfold NoFailure
  split <;> infer_instance

/-- The place of a delivered block gives its number. -/
theorem AscendsFrom.number {delivered : List ProducedBlock} {first i : Nat} {block : ProducedBlock}
    (h : AscendsFrom store delivered first) (hi : delivered[i]? = some block) :
    block.number = first + i := by
  have hnumber : (delivered.map (·.number))[i]? = some block.number := by
    rw [List.getElem?_map, hi]
    rfl
  obtain ⟨hlt, _⟩ := List.getElem?_eq_some_iff.mp hi
  rw [h.2, List.getElem?_range' hlt, Nat.one_mul, Option.some.injEq] at hnumber
  exact hnumber.symm

/-- The first deliveries ascend as well. -/
theorem AscendsFrom.take {delivered more : List ProducedBlock} {first : Nat}
    (h : AscendsFrom store (delivered ++ more) first) : AscendsFrom store delivered first := by
  have hnumbers := h.2
  rw [List.map_append, List.length_append, ← List.range'_append_1] at hnumbers
  exact ⟨h.1, (List.append_inj hnumbers (by simp)).1⟩

/-- A block among the first deliveries has a number below the next ones. -/
theorem AscendsFrom.lt_of_mem_take {delivered : List ProducedBlock} {first n : Nat}
    {block : ProducedBlock} (h : AscendsFrom store delivered first)
    (hb : block ∈ delivered.take n) : first ≤ block.number ∧ block.number < first + n := by
  obtain ⟨i, hi⟩ := List.mem_iff_getElem?.mp hb
  obtain ⟨hlt, _⟩ := List.getElem?_eq_some_iff.mp hi
  rw [List.length_take] at hlt
  rw [List.getElem?_take_of_lt (by omega)] at hi
  have hnumber := h.number hi
  omega

/-- What `processQueue` takes next from the deliveries that are left: it skips nothing, or leaves
as many as the depth. -/
theorem takeNext_drop {maxReOrgDepth j : Nat} {delivered skipped rest : List ProducedBlock}
    {details : ProducedBlock}
    (h : takeNext maxReOrgDepth (delivered.drop j) = some (skipped, details, rest)) :
    ∃ k, j ≤ k ∧ delivered[k]? = some details ∧ rest = delivered.drop (k + 1) ∧
      (k = j ∨ k + 1 + maxReOrgDepth = delivered.length) := by
  unfold takeNext at h
  dsimp only at h
  split at h
  · cases h
  · rename_i first more hdrop
    cases h
    generalize hskip : (if maxReOrgDepth < (delivered.drop j).length then
      (delivered.drop j).length - maxReOrgDepth else 1) - 1 = skip at hdrop
    rw [List.drop_drop] at hdrop
    rw [List.length_drop] at hskip
    refine ⟨j + skip, Nat.le_add_right j _, ?_, ?_, ?_⟩
    · rw [← List.head?_drop, hdrop]
      rfl
    · rw [← List.drop_drop, hdrop]
      rfl
    · split at hskip <;> omega

/-- The blocks that may still be stored when this number is the next one to be delivered. -/
def window (maxReOrgDepth next : Nat) (blocks : List ProducedBlock) : List ProducedBlock :=
  blocks.filter fun block => next ≤ block.number + maxReOrgDepth + 1

/-- Blocks are in the window or not, each by itself. -/
theorem window_append (maxReOrgDepth next : Nat) (blocks more : List ProducedBlock) :
    window maxReOrgDepth next (blocks ++ more) =
      window maxReOrgDepth next blocks ++ window maxReOrgDepth next more :=
  List.filter_append ..

/-- A later window is a window of an earlier one. -/
theorem window_window {maxReOrgDepth next later : Nat} (h : next ≤ later)
    (blocks : List ProducedBlock) :
    window maxReOrgDepth later (window maxReOrgDepth next blocks) =
      window maxReOrgDepth later blocks := by
  unfold window
  rw [List.filter_filter]
  refine List.filter_congr fun block _ => ?_
  rw [Bool.and_eq_left_iff_imp, decide_eq_true_eq, decide_eq_true_eq]
  omega

private theorem window_eq_self {maxReOrgDepth next : Nat} {blocks : List ProducedBlock}
    (h : ∀ block ∈ blocks, next ≤ block.number + maxReOrgDepth + 1) :
    window maxReOrgDepth next blocks = blocks :=
  List.filter_eq_self.mpr fun block hb => decide_eq_true (h block hb)

private theorem window_eq_nil {maxReOrgDepth next : Nat} {blocks : List ProducedBlock}
    (h : ∀ block ∈ blocks, block.number + maxReOrgDepth + 1 < next) :
    window maxReOrgDepth next blocks = [] := by
  refine List.filter_eq_nil_iff.mpr fun block hb => ?_
  have hlt := h block hb
  rw [decide_eq_true_eq]
  omega

/-- The first deliveries have been taken, and the store has what can still be stored of them. -/
structure Kept (cfg : Config) (initial : Store) (delivered : List ProducedBlock) (first taken : Nat)
    (store : Store) : Prop where
  start : taken = 0 → store = initial
  agrees : window cfg.maxReOrgDepth (first + delivered.length) store.blocks =
    window cfg.maxReOrgDepth (first + delivered.length) (initial.blocks ++ delivered.take taken)
  low : 0 < taken → ∀ block ∈ store.blocks, first + taken ≤ block.number + cfg.maxReOrgDepth + 1
  high : ∀ block ∈ store.blocks, block.number < first + taken

variable {initial : Store} {blocks : List ProducedBlock} {first taken : Nat}

theorem Kept.init (h : AscendsFrom initial [] first) : Kept cfg initial [] first 0 initial where
  start _ := rfl
  agrees := by rw [List.take_zero, List.append_nil]
  low hpos := absurd hpos (Nat.lt_irrefl 0)
  high := h.1

/-- A delivery narrows the window. -/
theorem Kept.deliver (h : Kept cfg initial blocks first taken store) (hle : taken ≤ blocks.length)
    (block : ProducedBlock) : Kept cfg initial (blocks ++ [block]) first taken store where
  start := h.start
  agrees := by
    have hnext : first + blocks.length ≤ first + (blocks ++ [block]).length := by simp
    rw [List.take_append_of_le_length hle, ← window_window hnext store.blocks, h.agrees,
      window_window hnext]
  low := h.low
  high := h.high

private theorem create_blocks {created : Store} {block : ProducedBlock}
    (h : store.create block = some created) : created.blocks = store.blocks ++ [block] := by
  unfold Store.create at h
  split at h
  · cases h
  · cases h
    rfl

/-- Inserting a delivery is possible, and takes everything before it. -/
theorem Kept.add (h : Kept cfg initial blocks first taken store)
    (hascends : AscendsFrom initial blocks first) {k : Nat} {details : ProducedBlock}
    (hk : blocks[k]? = some details) (hle : taken ≤ k)
    (hskip : k = taken ∨ k + 1 + cfg.maxReOrgDepth ≤ blocks.length) :
    ∃ created, store.create details = some created ∧
      Kept cfg initial blocks first (k + 1) (created.deleteMany cfg.maxReOrgDepth details) := by
  have hnumber := hascends.number hk
  obtain ⟨hlt, hget⟩ := List.getElem?_eq_some_iff.mp hk
  have hnew : ¬ store.Has details.number := by
    rintro ⟨other, hother, hsame⟩
    have hhigh := h.high other hother
    omega
  obtain ⟨created, hcreate⟩ := Option.ne_none_iff_exists'.mp
    (mt Store.create_eq_none_iff.mp hnew)
  have hblocks := create_blocks hcreate
  refine ⟨created, hcreate, nofun, ?_, fun _ block hblock => ?_, fun block hblock => ?_⟩
  · have hdelete : window cfg.maxReOrgDepth (first + blocks.length)
          (created.deleteMany cfg.maxReOrgDepth details).blocks =
        window cfg.maxReOrgDepth (first + blocks.length) (store.blocks ++ [details]) := by
      unfold window Store.deleteMany
      rw [List.filter_filter, hblocks]
      refine List.filter_congr fun block hblock => ?_
      have hhigh : block.number ≤ details.number := by
        rcases List.mem_append.mp hblock with hold | hnew
        · have := h.high block hold
          omega
        · rw [List.mem_singleton.mp hnew]
      rw [Bool.and_eq_left_iff_imp, decide_eq_true_eq, decide_eq_true_eq, Store.Deletes]
      omega
    have hmiddle : window cfg.maxReOrgDepth (first + blocks.length) ((blocks.take k).drop taken) =
        [] := by
      rcases hskip with rfl | hdeep
      · rw [List.drop_take, Nat.sub_self, List.take_zero]
        rfl
      · refine window_eq_nil fun block hblock => ?_
        have := (hascends.lt_of_mem_take (List.mem_of_mem_drop hblock)).2
        omega
    have htake : blocks.take (k + 1) =
        blocks.take taken ++ (blocks.take k).drop taken ++ [details] := by
      have hfirst : blocks.take taken = (blocks.take k).take taken := by
        rw [List.take_take, Nat.min_eq_left hle]
      rw [hfirst, List.take_append_drop, ← hget, List.take_append_getElem]
    rw [hdelete, window_append, h.agrees, htake]
    simp only [window_append, hmiddle, List.nil_append, List.append_assoc]
  · obtain ⟨_, hkeep⟩ := Store.mem_deleteMany.mp hblock
    rw [Store.Deletes] at hkeep
    omega
  · obtain ⟨hmem, _⟩ := Store.mem_deleteMany.mp hblock
    rw [hblocks] at hmem
    rcases List.mem_append.mp hmem with hold | hnew
    · have := h.high block hold
      omega
    · rw [List.mem_singleton.mp hnew]
      omega

/-- Once every delivery has been taken, the store is the window. -/
theorem Kept.blocks_eq (h : Kept cfg initial blocks first blocks.length store) :
    store.blocks = if blocks = [] then initial.blocks
      else window cfg.maxReOrgDepth (first + blocks.length) (initial.blocks ++ blocks) := by
  split
  · rename_i hempty
    rw [h.start (by rw [hempty]; rfl)]
  · rename_i hne
    have hwindow := h.agrees
    rw [List.take_length] at hwindow
    rw [← hwindow, window_eq_self (h.low (List.length_pos_iff.mpr hne))]

/-- One activation at most takes the deliveries in turn, and it runs until none is left. -/
inductive Progress (cfg : Config) (initial : Store) (first : Nat) (s : State) : Prop
  | idle : s.mongoInsertInProcess = false → s.activations = [] → s.mongoInsertQueue = [] →
    Kept cfg initial s.delivered first s.delivered.length s.store → Progress cfg initial first s
  | creating {taken k : Nat} {details : ProducedBlock} {retryCount : Nat} :
    s.mongoInsertInProcess = true → s.activations = [⟨details, retryCount, .create⟩] →
    s.mongoInsertQueue = s.delivered.drop (k + 1) → s.delivered[k]? = some details → taken ≤ k →
    (k = taken ∨ k + 1 + cfg.maxReOrgDepth ≤ s.delivered.length) →
    Kept cfg initial s.delivered first taken s.store → Progress cfg initial first s
  | deleting {k : Nat} {details : ProducedBlock} {retryCount : Nat} :
    s.mongoInsertInProcess = true → s.activations = [⟨details, retryCount, .deleteMany⟩] →
    s.mongoInsertQueue = s.delivered.drop (k + 1) → k < s.delivered.length →
    Kept cfg initial s.delivered first (k + 1) (s.store.deleteMany cfg.maxReOrgDepth details) →
    Progress cfg initial first s

/-- The only activation takes what comes next, or ends with nothing left. -/
theorem runQueue_progress {insertion : Insertion} (hflag : s.mongoInsertInProcess = true)
    (ha : s.activations = [insertion]) (hq : s.mongoInsertQueue = s.delivered.drop taken)
    (hle : taken ≤ s.delivered.length) (hkept : Kept cfg initial s.delivered first taken s.store) :
    Progress cfg initial first (runQueue cfg s 0) := by
  unfold runQueue
  cases hnext : takeNext cfg.maxReOrgDepth s.mongoInsertQueue with
  | none =>
    have hempty := Producer.takeNext_eq_none hnext
    rw [hq, List.drop_eq_nil_iff] at hempty
    obtain rfl := Nat.le_antisymm hle hempty
    exact .idle rfl (by simp [ha]) (Producer.takeNext_eq_none hnext) hkept
  | some next =>
    obtain ⟨skipped, details, rest⟩ := next
    rw [hq] at hnext
    obtain ⟨k, hk, hdetails, hrest, hskip⟩ := takeNext_drop hnext
    have hset := congrArg (List.set · 0 ⟨details, 0, Phase.create⟩) ha
    exact .creating hflag hset hrest hdetails hk (hskip.imp_right Nat.le_of_eq) hkept

/-- A new activation takes what has just been delivered. -/
theorem processQueue_progress (block : ProducedBlock) (ha : s.activations = [])
    (hq : s.mongoInsertQueue = s.delivered.drop taken) (hne : block ∈ s.mongoInsertQueue)
    (hkept : Kept cfg initial s.delivered first taken s.store) :
    Progress cfg initial first (processQueue cfg s) := by
  unfold processQueue
  cases hnext : takeNext cfg.maxReOrgDepth s.mongoInsertQueue with
  | none =>
    rw [Producer.takeNext_eq_none hnext] at hne
    cases hne
  | some next =>
    obtain ⟨skipped, details, rest⟩ := next
    rw [hq] at hnext
    obtain ⟨k, hk, hdetails, hrest, hskip⟩ := takeNext_drop hnext
    have happend := congrArg (· ++ [(⟨details, 0, .create⟩ : Insertion)]) ha
    exact .creating rfl happend hrest hdetails hk (hskip.imp_right Nat.le_of_eq) hkept

private theorem delivered_progress (h : Progress cfg initial first s) (block : ProducedBlock) :
    Progress cfg initial first (delivered cfg s block) := by
  have hlength : s.delivered.length ≤ (s.delivered ++ [block]).length := by simp
  unfold delivered
  dsimp only
  cases h with
  | idle hflag ha hq hkept =>
    rw [if_neg (by simp [hflag])]
    refine processQueue_progress block ha ?_ (by simp)
      (hkept.deliver (Nat.le_refl _) block)
    rw [hq, List.drop_left, List.nil_append]
  | @creating taken k details retryCount hflag ha hq hk hle hskip hkept =>
    obtain ⟨hlt, _⟩ := List.getElem?_eq_some_iff.mp hk
    rw [if_pos hflag]
    refine .creating hflag ha ?_ ?_ hle (hskip.imp_right fun h => h.trans hlength)
      (hkept.deliver (by omega) block)
    · exact (congrArg (· ++ [block]) hq).trans
        (List.drop_append_of_le_length (by omega)).symm
    · exact (List.getElem?_append_left hlt).trans hk
  | @deleting k details retryCount hflag ha hq hlt hkept =>
    rw [if_pos hflag]
    refine .deleting hflag ha ?_ (Nat.lt_of_lt_of_le hlt hlength)
      (hkept.deliver (Nat.succ_le_of_lt hlt) block)
    exact (congrArg (· ++ [block]) hq).trans (List.drop_append_of_le_length (by omega)).symm

/-- A `create` of an ascending delivery succeeds. -/
theorem created_progress {i : Nat} (h : Progress cfg initial first s)
    (hascends : AscendsFrom initial s.delivered first) (hs : created s i false = some t) :
    Progress cfg initial first t := by
  unfold created at hs
  cases h with
  | idle _ ha _ _ =>
    rw [ha] at hs
    cases hs
  | deleting _ ha _ _ _ =>
    rw [ha] at hs
    rcases i with _ | i <;> cases hs
  | creating hflag ha hq hk hle hskip hkept =>
    obtain ⟨store, hcreate, hadded⟩ := hkept.add hascends hk hle hskip
    obtain ⟨hlt, _⟩ := List.getElem?_eq_some_iff.mp hk
    rcases i with _ | i
    · simp only [ha, List.getElem?_cons_zero, hcreate, Bool.false_eq_true, ite_false,
        Option.some.injEq] at hs
      subst hs
      exact .deleting hflag rfl hq hlt hadded
    · rw [ha] at hs
      cases hs

private theorem deleted_progress {i : Nat} (h : Progress cfg initial first s)
    (hs : deleted cfg s i false = some t) : Progress cfg initial first t := by
  unfold deleted at hs
  cases h with
  | idle _ ha _ _ =>
    rw [ha] at hs
    cases hs
  | creating _ ha _ _ _ _ _ =>
    rw [ha] at hs
    rcases i with _ | i <;> cases hs
  | @deleting k details retryCount hflag ha hq hlt hkept =>
    rcases i with _ | i
    · simp only [ha, List.getElem?_cons_zero, Bool.false_eq_true, ite_false,
        Option.some.injEq] at hs
      subst hs
      exact runQueue_progress (s := { s with
        store := s.store.deleteMany cfg.maxReOrgDepth details, activations := _ })
        hflag rfl hq (Nat.succ_le_of_lt hlt) hkept
    · rw [ha] at hs
      cases hs

/-- Every step without a failure makes progress, as long as the deliveries ascend. -/
theorem step_progress {e : Event} (h : Progress cfg initial first s)
    (hascends : AscendsFrom initial s.delivered first) (hg : NoFailure s e)
    (hs : step cfg s e = some t) : Progress cfg initial first t := by
  cases e with
  | delivered block =>
    obtain rfl := Option.some.inj hs
    exact delivered_progress h block
  | created i fails =>
    obtain rfl : fails = false := hg
    exact created_progress h hascends hs
  | deleted i fails =>
    obtain rfl : fails = false := hg
    exact deleted_progress h hs

/-- Deliveries are never taken back. -/
theorem step_delivered {e : Event} (hs : step cfg s e = some t) : s.delivered <+: t.delivered := by
  have hrun : ∀ (u : State) (i : Nat), (runQueue cfg u i).delivered = u.delivered := by
    intro u i
    unfold runQueue
    split <;> rfl
  have hretry : ∀ (i : Nat) (insertion : Insertion),
      (retry s i insertion).delivered = s.delivered := by
    intro i insertion
    unfold retry
    split <;> rfl
  cases e with
  | delivered block =>
    obtain rfl := Option.some.inj hs
    unfold delivered processQueue
    dsimp only
    split
    · exact List.prefix_append _ _
    · split
      · exact List.prefix_append _ _
      · exact List.prefix_append _ _
  | created i fails =>
    simp only [step, created] at hs
    split at hs
    · obtain rfl := Option.some.inj hs
      split
      · exact (hretry _ _).symm ▸ List.prefix_rfl
      · exact List.prefix_rfl
    · cases hs
  | deleted i fails =>
    simp only [step, deleted] at hs
    split at hs
    · obtain rfl := Option.some.inj hs
      split
      · exact (hretry _ _).symm ▸ List.prefix_rfl
      · exact (hrun _ _).symm ▸ List.prefix_rfl
    · cases hs

/-- The deliveries of an earlier moment ascend as well. -/
theorem AscendsFrom.earlier {later : List ProducedBlock} (h : AscendsFrom initial later first)
    (hbefore : blocks <+: later) : AscendsFrom initial blocks first := by
  obtain ⟨more, rfl⟩ := hbefore
  exact h.take

/-- A run without a failure whose deliveries ascend makes progress. -/
theorem run_progress {es : List Event} (h : (machine cfg).Run NoFailure (.init initial) es s)
    (hascends : AscendsFrom initial s.delivered first) : Progress cfg initial first s := by
  induction h with
  | nil => exact .idle rfl rfl rfl (Kept.init hascends)
  | @snoc es t e u hr hg hs ih =>
    have hbefore := hascends.earlier (step_delivered hs)
    exact step_progress (ih hbefore) hbefore hg hs

/-- One after the other, all ascending deliveries can be inserted. -/
theorem addAll_kept (cfg : Config) (hascends : AscendsFrom initial blocks first) :
    ∃ result, addAll cfg.maxReOrgDepth initial blocks = some result ∧
      Kept cfg initial blocks first blocks.length result := by
  induction blocks using List.reverseRecOn with
  | nil => exact ⟨initial, rfl, Kept.init hascends⟩
  | append_singleton blocks block ih =>
    obtain ⟨result, hall, hkept⟩ := ih hascends.take
    obtain ⟨created, hcreate, hadded⟩ := (hkept.deliver (Nat.le_refl _) block).add hascends
      (List.getElem?_concat_length ..) (Nat.le_refl _) (Or.inl rfl)
    refine ⟨created.deleteMany cfg.maxReOrgDepth block, ?_, ?_⟩
    · unfold addAll at hall ⊢
      rw [List.foldlM_append, hall]
      simp [add, hcreate]
    · rw [List.length_append, List.length_singleton]
      exact hadded

private theorem store_eq {other : Store} (h : store.blocks = other.blocks) : store = other := by
  cases store
  cases other
  cases h
  rfl

/-- However the deliveries and the calls of the database are interleaved, at most one activation
of `processQueue` runs; and when none does, nothing is left in the queue, and the store is the one
that inserting every delivery leaves: the blocks not deeper than the depth below the last. -/
theorem drained_store {es : List Event} (h : (machine cfg).Run NoFailure (.init initial) es s)
    (hascends : Ascends initial s.delivered) :
    s.activations.length ≤ 1 ∧ (s.mongoInsertInProcess = false →
      s.activations = [] ∧ s.mongoInsertQueue = [] ∧
      addAll cfg.maxReOrgDepth initial s.delivered = some s.store ∧
      ∀ last ∈ s.delivered.getLast?, s.store.blocks = (initial.blocks ++ s.delivered).filter
        fun block => last.number ≤ block.number + cfg.maxReOrgDepth) := by
  obtain ⟨first, hfrom⟩ := hascends
  cases run_progress h hfrom with
  | creating hflag ha _ _ _ _ _ | deleting hflag ha _ _ _ =>
    refine ⟨by rw [ha]; exact Nat.le_refl _, fun hidle => ?_⟩
    rw [hflag] at hidle
    cases hidle
  | idle _ ha hq hkept =>
    refine ⟨by rw [ha]; exact Nat.zero_le _, fun _ => ⟨ha, hq, ?_, fun last hlast => ?_⟩⟩
    · obtain ⟨result, hall, hresult⟩ := addAll_kept cfg hfrom
      rw [hall, store_eq (hresult.blocks_eq.trans hkept.blocks_eq.symm)]
    · have hne : s.delivered ≠ [] := by
        intro hempty
        rw [hempty] at hlast
        cases hlast
      rw [Option.mem_def, List.getLast?_eq_getElem?] at hlast
      have hnumber := hfrom.number hlast
      have hpos := List.length_pos_iff.mpr hne
      rw [hkept.blocks_eq, if_neg hne]
      refine List.filter_congr fun block _ => ?_
      rw [decide_eq_decide]
      omega

/-- Block 9 is stored. -/
def storedNine : Store := ⟨[⟨9, "0x9"⟩], by decide⟩

/-- Blocks 11 to 13 are delivered while block 10 is being inserted, and block 11 is skipped. -/
def overtaken : List Event :=
  [.delivered ⟨10, "0xa"⟩, .delivered ⟨11, "0xb"⟩, .delivered ⟨12, "0xc"⟩, .created 0 false,
    .delivered ⟨13, "0xd"⟩, .deleted 0 false, .created 0 false, .deleted 0 false,
    .created 0 false, .deleted 0 false]

/-- The store is the one that insertions one after the other leave. -/
theorem overtaken_store : ∃ s, (machine ⟨10, 1⟩).Run NoFailure (.init storedNine) overtaken s ∧
    s.store.blocks = [⟨12, "0xc"⟩, ⟨13, "0xd"⟩] ∧
    addAll 1 storedNine s.delivered = some s.store := by
  obtain ⟨s, hr, hidle, hdelivered, hblocks⟩ :
      ∃ s, (machine ⟨10, 1⟩).Run NoFailure (.init storedNine) overtaken s ∧
        s.mongoInsertInProcess = false ∧
        s.delivered = [⟨10, "0xa"⟩, ⟨11, "0xb"⟩, ⟨12, "0xc"⟩, ⟨13, "0xd"⟩] ∧
        s.store.blocks = [⟨12, "0xc"⟩, ⟨13, "0xd"⟩] := Machine.exists_run_of_exec (by decide)
  have hascends : Ascends storedNine s.delivered := by
    rw [hdelivered]
    exact ⟨10, by decide, by decide⟩
  exact ⟨s, hr, hblocks, ((drained_store hr hascends).2 hidle).2.2.1⟩

end ChainIndexer.Inserting
