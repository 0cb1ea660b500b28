import Mathlib.Data.List.Nodup

/-!
# The produced-blocks store

The collection holds at most one block for each number: the unique index makes a
second `create` fail. `add` creates a block and then deletes the ones above it
and the ones too far below it. `getStartBlock` walks down the stored blocks until
one agrees with the chain.
-/

namespace ChainIndexer.Producer

/-- What is stored of a produced block. -/
structure ProducedBlock where
  number : Nat
  hash : String
  deriving DecidableEq, Repr

/-- The collection, with its unique index on the number. -/
structure Store where
  blocks : List ProducedBlock
  unique : (blocks.map (·.number)).Nodup

namespace Store

/-- An empty collection. -/
def empty : Store := ⟨[], List.nodup_nil⟩

/-- The block with the greatest number. -/
def latest : List ProducedBlock → Option ProducedBlock
  | [] => none
  | block :: blocks => match latest blocks with
    | none => some block
    | some other => if other.number ≤ block.number then some block else some other

/-- `get`: an absent number, or zero, asks for the last block. -/
def get (store : Store) (blockNumber : Option Int) : Option ProducedBlock :=
  match blockNumber with
  | none | some 0 => latest store.blocks
  | some number => latest (store.blocks.filter fun block => (block.number : Int) = number)

/-- A block of this number is stored. -/
def Has (store : Store) (number : Nat) : Prop := ∃ block ∈ store.blocks, block.number = number

instance (store : Store) (number : Nat) : Decidable (store.Has number) :=
  inferInstanceAs (Decidable (∃ block ∈ store.blocks, block.number = number))

/-- `create`, which the unique index refuses for a stored number. -/
def create (store : Store) (block : ProducedBlock) : Option Store :=
  if h : store.Has block.number then none
  else some ⟨store.blocks ++ [block], by
    rw [List.map_append, List.map_singleton]
    refine List.Nodup.append store.unique (List.nodup_singleton _) ?_
    intro number hstored hnew
    obtain ⟨other, hother, rfl⟩ := List.mem_map.mp hstored
    exact h ⟨other, hother, List.mem_singleton.mp hnew⟩⟩

/-- The condition of `deleteMany`: a number below the depth or above the block. -/
def Deletes (maxReOrgDepth : Nat) (block other : ProducedBlock) : Prop :=
  other.number + maxReOrgDepth < block.number ∨ block.number < other.number

instance (maxReOrgDepth : Nat) (block other : ProducedBlock) :
    Decidable (Deletes maxReOrgDepth block other) := inferInstanceAs (Decidable (_ ∨ _))

/-- The `deleteMany` of `add`. -/
def deleteMany (store : Store) (maxReOrgDepth : Nat) (block : ProducedBlock) : Store where
  blocks := store.blocks.filter fun other => ¬ Deletes maxReOrgDepth block other
  unique := store.unique.sublist (List.filter_sublist.map _)

/-- The latest block is one of the blocks. -/
theorem latest_mem {blocks : List ProducedBlock} {block : ProducedBlock}
    (h : latest blocks = some block) : block ∈ blocks := by
  induction blocks generalizing block with
  | nil => cases h
  | cons first rest ih =>
    rw [latest] at h
    cases hl : latest rest with
    | none =>
      simp only [hl, Option.some.injEq] at h
      simp [h]
    | some other =>
      simp only [hl] at h
      split at h
      · cases h
        exact List.mem_cons_self
      · cases h
        exact List.mem_cons_of_mem _ (ih hl)

/-- A block that is found is stored. -/
theorem get_mem {store : Store} {blockNumber : Option Int} {block : ProducedBlock}
    (h : store.get blockNumber = some block) : block ∈ store.blocks := by
  unfold get at h
  split at h
  · exact latest_mem h
  · exact latest_mem h
  · exact (List.mem_filter.mp (latest_mem h)).1

/-- A created block is added to those stored. -/
theorem mem_create {store store' : Store} {block : ProducedBlock}
    (h : store.create block = some store') {other : ProducedBlock} :
    other ∈ store'.blocks ↔ other ∈ store.blocks ∨ other = block := by
  unfold create at h
  split at h
  · cases h
  · cases h
    simp

/-- Only a stored number makes `create` fail. -/
theorem create_eq_none_iff {store : Store} {block : ProducedBlock} :
    store.create block = none ↔ store.Has block.number := by
  unfold create
  split
  · simpa
  · simpa

/-- A deletion takes the blocks below the re-org depth and those above the block. -/
theorem mem_deleteMany {store : Store} {maxReOrgDepth : Nat} {block other : ProducedBlock} :
    other ∈ (store.deleteMany maxReOrgDepth block).blocks ↔
      other ∈ store.blocks ∧ ¬ Deletes maxReOrgDepth block other := by
  simp [deleteMany]

end Store

/-- The settings of the block producer. -/
structure Config where
  startBlock : Nat
  maxReOrgDepth : Nat

/-- `blockNumber || this.startBlock`. -/
def Config.orStart (cfg : Config) : Option Int → Int
  | none | some 0 => cfg.startBlock
  | some number => number

/-- The loop of `getStartBlock`, with the rounds that are left. The chain answers a request
for a number with the hash it has there, or the request fails. -/
def Config.walk (cfg : Config) (store : Store) (remote : Nat → Option String) :
    Nat → Option Int → Option Int
  | 0, blockNumber => some (cfg.orStart blockNumber)
  | rounds + 1, blockNumber => match store.get blockNumber with
    | none => some (cfg.orStart blockNumber)
    | some block => match remote block.number with
      | none => none
      | some hash =>
        if hash = block.hash then some (block.number + 1)
        else cfg.walk store remote rounds (some (block.number - 1))

/-- `getStartBlock`; it throws where the chain cannot be asked. -/
def Config.getStartBlock (cfg : Config) (store : Store) (remote : Nat → Option String) :
    Option Int :=
  cfg.walk store remote cfg.maxReOrgDepth ((store.get none).map fun block => (block.number : Int))

/-- With a start block within a bound, so is the block the walk begins at. -/
theorem Config.orStart_le {cfg : Config} {bound : Int} {blockNumber : Option Int}
    (hstart : cfg.startBlock ≤ bound) (h : ∀ number ∈ blockNumber, number ≤ bound) :
    cfg.orStart blockNumber ≤ bound := by
  unfold Config.orStart
  split
  · exact hstart
  · exact hstart
  · exact h _ rfl

/-- With every stored number below a bound the walk does not end above it. -/
theorem Config.walk_le {cfg : Config} {store : Store} {remote : Nat → Option String}
    {bound : Nat} (hstart : cfg.startBlock ≤ bound)
    (hstore : ∀ block ∈ store.blocks, block.number < bound) {rounds : Nat}
    {blockNumber : Option Int} (hnumber : ∀ number ∈ blockNumber, number ≤ bound) {start : Int}
    (h : cfg.walk store remote rounds blockNumber = some start) : start ≤ bound := by
  have hstart' : (cfg.startBlock : Int) ≤ bound := by omega
  induction rounds generalizing blockNumber with
  | zero =>
    obtain rfl := Option.some.inj h
    exact Config.orStart_le hstart' hnumber
  | succ rounds ih =>
    rw [Config.walk] at h
    split at h
    · obtain rfl := Option.some.inj h
      exact Config.orStart_le hstart' hnumber
    · rename_i block hblock
      have hlt := hstore block (Store.get_mem hblock)
      split at h
      · cases h
      · split at h
        · obtain rfl := Option.some.inj h
          omega
        · refine ih ?_ h
          intro number hn
          obtain rfl := Option.some.inj hn
          omega

/-- The next start block is at most any bound above the start block and the stored numbers. -/
theorem Config.getStartBlock_le {cfg : Config} {store : Store} {remote : Nat → Option String}
    {bound : Nat} (hstart : cfg.startBlock ≤ bound)
    (hstore : ∀ block ∈ store.blocks, block.number < bound) {start : Int}
    (h : cfg.getStartBlock store remote = some start) : start ≤ bound := by
  refine Config.walk_le hstart hstore ?_ h
  intro number hn
  obtain ⟨block, hblock, rfl⟩ := Option.map_eq_some_iff.mp hn
  have hlt := hstore block (Store.get_mem hblock)
  omega

end ChainIndexer.Producer
