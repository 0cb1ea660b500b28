import ChainIndexer.Producer.Store
import Mathlib.Data.Nat.Init

/-!
# The number to resume from

`getStartBlock` is meant to return the number after the last stored block that is
still on the chain. The walk to it goes wrong at two boundaries. Below the lowest
stored block it returns the number it was about to ask for, which may lie below the
start block; and it asks for number zero as if for no number, gets the last block and
goes round.
-/

namespace ChainIndexer.Producer

variable {cfg : Config} {store : Store} {remote : Nat → Option String} {last : Nat}

namespace Store

/-- The greatest stored number. -/
def IsLast (store : Store) (last : Nat) : Prop :=
  store.Has last ∧ ∀ block ∈ store.blocks, block.number ≤ last

/-- The number is stored with the hash that the chain has there. -/
def Matches (store : Store) (remote : Nat → Option String) (number : Nat) : Prop :=
  ∃ block ∈ store.blocks, block.number = number ∧ remote number = some block.hash

/-- The number is stored with another hash than the chain has there. -/
def Differs (store : Store) (remote : Nat → Option String) (number : Nat) : Prop :=
  ∃ block ∈ store.blocks, block.number = number ∧
    ∃ hash, remote number = some hash ∧ hash ≠ block.hash

/-- The number is among the first consecutive stored numbers, as many as the depth. -/
def Reaches (store : Store) (maxReOrgDepth last number : Nat) : Prop :=
  number ≤ last ∧ last < number + maxReOrgDepth ∧ ∀ k, number ≤ k → k ≤ last → store.Has k

/-- No two stored blocks have one number. -/
theorem unique_block {block other : ProducedBlock} (hb : block ∈ store.blocks)
    (ho : other ∈ store.blocks) (h : block.number = other.number) : block = other :=
  List.inj_on_of_nodup_map store.unique hb ho h

/-- A block that differs does not match. -/
theorem Differs.not_matches {number : Nat} (h : store.Differs remote number) :
    ¬ store.Matches remote number := by
  rintro ⟨other, ho, hnumber, hmatch⟩
  obtain ⟨block, hb, rfl, hash, hremote, hne⟩ := h
  obtain rfl := unique_block hb ho hnumber.symm
  exact hne (Option.some.inj (hremote.symm.trans hmatch))

/-- Where the chain has a block, a stored number matches or differs. -/
theorem Has.matches_or_differs {number : Nat} (h : store.Has number)
    (hremote : ∀ block ∈ store.blocks, (remote block.number).isSome) :
    store.Matches remote number ∨ store.Differs remote number := by
  obtain ⟨block, hb, rfl⟩ := h
  obtain ⟨hash, hhash⟩ := Option.isSome_iff_exists.mp (hremote block hb)
  by_cases heq : hash = block.hash
  · exact Or.inl ⟨block, hb, rfl, heq ▸ hhash⟩
  · exact Or.inr ⟨block, hb, rfl, hash, hhash, heq⟩

/-- It is stored. -/
theorem Differs.has {number : Nat} (h : store.Differs remote number) : store.Has number := by
  obtain ⟨block, hb, hnumber, _⟩ := h
  exact ⟨block, hb, hnumber⟩

/-- Nothing stored has a greater number than the latest block. -/
theorem latest_le {blocks : List ProducedBlock} {block other : ProducedBlock}
    (h : latest blocks = some block) (ho : other ∈ blocks) : other.number ≤ block.number := by
  induction blocks generalizing block other with
  | nil => cases h
  | cons first rest ih =>
    rw [latest] at h
    cases hl : latest rest with
    | none =>
      simp only [hl, Option.some.injEq] at h
      obtain rfl | hrest := List.mem_cons.mp ho
      · exact Nat.le_of_eq (congrArg ProducedBlock.number h)
      · cases rest with
        | nil => cases hrest
        | cons second rest =>
          rw [latest] at hl
          split at hl
          · cases hl
          · split at hl <;> cases hl
    | some found =>
      simp only [hl] at h
      have hfound : ∀ other ∈ rest, other.number ≤ found.number := fun other ho => ih hl ho
      split at h
      · rename_i hle
        cases h
        obtain rfl | hrest := List.mem_cons.mp ho
        · exact Nat.le_refl _
        · exact Nat.le_trans (hfound other hrest) hle
      · rename_i hgt
        cases h
        obtain rfl | hrest := List.mem_cons.mp ho
        · omega
        · exact hfound other hrest

private theorem latest_eq_none {blocks : List ProducedBlock} (h : latest blocks = none) :
    blocks = [] := by
  cases blocks with
  | nil => rfl
  | cons first rest =>
    rw [latest] at h
    split at h
    · cases h
    · split at h <;> cases h

/-- Where there are blocks, one of them is the last. -/
theorem exists_latest {blocks : List ProducedBlock} {block : ProducedBlock} (h : block ∈ blocks) :
    ∃ other, latest blocks = some other := by
  cases hl : latest blocks with
  | none =>
    rw [latest_eq_none hl] at h
    cases h
  | some other => exact ⟨other, rfl⟩

/-- The latest block has the greatest number. -/
theorem IsLast.exists_latest (h : store.IsLast last) :
    ∃ block ∈ store.blocks, latest store.blocks = some block ∧ block.number = last := by
  obtain ⟨⟨block, hb, hnumber⟩, hle⟩ := h
  obtain ⟨other, ho⟩ := Store.exists_latest hb
  have hother := latest_mem ho
  exact ⟨other, hother, ho, Nat.le_antisymm (hle other hother) (hnumber ▸ latest_le ho hb)⟩

/-- There is only one last number. -/
theorem IsLast.eq {other : Nat} (h : store.IsLast last) (k : store.IsLast other) :
    last = other := by
  obtain ⟨⟨block, hb, rfl⟩, hle⟩ := h
  obtain ⟨⟨block', hb', rfl⟩, hle'⟩ := k
  exact Nat.le_antisymm (hle' block hb) (hle block' hb')

/-- A store that is not empty has one. -/
theorem exists_isLast (h : store.blocks ≠ []) : ∃ last, store.IsLast last := by
  obtain ⟨first, hfirst⟩ := List.exists_mem_of_ne_nil _ h
  obtain ⟨block, hblock⟩ := Store.exists_latest hfirst
  exact ⟨block.number, ⟨block, latest_mem hblock, rfl⟩, fun other ho => latest_le hblock ho⟩

/-- A positive number is looked up as such. -/
theorem get_pos {number : Nat} (h : 0 < number) : store.get (some number) =
    latest (store.blocks.filter fun block => (block.number : Int) = number) := by
  unfold get
  split
  · rename_i hnone
    cases hnone
  · rename_i hzero
    obtain hzero : (number : Int) = 0 := Option.some.inj hzero
    omega
  · rename_i other _ hother
    obtain rfl := Option.some.inj hother
    rfl

/-- A stored block with a positive number is found by it. -/
theorem get_stored {block : ProducedBlock} (hb : block ∈ store.blocks) (h : 0 < block.number) :
    store.get (some block.number) = some block := by
  have hmem : block ∈ store.blocks.filter fun other => (other.number : Int) = block.number :=
    List.mem_filter.mpr ⟨hb, by simp⟩
  obtain ⟨other, ho⟩ := exists_latest hmem
  obtain ⟨hother, hnumber⟩ := List.mem_filter.mp (latest_mem ho)
  rw [get_pos h, ho, unique_block hother hb (Int.ofNat.inj (of_decide_eq_true hnumber))]

private theorem get_missing {number : Nat} (h : 0 < number) (hno : ¬ store.Has number) :
    store.get (some number) = none := by
  cases hget : store.get (some number) with
  | none => rfl
  | some block =>
    rw [get_pos h] at hget
    obtain ⟨hb, hnumber⟩ := List.mem_filter.mp (latest_mem hget)
    exact absurd ⟨block, hb, Int.ofNat.inj (of_decide_eq_true hnumber)⟩ hno

end Store

/-- The blocks that `getStartBlock` finds to differ from the chain, in the rounds left. -/
def Config.foundIn (cfg : Config) (store : Store) (remote : Nat → Option String) :
    Nat → Option Int → List ProducedBlock
  | 0, _ => []
  | rounds + 1, blockNumber => match store.get blockNumber with
    | none => []
    | some block => match remote block.number with
      | none => []
      | some hash =>
        if hash = block.hash then []
        else block :: cfg.foundIn store remote rounds (some (block.number - 1))

/-- The blocks that `getStartBlock` finds to differ from the chain. -/
def Config.found (cfg : Config) (store : Store) (remote : Nat → Option String) :
    List ProducedBlock :=
  cfg.foundIn store remote cfg.maxReOrgDepth
    ((store.get none).map fun block => (block.number : Int))

/-- A number from which nothing is skipped and no more than the re-organised blocks is
produced again. -/
structure ResumePoint (cfg : Config) (store : Store) (remote : Nat → Option String)
    (start : Int) : Prop where
  empty : store.blocks = [] → start = cfg.startBlock
  bounds : ∀ last, store.IsLast last → cfg.startBlock ≤ start ∧ start ≤ last + 1
  shallow : ∀ last, store.IsLast last → cfg.maxReOrgDepth = 0 → start = last
  /-- One more than the greatest number within reach that the chain still has. -/
  matching : ∀ last number, store.IsLast last → store.Reaches cfg.maxReOrgDepth last number →
    store.Matches remote number → (∀ k, number < k → k ≤ last → ¬ store.Matches remote k) →
    start = number + 1
  /-- Where there is none, nothing found to differ is left. -/
  differing : ∀ last, store.IsLast last → 0 < cfg.maxReOrgDepth →
    (∀ number, store.Reaches cfg.maxReOrgDepth last number → ¬ store.Matches remote number) →
    ∀ block ∈ cfg.found store remote, start ≤ block.number

/-- Every number above this one, up to the last, is stored with another hash. -/
def DiffersAbove (store : Store) (remote : Nat → Option String) (last number : Nat) : Prop :=
  ∀ k, number < k → k ≤ last → store.Differs remote k

/-- Where the walk does not leave the stored numbers at their lower end, and does not go round
or goes round to the right number. -/
def StaysInside (cfg : Config) (store : Store) (remote : Nat → Option String) : Prop :=
  ∀ last, store.IsLast last → 0 < cfg.maxReOrgDepth →
    (cfg.startBlock = 1 ∨ cfg.startBlock = 0 ∧ 0 < last ∨
      cfg.startBlock + cfg.maxReOrgDepth ≤ last ∨
      ∃ k, cfg.startBlock ≤ k ∧ k ≤ last ∧ ¬ store.Differs remote k) ∧
    (0 < last → last < cfg.maxReOrgDepth → DiffersAbove store remote last 0 →
      1 < last ∧ (cfg.maxReOrgDepth + 1) % last = 0 ∨
      cfg.maxReOrgDepth % last = 0 ∧ ¬ store.Matches remote 0)

/-- A number other than zero is taken as it is. -/
theorem Config.orStart_ne {number : Int} (h : number ≠ 0) : cfg.orStart (some number) = number := by
  unfold Config.orStart
  split
  · rename_i hnone
    cases hnone
  · rename_i hzero
    exact absurd (Option.some.inj hzero) h
  · rename_i other _ hother
    exact (Option.some.inj hother).symm

/-- One round over a stored block that differs. -/
theorem Config.walk_differs {blockNumber : Option Int} {block : ProducedBlock} {hash : String}
    (hget : store.get blockNumber = some block) (hremote : remote block.number = some hash)
    (hne : hash ≠ block.hash) (rounds : Nat) :
    cfg.walk store remote (rounds + 1) blockNumber =
      cfg.walk store remote rounds (some (block.number - 1)) := by
  rw [Config.walk, hget]
  dsimp only
  rw [hremote]
  exact if_neg hne

/-- The walk goes on below a block that differs. -/
theorem Config.foundIn_differs {blockNumber : Option Int} {block : ProducedBlock} {hash : String}
    (hget : store.get blockNumber = some block) (hremote : remote block.number = some hash)
    (hne : hash ≠ block.hash) (rounds : Nat) :
    cfg.foundIn store remote (rounds + 1) blockNumber =
      block :: cfg.foundIn store remote rounds (some (block.number - 1)) := by
  rw [Config.foundIn, hget]
  dsimp only
  rw [hremote]
  exact if_neg hne

/-- The walk ends above a block that the chain still has. -/
theorem Config.walk_matches {blockNumber : Option Int} {block : ProducedBlock}
    (hget : store.get blockNumber = some block) (hremote : remote block.number = some block.hash)
    (rounds : Nat) : cfg.walk store remote (rounds + 1) blockNumber = some (block.number + 1) := by
  rw [Config.walk, hget]
  dsimp only
  rw [hremote]
  exact if_pos rfl

/-- The walk ends at a number that is not stored. -/
theorem Config.walk_missing {blockNumber : Option Int} (hget : store.get blockNumber = none)
    (rounds : Nat) : cfg.walk store remote rounds blockNumber = some (cfg.orStart blockNumber) := by
  cases rounds with
  | zero => rfl
  | succ rounds => rw [Config.walk, hget]

/-- It ends where nothing is stored. -/
theorem Config.foundIn_missing {blockNumber : Option Int} (hget : store.get blockNumber = none)
    (rounds : Nat) : cfg.foundIn store remote rounds blockNumber = [] := by
  cases rounds with
  | zero => rfl
  | succ rounds => rw [Config.foundIn, hget]

/-- A stretch of differing numbers takes one round each, and all of them are found. -/
theorem Config.walk_descend (cfg : Config) {number top : Nat} (hle : number ≤ top)
    (h : DiffersAbove store remote top number) (rounds : Nat) :
    cfg.walk store remote (rounds + (top - number)) (some top) =
        cfg.walk store remote rounds (some number) ∧
      ∀ block, block ∈ cfg.foundIn store remote (rounds + (top - number)) (some top) ↔
        block ∈ store.blocks ∧ number < block.number ∧ block.number ≤ top ∨
        block ∈ cfg.foundIn store remote rounds (some number) := by
  induction top, hle using Nat.le_induction with
  | base =>
    rw [Nat.sub_self, Nat.add_zero]
    refine ⟨rfl, fun block => ⟨Or.inr, ?_⟩⟩
    rintro (⟨_, hlt, hle⟩ | hfound)
    · omega
    · exact hfound
  | succ top hle ih =>
    obtain ⟨ihwalk, ihfound⟩ := ih fun k hlt hk => h k hlt (Nat.le_succ_of_le hk)
    obtain ⟨block, hb, hnumber, hash, hremote, hne⟩ := h (top + 1) (by omega) (Nat.le_refl _)
    have hget : store.get (some ((top + 1 : Nat) : Int)) = some block := by
      rw [← hnumber]
      exact Store.get_stored hb (by omega)
    have hrounds : rounds + (top + 1 - number) = rounds + (top - number) + 1 := by omega
    have hnext : (block.number : Int) - 1 = top := by omega
    rw [hrounds, walk_differs hget (hnumber ▸ hremote) hne,
      foundIn_differs hget (hnumber ▸ hremote) hne, hnext]
    refine ⟨ihwalk, fun other => ?_⟩
    rw [List.mem_cons, ihfound]
    constructor
    · rintro (rfl | ⟨ho, hlt, hle'⟩ | hfound)
      · exact Or.inl ⟨hb, by omega, by omega⟩
      · exact Or.inl ⟨ho, hlt, by omega⟩
      · exact Or.inr hfound
    · rintro (⟨ho, hlt, hle'⟩ | hfound)
      · rcases Nat.lt_or_ge top other.number with htop | htop
        · exact Or.inl (Store.unique_block ho hb (by omega))
        · exact Or.inr (Or.inl ⟨ho, hlt, htop⟩)
      · exact Or.inr (Or.inr hfound)

/-- Asking for number zero is asking for the last number. -/
theorem Config.walk_wrap (hlast : store.IsLast last) (hpos : 0 < last) (rounds : Nat) :
    cfg.walk store remote (rounds + 1) (some 0) =
      cfg.walk store remote (rounds + 1) (some last) := by
  obtain ⟨block, hb, hlatest, rfl⟩ := hlast.exists_latest
  have hzero : store.get (some 0) = some block := hlatest
  rw [Config.walk, Config.walk, hzero, Store.get_stored hb hpos]

/-- With everything above zero differing, the walk goes round and round. -/
theorem Config.walk_cycle (hlast : store.IsLast last) (hpos : 0 < last)
    (h : DiffersAbove store remote last 0) (rounds : Nat) (hrounds : 0 < rounds) :
    cfg.walk store remote rounds (some last) =
      some ((if rounds % last = 0 then cfg.startBlock else last - rounds % last : Nat) : Int) := by
  induction rounds using Nat.strongRecOn with
  | ind rounds ih =>
    rcases Nat.lt_or_ge last rounds with hlt | hle
    · obtain ⟨more, hmore⟩ : ∃ more, rounds = more + 1 + last := ⟨rounds - last - 1, by omega⟩
      have hdescend := (cfg.walk_descend (Nat.zero_le last) h (more + 1)).1
      rw [Nat.sub_zero, ← hmore] at hdescend
      rw [hdescend]
      refine (walk_wrap hlast hpos more).trans ?_
      rw [ih (more + 1) (by omega) (Nat.succ_pos _), hmore, Nat.add_mod_right]
    · have hdescend := (cfg.walk_descend (Nat.sub_le last rounds)
        (fun k hlt hk => h k (by omega) hk) 0).1
      rw [Nat.sub_sub_self hle, Nat.zero_add] at hdescend
      rw [hdescend, Config.walk]
      rcases Nat.eq_or_lt_of_le hle with rfl | hlt
      · rw [Nat.sub_self, Nat.mod_self, if_pos rfl]
        rfl
      · rw [Nat.mod_eq_of_lt hlt, if_neg (by omega), orStart_ne (by omega)]

/-- Only positive numbers are found to differ, unless zero is the last one. -/
theorem Config.foundIn_pos (hlast : store.IsLast last) (hpos : 0 < last) (rounds : Nat)
    {blockNumber : Option Int} {block : ProducedBlock}
    (h : block ∈ cfg.foundIn store remote rounds blockNumber) : 0 < block.number := by
  induction rounds generalizing blockNumber with
  | zero => cases h
  | succ rounds ih =>
    rw [Config.foundIn] at h
    split at h
    · cases h
    · rename_i other hget
      have hother : 0 < other.number := by
        unfold Store.get at hget
        obtain ⟨latest, _, hlatest, hnumber⟩ := hlast.exists_latest
        split at hget
        · obtain rfl := Option.some.inj (hlatest.symm.trans hget)
          omega
        · obtain rfl := Option.some.inj (hlatest.symm.trans hget)
          omega
        · rename_i number hne
          have hother : (other.number : Int) = number :=
            of_decide_eq_true (List.mem_filter.mp (Store.latest_mem hget)).2
          have hzero : number ≠ 0 := hne
          omega
      split at h
      · cases h
      · split at h
        · cases h
        · obtain rfl | hrest := List.mem_cons.mp h
          · exact hother
          · exact ih hrest

/-- Where the stretch of differing numbers below the last one ends. -/
theorem Store.exists_bottom (store : Store) (remote : Nat → Option String) (last depth : Nat) :
    ∃ number ≤ last, DiffersAbove store remote last number ∧ last ≤ number + depth ∧
      (last = number + depth ∨ number = 0 ∨ ¬ store.Differs remote number) := by
  induction depth with
  | zero => exact ⟨last, Nat.le_refl _, fun k hlt hk => by omega, by omega, Or.inl rfl⟩
  | succ depth ih =>
    obtain ⟨number, hle, habove, hdepth, hend⟩ := ih
    by_cases hstop : number = 0 ∨ ¬ store.Differs remote number
    · exact ⟨number, hle, habove, by omega, Or.inr hstop⟩
    · rw [not_or, not_not] at hstop
      obtain ⟨hpos, hdiffers⟩ := hstop
      have hlast : last = number + depth := by
        rcases hend with hlast | hzero | hnot
        · exact hlast
        · exact absurd hzero hpos
        · exact absurd hdiffers hnot
      refine ⟨number - 1, by omega, fun k hlt hk => ?_, by omega, Or.inl (by omega)⟩
      rcases Nat.lt_or_ge number k with hk' | hk'
      · exact habove k hk' hk
      · obtain rfl : k = number := by omega
        exact hdiffers

/-- The ways in which a walk over a store with a last block ends. -/
inductive Walked (cfg : Config) (store : Store) (remote : Nat → Option String) (last : Nat) :
    Int → Prop
  /-- Above the greatest number that the chain still has. -/
  | matching {number : Nat} : store.Reaches cfg.maxReOrgDepth last number →
    store.Matches remote number → DiffersAbove store remote last number →
    (0 < number ∨ last = 0) → Walked cfg store remote last (number + 1)
  /-- Below the lowest number it has looked at. -/
  | below {number : Nat} : 0 < number → number < last → DiffersAbove store remote last number →
    (last = number + cfg.maxReOrgDepth ∨ last < number + cfg.maxReOrgDepth ∧ ¬ store.Has number) →
    (∀ block ∈ cfg.found store remote, number < block.number) →
    Walked cfg store remote last number
  /-- After asking for everything above zero, and perhaps for zero. -/
  | round : 0 < last → last ≤ cfg.maxReOrgDepth → DiffersAbove store remote last 0 →
    Walked cfg store remote last ((if cfg.maxReOrgDepth % last = 0 then cfg.startBlock
      else last - cfg.maxReOrgDepth % last : Nat) : Int)
  /-- Below block zero. -/
  | negative : last = 0 → store.Differs remote 0 → Walked cfg store remote last (-1)

/-- The walk begins at the last stored block. -/
theorem Config.getStartBlock_eq (cfg : Config) (remote : Nat → Option String)
    (hlast : store.IsLast last) :
    cfg.getStartBlock store remote = cfg.walk store remote cfg.maxReOrgDepth (some last) ∧
      cfg.found store remote = cfg.foundIn store remote cfg.maxReOrgDepth (some last) := by
  obtain ⟨block, _, hlatest, rfl⟩ := hlast.exists_latest
  have hget : store.get none = some block := hlatest
  unfold Config.getStartBlock Config.found
  rw [hget]
  exact ⟨rfl, rfl⟩

/-- No block has a negative number. -/
theorem Store.get_negative (store : Store) : store.get (some (-1)) = none := by
  cases hget : store.get (some (-1)) with
  | none => rfl
  | some block =>
    have hnumber : (block.number : Int) = -1 :=
      of_decide_eq_true (List.mem_filter.mp (Store.latest_mem hget)).2
    omega

/-- A last block zero is compared, and nothing below it. -/
theorem Config.walked_zero (hremote : ∀ block ∈ store.blocks, (remote block.number).isSome)
    (hlast : store.IsLast 0) (hdepth : 0 < cfg.maxReOrgDepth) :
    ∃ start, cfg.walk store remote cfg.maxReOrgDepth (some (0 : Nat)) = some start ∧
      Walked cfg store remote 0 start := by
  obtain ⟨rounds, hrounds⟩ : ∃ rounds, cfg.maxReOrgDepth = rounds + 1 :=
    ⟨cfg.maxReOrgDepth - 1, by omega⟩
  obtain ⟨block, hb, hlatest, hnumber⟩ := hlast.exists_latest
  have hget : store.get (some ((0 : Nat) : Int)) = some block := hlatest
  rw [hrounds]
  rcases hlast.1.matches_or_differs hremote with hmatch | hdiffers
  · obtain ⟨other, ho, hother, hsame⟩ := hmatch
    obtain rfl := Store.unique_block ho hb (hother.trans hnumber.symm)
    refine ⟨_, Config.walk_matches hget (hnumber ▸ hsame) rounds, ?_⟩
    rw [hnumber]
    have hreach : store.Reaches cfg.maxReOrgDepth 0 0 := by
      refine ⟨Nat.le_refl _, by omega, fun k _ hk => ?_⟩
      rw [Nat.le_zero.mp hk]
      exact hlast.1
    exact .matching hreach ⟨_, ho, hother, hsame⟩ (fun k hlt hk => by omega) (Or.inr rfl)
  · obtain ⟨other, ho, hother, hash, hhash, hne⟩ := id hdiffers
    obtain rfl := Store.unique_block ho hb (hother.trans hnumber.symm)
    refine ⟨-1, ?_, .negative rfl hdiffers⟩
    have hnext : (other.number : Int) - 1 = -1 := by omega
    rw [Config.walk_differs hget (hnumber ▸ hhash) hne, hnext,
      Config.walk_missing store.get_negative, Config.orStart_ne (by omega)]

/-- The walk goes down to the bottom of the differing numbers, and no further than one below. -/
theorem Config.walked_pos {number : Nat}
    (hremote : ∀ block ∈ store.blocks, (remote block.number).isSome) (hlast : store.IsLast last)
    (hdepth : 0 < cfg.maxReOrgDepth) (hpos : 0 < number) (hle : number ≤ last)
    (habove : DiffersAbove store remote last number) (hreach : last ≤ number + cfg.maxReOrgDepth)
    (hend : last = number + cfg.maxReOrgDepth ∨ ¬ store.Differs remote number) :
    ∃ start, cfg.walk store remote cfg.maxReOrgDepth (some last) = some start ∧
      Walked cfg store remote last start := by
  obtain ⟨rounds, hrounds⟩ : ∃ rounds, cfg.maxReOrgDepth = rounds + (last - number) :=
    ⟨cfg.maxReOrgDepth - (last - number), by omega⟩
  obtain ⟨hwalk, hfoundIn⟩ := cfg.walk_descend hle habove rounds
  rw [← hrounds] at hwalk hfoundIn
  have hbelow : cfg.foundIn store remote rounds (some number) = [] →
      ∀ block ∈ cfg.found store remote, number < block.number := by
    intro hnil block hblock
    rw [(cfg.getStartBlock_eq remote hlast).2, hfoundIn, hnil] at hblock
    rcases hblock with ⟨_, hlt, _⟩ | hrest
    · exact hlt
    · cases hrest
  have hnumber : cfg.orStart (some (number : Int)) = number := Config.orStart_ne (by omega)
  rw [hwalk]
  rcases Nat.eq_zero_or_pos rounds with rfl | hmore
  · exact ⟨number, congrArg some hnumber,
      .below hpos (by omega) habove (Or.inl (by omega)) (hbelow rfl)⟩
  · have hnot : ¬ store.Differs remote number := hend.resolve_left (by omega)
    by_cases hstored : store.Has number
    · obtain ⟨block, hb, rfl, hsame⟩ := (hstored.matches_or_differs hremote).resolve_right hnot
      obtain ⟨rest, rfl⟩ : ∃ rest, rounds = rest + 1 := ⟨rounds - 1, by omega⟩
      refine ⟨_, Config.walk_matches (Store.get_stored hb hpos) hsame rest, ?_⟩
      have hreaches : store.Reaches cfg.maxReOrgDepth last block.number := by
        refine ⟨hle, by omega, fun k hk hk' => ?_⟩
        rcases Nat.eq_or_lt_of_le hk with rfl | hlt
        · exact hstored
        · exact (habove k hlt hk').has
      exact .matching hreaches ⟨block, hb, rfl, hsame⟩ habove (Or.inl hpos)
    · have hmissing := Store.get_missing hpos hstored
      have hne : number ≠ last := by
        rintro rfl
        exact hstored hlast.1
      refine ⟨number, ?_, .below hpos (by omega) habove (Or.inr ⟨by omega, hstored⟩)
        (hbelow (Config.foundIn_missing hmissing _))⟩
      rw [Config.walk_missing hmissing, hnumber]

/-- With a depth and a chain that has every stored number, the walk ends in one of these ways. -/
theorem Config.getStartBlock_walked
    (hremote : ∀ block ∈ store.blocks, (remote block.number).isSome) (hlast : store.IsLast last)
    (hdepth : 0 < cfg.maxReOrgDepth) :
    ∃ start, cfg.getStartBlock store remote = some start ∧
      Walked cfg store remote last start := by
  obtain ⟨number, hle, habove, hreach, hend⟩ :=
    store.exists_bottom remote last cfg.maxReOrgDepth
  rw [(cfg.getStartBlock_eq remote hlast).1]
  rcases Nat.eq_zero_or_pos number with rfl | hpos
  · rcases Nat.eq_zero_or_pos last with rfl | hlastpos
    · exact Config.walked_zero hremote hlast hdepth
    · exact ⟨_, Config.walk_cycle hlast hlastpos habove _ hdepth,
        .round hlastpos (by omega) habove⟩
  · refine Config.walked_pos hremote hlast hdepth hpos hle habove hreach ?_
    exact hend.imp_right fun h => h.resolve_left (by omega)

/-- None of the blocks above the number matches. -/
theorem DiffersAbove.not_matches {number k : Nat} (h : DiffersAbove store remote last number)
    (hlt : number < k) (hk : k ≤ last) : ¬ store.Matches remote k :=
  (h k hlt hk).not_matches

/-- What a resume point is once the last block is known. -/
theorem resumePoint_iff_last (hlast : store.IsLast last) (hdepth : 0 < cfg.maxReOrgDepth)
    {start : Int} : ResumePoint cfg store remote start ↔
      (cfg.startBlock ≤ start ∧ start ≤ last + 1) ∧
      (∀ number, store.Reaches cfg.maxReOrgDepth last number → store.Matches remote number →
        (∀ k, number < k → k ≤ last → ¬ store.Matches remote k) → start = number + 1) ∧
      ((∀ number, store.Reaches cfg.maxReOrgDepth last number → ¬ store.Matches remote number) →
        ∀ block ∈ cfg.found store remote, start ≤ block.number) := by
  constructor
  · intro h
    exact ⟨h.bounds last hlast, fun number => h.matching last number hlast,
      h.differing last hlast hdepth⟩
  · rintro ⟨hbounds, hmatching, hdiffering⟩
    obtain ⟨block, hb, _⟩ := hlast.1
    constructor
    · intro hempty
      rw [hempty] at hb
      cases hb
    · intro other hother
      obtain rfl := hlast.eq hother
      exact hbounds
    · intro _ _ hzero
      omega
    · intro other number hother
      obtain rfl := hlast.eq hother
      exact hmatching number
    · intro other hother _
      obtain rfl := hlast.eq hother
      exact hdiffering

theorem staysInside_iff_last (hlast : store.IsLast last) (hdepth : 0 < cfg.maxReOrgDepth) :
    StaysInside cfg store remote ↔
      (cfg.startBlock = 1 ∨ cfg.startBlock = 0 ∧ 0 < last ∨
        cfg.startBlock + cfg.maxReOrgDepth ≤ last ∨
        ∃ k, cfg.startBlock ≤ k ∧ k ≤ last ∧ ¬ store.Differs remote k) ∧
      (0 < last → last < cfg.maxReOrgDepth → DiffersAbove store remote last 0 →
        1 < last ∧ (cfg.maxReOrgDepth + 1) % last = 0 ∨
        cfg.maxReOrgDepth % last = 0 ∧ ¬ store.Matches remote 0) := by
  constructor
  · intro h
    exact h last hlast hdepth
  · intro h other hother _
    obtain rfl := hlast.eq hother
    exact h

/-- The greatest number that the chain still has is a good start, and nothing goes wrong. -/
theorem matching_iff {number : Nat} (hlast : store.IsLast last) (hdepth : 0 < cfg.maxReOrgDepth)
    (hstart : ∀ block ∈ store.blocks, cfg.startBlock ≤ block.number)
    (hreach : store.Reaches cfg.maxReOrgDepth last number) (hmatch : store.Matches remote number)
    (habove : DiffersAbove store remote last number) (hpos : 0 < number ∨ last = 0) :
    ResumePoint cfg store remote (number + 1) ↔ StaysInside cfg store remote := by
  rw [resumePoint_iff_last hlast hdepth, staysInside_iff_last hlast hdepth]
  have hnot : ¬ store.Differs remote number := fun hdiffers => hdiffers.not_matches hmatch
  obtain ⟨block, hb, hnumber, _⟩ := id hmatch
  have hle : cfg.startBlock ≤ number := hnumber ▸ hstart block hb
  have hreach' := hreach.1
  refine iff_of_true ⟨⟨by omega, by omega⟩, ?_, ?_⟩ ⟨?_, ?_⟩
  · intro other hother hmatch' habove'
    rcases Nat.lt_trichotomy number other with hlt | rfl | hlt
    · exact absurd hmatch' (habove.not_matches hlt hother.1)
    · rfl
    · exact absurd hmatch (habove' number hlt hreach')
  · intro hnone
    exact absurd hmatch (hnone number hreach)
  · exact Or.inr (Or.inr (Or.inr ⟨number, hle, hreach', hnot⟩))
  · intro hlastpos _ hall
    exact absurd (hall number (by omega) hreach') hnot

/-- Below the lowest number looked at, all depends on the start block. -/
theorem below_iff {number : Nat} (hlast : store.IsLast last) (hdepth : 0 < cfg.maxReOrgDepth)
    (hpos : 0 < number) (hlt : number < last) (habove : DiffersAbove store remote last number)
    (hend : last = number + cfg.maxReOrgDepth ∨
      last < number + cfg.maxReOrgDepth ∧ ¬ store.Has number)
    (hfound : ∀ block ∈ cfg.found store remote, number < block.number) :
    ResumePoint cfg store remote number ↔ StaysInside cfg store remote := by
  rw [resumePoint_iff_last hlast hdepth, staysInside_iff_last hlast hdepth]
  have hnone : ∀ other, store.Reaches cfg.maxReOrgDepth last other →
      ¬ store.Matches remote other := by
    intro other hother
    rcases Nat.lt_or_ge number other with hlt' | hle
    · exact habove.not_matches hlt' hother.1
    · rcases hend with heq | ⟨_, hmissing⟩
      · have := hother.2.1
        omega
      · exact absurd (hother.2.2 number hle (by omega)) hmissing
  have hnot : last = number + cfg.maxReOrgDepth ∨ ¬ store.Differs remote number :=
    hend.imp_right fun h hdiffers => h.2 hdiffers.has
  constructor
  · rintro ⟨⟨hle, _⟩, _⟩
    refine ⟨Or.inr (Or.inr ?_), fun hlastpos hshort hall => ?_⟩
    · rcases hnot with heq | hnot
      · exact Or.inl (by omega)
      · exact Or.inr ⟨number, by omega, by omega, hnot⟩
    · rcases hnot with heq | hnot
      · omega
      · exact absurd (hall number hpos (by omega)) hnot
  · rintro ⟨hinside, _⟩
    have hle : cfg.startBlock ≤ number := by
      rcases hinside with hone | ⟨hzero, _⟩ | hdeep | ⟨k, hstart, hk, hdiffers⟩
      · omega
      · omega
      · omega
      · have hk' : ¬ number < k := fun hlt' => hdiffers (habove k hlt' hk)
        omega
    refine ⟨⟨by omega, by omega⟩, fun other hother hmatch => absurd hmatch (hnone other hother),
      fun _ block hblock => ?_⟩
    have := hfound block hblock
    omega

theorem mod_succ_eq_zero_iff {depth last : Nat} (h : 0 < last) :
    (depth + 1) % last = 0 ↔ last - depth % last = 1 := by
  have hlt := Nat.mod_lt depth h
  have hmod : (depth + 1) % last = (depth % last + 1) % last := by rw [Nat.mod_add_mod]
  rw [hmod]
  rcases Nat.eq_or_lt_of_le (Nat.succ_le_of_lt hlt) with heq | hlt'
  · rw [Nat.succ_eq_add_one] at heq
    rw [heq, Nat.mod_self]
    omega
  · rw [Nat.mod_eq_of_lt hlt']
    omega

/-- Above zero no number within reach is the chain's. -/
theorem DiffersAbove.eq_zero {number : Nat} (h : DiffersAbove store remote last 0)
    (hle : number ≤ last) (hmatch : store.Matches remote number) : number = 0 := by
  by_contra hne
  exact h.not_matches (by omega) hle hmatch

/-- Where block zero is kept and within reach, the round trip has to end at number one. -/
theorem round_kept_iff (hlast : store.IsLast last) (hdepth : 0 < cfg.maxReOrgDepth)
    (hstart : ∀ block ∈ store.blocks, cfg.startBlock ≤ block.number) (hpos : 0 < last)
    (habove : DiffersAbove store remote last 0) (hshort : last < cfg.maxReOrgDepth)
    (hmatch : store.Matches remote 0) :
    ResumePoint cfg store remote ((if cfg.maxReOrgDepth % last = 0 then cfg.startBlock
      else last - cfg.maxReOrgDepth % last : Nat) : Int) ↔ StaysInside cfg store remote := by
  rw [resumePoint_iff_last hlast hdepth, staysInside_iff_last hlast hdepth]
  have hmod := Nat.mod_lt cfg.maxReOrgDepth hpos
  obtain ⟨zero, hz, hnumber, _⟩ := id hmatch
  have hstartzero : cfg.startBlock = 0 := Nat.le_zero.mp (hnumber ▸ hstart zero hz)
  have hreach : store.Reaches cfg.maxReOrgDepth last 0 := by
    refine ⟨by omega, by omega, fun k _ hk => ?_⟩
    rcases Nat.eq_zero_or_pos k with rfl | hkpos
    · exact ⟨zero, hz, hnumber⟩
    · exact (habove k hkpos hk).has
  constructor
  · rintro ⟨_, hmatching, _⟩
    have hone := hmatching 0 hreach hmatch fun k hkpos hk => habove.not_matches hkpos hk
    refine ⟨Or.inr (Or.inl ⟨hstartzero, hpos⟩), fun _ _ _ => Or.inl ?_⟩
    rw [mod_succ_eq_zero_iff hpos]
    split at hone
    · omega
    · omega
  · rintro ⟨_, hround⟩
    obtain ⟨hlt, hmod'⟩ := (hround hpos hshort habove).resolve_right fun h => h.2 hmatch
    rw [mod_succ_eq_zero_iff hpos] at hmod'
    rw [if_neg (by omega), hmod']
    refine ⟨⟨by omega, by omega⟩, fun other hother hmatch' _ => ?_, fun hnone => ?_⟩
    · rw [habove.eq_zero hother.1 hmatch']
      rfl
    · exact absurd hmatch (hnone 0 hreach)

/-- Where it is not, the round trip has to end at number one or below. -/
theorem round_missed_iff (hlast : store.IsLast last) (hdepth : 0 < cfg.maxReOrgDepth)
    (hstart : ∀ block ∈ store.blocks, cfg.startBlock ≤ block.number) (hpos : 0 < last)
    (hle : last ≤ cfg.maxReOrgDepth) (habove : DiffersAbove store remote last 0)
    (hmissed : ¬ (last < cfg.maxReOrgDepth ∧ store.Matches remote 0)) :
    ResumePoint cfg store remote ((if cfg.maxReOrgDepth % last = 0 then cfg.startBlock
      else last - cfg.maxReOrgDepth % last : Nat) : Int) ↔ StaysInside cfg store remote := by
  rw [resumePoint_iff_last hlast hdepth, staysInside_iff_last hlast hdepth]
  have hmod := Nat.mod_lt cfg.maxReOrgDepth hpos
  obtain ⟨one, hb, hnumber, _⟩ := habove 1 (by omega) hpos
  have hstartle : cfg.startBlock ≤ 1 := hnumber ▸ hstart one hb
  have hnone : ∀ other, store.Reaches cfg.maxReOrgDepth last other →
      ¬ store.Matches remote other := by
    intro other hother hmatch
    obtain rfl := habove.eq_zero hother.1 hmatch
    have hshort := hother.2.1
    exact hmissed ⟨by omega, hmatch⟩
  constructor
  · rintro ⟨_, _, hdiffering⟩
    have hfound : one ∈ cfg.found store remote := by
      have hdescend := (cfg.walk_descend (Nat.zero_le last) habove
        (cfg.maxReOrgDepth - last)).2 one
      rw [Nat.sub_zero, Nat.sub_add_cancel hle] at hdescend
      rw [(cfg.getStartBlock_eq remote hlast).2, hdescend]
      exact Or.inl ⟨hb, by omega, by omega⟩
    have hone := hdiffering hnone one hfound
    refine ⟨by omega, fun _ hshort _ => ?_⟩
    rw [mod_succ_eq_zero_iff hpos]
    by_cases hmod' : cfg.maxReOrgDepth % last = 0
    · exact Or.inr ⟨hmod', fun hmatch => hmissed ⟨hshort, hmatch⟩⟩
    · rw [if_neg hmod'] at hone
      exact Or.inl (by omega)
  · rintro ⟨_, hround⟩
    have hle' : (if cfg.maxReOrgDepth % last = 0 then cfg.startBlock
        else last - cfg.maxReOrgDepth % last) ≤ 1 := by
      rcases Nat.eq_or_lt_of_le hle with heq | hshort
      · rw [← heq, Nat.mod_self, if_pos rfl]
        exact hstartle
      · rcases hround hpos hshort habove with ⟨_, hmod'⟩ | ⟨hmod', _⟩
        · rw [mod_succ_eq_zero_iff hpos] at hmod'
          split
          · omega
          · omega
        · rw [if_pos hmod']
          exact hstartle
    refine ⟨?_, fun other hother hmatch => absurd hmatch (hnone other hother),
      fun _ block hblock => ?_⟩
    · constructor
      · split
        · omega
        · omega
      · omega
    · rw [(cfg.getStartBlock_eq remote hlast).2] at hblock
      have hblockpos := Config.foundIn_pos hlast hpos _ hblock
      omega

/-- A walk that has looked at everything above zero ends well only by coincidence. -/
theorem round_iff (hlast : store.IsLast last) (hdepth : 0 < cfg.maxReOrgDepth)
    (hstart : ∀ block ∈ store.blocks, cfg.startBlock ≤ block.number) (hpos : 0 < last)
    (hle : last ≤ cfg.maxReOrgDepth) (habove : DiffersAbove store remote last 0) :
    ResumePoint cfg store remote ((if cfg.maxReOrgDepth % last = 0 then cfg.startBlock
      else last - cfg.maxReOrgDepth % last : Nat) : Int) ↔ StaysInside cfg store remote := by
  by_cases hkept : last < cfg.maxReOrgDepth ∧ store.Matches remote 0
  · exact round_kept_iff hlast hdepth hstart hpos habove hkept.1 hkept.2
  · exact round_missed_iff hlast hdepth hstart hpos hle habove hkept

/-- The walk never ends well below block zero. -/
theorem negative_iff (hlast : store.IsLast last) (hdepth : 0 < cfg.maxReOrgDepth)
    (hstart : ∀ block ∈ store.blocks, cfg.startBlock ≤ block.number) (hzero : last = 0)
    (hdiffers : store.Differs remote 0) :
    ResumePoint cfg store remote (-1) ↔ StaysInside cfg store remote := by
  subst hzero
  rw [resumePoint_iff_last hlast hdepth, staysInside_iff_last hlast hdepth]
  obtain ⟨block, hb, hnumber⟩ := hlast.1
  have hle : cfg.startBlock = 0 := Nat.le_zero.mp (hnumber ▸ hstart block hb)
  refine iff_of_false (fun ⟨⟨hbound, _⟩, _⟩ => by omega) ?_
  rintro ⟨hone | ⟨_, hpos⟩ | hdeep | ⟨k, _, hk, hnot⟩, _⟩
  · omega
  · omega
  · omega
  · obtain rfl := Nat.le_zero.mp hk
    exact hnot hdiffers

/-- Without a depth the last number is produced again. -/
theorem shallow_resumePoint (hlast : store.IsLast last) (hdepth : cfg.maxReOrgDepth = 0)
    (hstart : ∀ block ∈ store.blocks, cfg.startBlock ≤ block.number) :
    ResumePoint cfg store remote (cfg.orStart (some last)) := by
  obtain ⟨block, hb, hnumber⟩ := hlast.1
  have hle : cfg.startBlock ≤ last := hnumber ▸ hstart block hb
  have heq : cfg.orStart (some (last : Int)) = last := by
    rcases Nat.eq_zero_or_pos last with rfl | hpos
    · exact congrArg Nat.cast (Nat.le_zero.mp hle)
    · exact Config.orStart_ne (by omega)
  rw [heq]
  constructor
  · intro hempty
    rw [hempty] at hb
    cases hb
  · intro other hother
    obtain rfl := hlast.eq hother
    omega
  · intro other hother _
    rw [hlast.eq hother]
  · rintro other number _ ⟨hle', hlt, _⟩
    omega
  · intro _ _ hpos
    omega

/-- Over a store not below the start block, and a chain that has every stored number,
`getStartBlock` returns a resume point exactly where its walk stays inside the store. -/
theorem resume_point_iff (hstart : ∀ block ∈ store.blocks, cfg.startBlock ≤ block.number)
    (hremote : ∀ block ∈ store.blocks, (remote block.number).isSome) :
    (∃ start, cfg.getStartBlock store remote = some start ∧ ResumePoint cfg store remote start) ↔
      StaysInside cfg store remote := by
  have hsome : ∀ start, cfg.getStartBlock store remote = some start →
      ((∃ start, cfg.getStartBlock store remote = some start ∧
        ResumePoint cfg store remote start) ↔ ResumePoint cfg store remote start) := by
    intro start hwalk
    refine ⟨?_, fun h => ⟨start, hwalk, h⟩⟩
    rintro ⟨other, hother, h⟩
    exact Option.some.inj (hother.symm.trans hwalk) ▸ h
  by_cases hempty : store.blocks = []
  · have hnone : store.get none = none := congrArg Store.latest hempty
    have hnolast : ∀ last, ¬ store.IsLast last := by
      rintro last ⟨⟨block, hb, _⟩, _⟩
      rw [hempty] at hb
      cases hb
    have hwalk : cfg.getStartBlock store remote = some (cfg.startBlock : Int) := by
      unfold Config.getStartBlock
      rw [hnone]
      exact Config.walk_missing hnone _
    rw [hsome _ hwalk]
    refine iff_of_true ⟨fun _ => rfl, ?_, ?_, ?_, ?_⟩ fun last hlast => absurd hlast (hnolast last)
    · exact fun last hlast => absurd hlast (hnolast last)
    · exact fun last hlast => absurd hlast (hnolast last)
    · exact fun last _ hlast => absurd hlast (hnolast last)
    · exact fun last hlast => absurd hlast (hnolast last)
  · obtain ⟨last, hlast⟩ := Store.exists_isLast hempty
    rcases Nat.eq_zero_or_pos cfg.maxReOrgDepth with hdepth | hdepth
    · have hwalk := (cfg.getStartBlock_eq remote hlast).1
      rw [hdepth] at hwalk
      rw [hsome _ hwalk]
      refine iff_of_true (shallow_resumePoint hlast hdepth hstart) fun _ _ hpos => ?_
      omega
    · obtain ⟨start, hwalk, hwalked⟩ := Config.getStartBlock_walked hremote hlast hdepth
      rw [hsome start hwalk]
      cases hwalked with
      | matching hreach hmatch habove hpos =>
        exact matching_iff hlast hdepth hstart hreach hmatch habove hpos
      | below hpos hlt habove hend hfound =>
        exact below_iff hlast hdepth hpos hlt habove hend hfound
      | round hpos hle habove => exact round_iff hlast hdepth hstart hpos hle habove
      | negative hzero hdiffers => exact negative_iff hlast hdepth hstart hzero hdiffers

/-- Only the start block is stored. -/
def onlyTen : Store := ⟨[⟨10, "0xa"⟩], by decide⟩

/-- The first two blocks of a chain. -/
def zeroAndOne : Store := ⟨[⟨0, "0xa"⟩, ⟨1, "0xb"⟩], by decide⟩

/-- A chain that has kept a block and replaced everything above it. -/
def replacedAbove (kept : Nat) (number : Nat) : Option String :=
  some (if number ≤ kept then "0xa" else "0xc")

/-- Once the start block is replaced, the number below it is returned; and where only block zero
is kept, it is never asked for. -/
theorem start_block_replaced :
    (⟨10, 2⟩ : Config).getStartBlock onlyTen (replacedAbove 9) = some 9 ∧
      ¬ ResumePoint ⟨10, 2⟩ onlyTen (replacedAbove 9) 9 ∧
    (⟨0, 2⟩ : Config).getStartBlock zeroAndOne (replacedAbove 0) = some 0 ∧
      ¬ ResumePoint ⟨0, 2⟩ zeroAndOne (replacedAbove 0) 0 := by
  refine ⟨by decide, fun h => ?_, by decide, fun h => ?_⟩
  · have hlast : onlyTen.IsLast 10 := ⟨by decide, by decide⟩
    have hbound := (h.bounds 10 hlast).1
    exact absurd hbound (by decide)
  · have hlast : zeroAndOne.IsLast 1 := ⟨by decide, by decide⟩
    have hreach : zeroAndOne.Reaches 2 1 0 := by
      refine ⟨by decide, by decide, fun k _ hk => ?_⟩
      obtain rfl | rfl : k = 0 ∨ k = 1 := by omega
      · decide
      · decide
    have hmatch : zeroAndOne.Matches (replacedAbove 0) 0 :=
      ⟨⟨0, "0xa"⟩, by decide, rfl, by decide⟩
    have hdiffers : zeroAndOne.Differs (replacedAbove 0) 1 :=
      ⟨⟨1, "0xb"⟩, by decide, rfl, "0xc", by decide, by decide⟩
    have hstart := h.matching 1 0 hlast hreach hmatch fun k hlt hk => by
      obtain rfl : k = 1 := by omega
      exact hdiffers.not_matches
    exact absurd hstart (by decide)

/-- Blocks 10 and 11, of which the chain has replaced block 11. -/
def tenAndEleven : Store := ⟨[⟨10, "0xa"⟩, ⟨11, "0xb"⟩], by decide⟩

/-- The walk finds the resume point when only the last block was replaced. -/
theorem last_block_replaced :
    ∃ start, (⟨10, 2⟩ : Config).getStartBlock tenAndEleven (replacedAbove 10) = some start ∧
      ResumePoint ⟨10, 2⟩ tenAndEleven (replacedAbove 10) start := by
  refine (resume_point_iff (by decide) (by decide)).mpr fun last hlast _ => ?_
  obtain rfl : last = 11 := hlast.eq ⟨by decide, by decide⟩
  refine ⟨Or.inr (Or.inr (Or.inr ⟨10, by decide, by decide, ?_⟩)), fun _ hdeep => ?_⟩
  · rintro ⟨block, hb, hnumber, hash, hremote, hne⟩
    obtain rfl : block = ⟨10, "0xa"⟩ :=
      tenAndEleven.unique_block hb (by decide) hnumber
    exact hne (Option.some.inj (hremote.symm.trans (by decide)))
  · exact absurd hdeep (by decide)

end ChainIndexer.Producer
