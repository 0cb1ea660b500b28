import ChainIndexer.Producer.Resume
import ChainIndexer.Topic.State

/-!
# Where the next process starts

A stored block above the last block of the topic is left over from before a re-org. As long as the
chain does not take such blocks back, `getStartBlock` walks past all of them, and the number that it
returns is at most one above that last block.
-/

namespace ChainIndexer.Topic

open Producer (ProducedBlock Store Config DiffersAbove)

variable {cfg : Config} {store : Store} {remote : Nat → Option String} {last top number : Nat}
  {replaced : List ProducedBlock}

/-- What is above the number is known to be replaced, has no holes and is not more than the depth
above it. -/
def Stale (cfg : Config) (replaced : List ProducedBlock) (store : Store) (top : Nat) : Prop :=
  ∀ block ∈ store.blocks, top < block.number → block.number ≤ top + cfg.maxReOrgDepth ∧
    ∀ k, top < k → k ≤ block.number → ∃ other ∈ store.blocks, other.number = k ∧ other ∈ replaced

/-- What is stale above a number is so above a greater one. -/
theorem Stale.mono {other : Nat} (h : Stale cfg replaced store top) (hle : top ≤ other) :
    Stale cfg replaced store other := by
  intro block hb hlt
  obtain ⟨hnear, hall⟩ := h block hb (by omega)
  exact ⟨by omega, fun k hk hkb => hall k (by omega) hkb⟩

/-- Nor do further blocks found replaced. -/
theorem Stale.more {found : List ProducedBlock} (h : Stale cfg replaced store top)
    (hsub : replaced ⊆ found) : Stale cfg found store top := by
  intro block hb hlt
  obtain ⟨hnear, hall⟩ := h block hb hlt
  refine ⟨hnear, fun k hk hkb => ?_⟩
  obtain ⟨other, ho, hnumber, hreplaced⟩ := hall k hk hkb
  exact ⟨other, ho, hnumber, hsub hreplaced⟩

/-- Another block that is not above the number changes nothing. -/
theorem Stale.create {store' : Store} {details : ProducedBlock} (h : Stale cfg replaced store top)
    (hc : store.create details = some store') (hle : details.number ≤ top) :
    Stale cfg replaced store' top := by
  intro block hb hlt
  have hold : block ∈ store.blocks := by
    rcases (Store.mem_create hc).mp hb with hold | rfl
    · exact hold
    · omega
  obtain ⟨hnear, hall⟩ := h block hold hlt
  refine ⟨hnear, fun k hk hkb => ?_⟩
  obtain ⟨other, ho, hother⟩ := hall k hk hkb
  exact ⟨other, (Store.mem_create hc).mpr (Or.inl ho), hother⟩

/-- A `deleteMany` for such a block leaves nothing above it. -/
theorem Stale.deleteMany {details : ProducedBlock} (hle : details.number ≤ top) :
    Stale cfg replaced (store.deleteMany cfg.maxReOrgDepth details) top := by
  intro block hb hlt
  obtain ⟨_, hkept⟩ := Store.mem_deleteMany.mp hb
  exact absurd (Or.inr (by omega)) hkept

/-- How a start block lies to what is stored and to what the chain has. -/
structure Resumption (cfg : Config) (store : Store) (remote : Nat → Option String)
    (last number : Nat) : Prop where
  above : DiffersAbove store remote last number
  low : ∀ low, (∀ block ∈ store.blocks, low ≤ block.number) → low ≤ number
  near : last ≤ number + cfg.maxReOrgDepth
  /-- It is next to a block that matches, or the walk stops there. -/
  ends : (∃ k, number = k + 1 ∧ store.Matches remote k) ∨
    number ≤ last ∧ (last = number + cfg.maxReOrgDepth ∨ ¬ store.Has number)

/-- A block on the chain is not passed by the walk. -/
theorem le_of_differsAbove {anchor : ProducedBlock} (hlast : store.IsLast last)
    (hb : anchor ∈ store.blocks) (hmatch : remote anchor.number = some anchor.hash)
    (habove : DiffersAbove store remote last number) : anchor.number ≤ number := by
  by_contra hlt
  have hdiffers := habove anchor.number (by omega) (hlast.2 anchor hb)
  exact hdiffers.not_matches ⟨anchor, hb, rfl, hmatch⟩

/-- With a stored block on the chain, `getStartBlock` ends above it. -/
theorem getStartBlock_resumption {anchor : ProducedBlock} {start : Int}
    (hremote : ∀ block ∈ store.blocks, (remote block.number).isSome) (hlast : store.IsLast last)
    (hb : anchor ∈ store.blocks) (hpos : 0 < anchor.number)
    (hmatch : remote anchor.number = some anchor.hash)
    (h : cfg.getStartBlock store remote = some start) :
    ∃ number : Nat, start = number ∧ Resumption cfg store remote last number := by
  have hle := hlast.2 anchor hb
  have hkept : ∀ number, DiffersAbove store remote last number → anchor.number ≤ number :=
    fun number habove => le_of_differsAbove hlast hb hmatch habove
  rcases Nat.eq_zero_or_pos cfg.maxReOrgDepth with hshallow | hdepth
  · -- without rounds the last number itself is returned
    rw [(Config.getStartBlock_eq cfg remote hlast).1, hshallow, Config.walk,
      Config.orStart_ne (by omega)] at h
    exact ⟨last, (Option.some.inj h).symm, fun k hlt hk => by omega,
      fun low hlow => Nat.le_trans (hlow anchor hb) hle, by omega,
      Or.inr ⟨Nat.le_refl _, Or.inl (by omega)⟩⟩
  · obtain ⟨start', hstart, hwalked⟩ := Config.getStartBlock_walked hremote hlast hdepth
    rw [h] at hstart
    obtain rfl := Option.some.inj hstart
    cases hwalked with
    | @matching number hreach hmatches habove _ =>
      have hanchor := hkept number habove
      refine ⟨number + 1, by omega, fun k hlt hk => habove k (by omega) hk, fun low hlow => ?_, ?_,
        Or.inl ⟨number, rfl, hmatches⟩⟩
      · exact Nat.le_trans (hlow anchor hb) (by omega)
      · have hnear := hreach.2.1
        omega
    | @below number _ hlt habove hstop _ =>
      have hanchor := hkept number habove
      refine ⟨number, rfl, habove,
        fun low hlow => Nat.le_trans (hlow anchor hb) hanchor, ?_, Or.inr ⟨by omega, ?_⟩⟩
      · rcases hstop with hdeep | ⟨hnear, _⟩ <;> omega
      · exact hstop.imp_right fun hmissing => hmissing.2
    | round _ _ habove =>
      have hanchor := hkept 0 habove
      omega
    | negative hzero _ => omega

/-- The walk passes what is known to be replaced. -/
theorem Resumption.le (h : Resumption cfg store remote last number) (hlast : store.IsLast last)
    (hstale : Stale cfg replaced store top)
    (hgone : ∀ block ∈ replaced, remote block.number ≠ some block.hash) : number ≤ top + 1 := by
  by_contra hlt
  obtain ⟨⟨highest, hhighest, rfl⟩, _⟩ := id hlast
  rcases h.ends with ⟨k, rfl, block, hb, rfl, hmatch⟩ | ⟨hle, hstop⟩
  · obtain ⟨other, ho, hnumber, hreplaced⟩ := (hstale block hb (by omega)).2 block.number
      (by omega) (Nat.le_refl _)
    obtain rfl := Store.unique_block ho hb hnumber
    exact hgone other hreplaced hmatch
  · obtain ⟨hnear, hall⟩ := hstale highest hhighest (by omega)
    rcases hstop with hdeep | hmissing
    · omega
    · obtain ⟨other, ho, hnumber, _⟩ := hall number (by omega) hle
      exact hmissing ⟨other, ho, hnumber⟩

/-- What is stored above a start block is found to be replaced. -/
theorem Resumption.stale (h : Resumption cfg store remote last number) (hlast : store.IsLast last) :
    Stale cfg (replacedBlocks store remote) store number := by
  intro block hb hlt
  have hle := hlast.2 block hb
  refine ⟨Nat.le_trans hle h.near, fun k hk hkb => ?_⟩
  obtain ⟨other, ho, hnumber, hash, hhash, hne⟩ := h.above k hk (Nat.le_trans hkb hle)
  refine ⟨other, ho, hnumber, List.mem_filter.mpr ⟨ho, decide_eq_true fun hmatch => hne ?_⟩⟩
  rw [hnumber, hhash] at hmatch
  exact Option.some.inj hmatch

end ChainIndexer.Topic
