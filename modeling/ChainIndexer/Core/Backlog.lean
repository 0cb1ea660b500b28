import ChainIndexer.Core.Buffer

/-!
# What a buffer holds

Whatever is in a buffer has arrived, so what is known of every arrival is known of
every item in it. Without arrivals the buffer does not grow.
-/

namespace ChainIndexer.Buffer

universe u

variable {α : Type u} {P : α → Prop} {b c : Buffer α}

/-- The guard that restricts what arrives. -/
def Arriving (P : α → Prop) (_ : Buffer α) : Act α → Prop
  | .arrive a => P a
  | .reject _ | .enter _ | .clear | .take | .release | .resolve _ | .finish _ => True

theorem Arriving.lenient (P : α → Prop) : Lenient (Arriving P) :=
  ⟨fun _ _ => trivial, fun _ => trivial, fun _ => trivial, fun _ => trivial, fun _ _ => trivial⟩

/-- Every item that waits, is queued or is in the reader's hand. -/
structure Holds (P : α → Prop) (b : Buffer α) : Prop where
  waiting : ∀ a ∈ b.waiting, P a
  queue : ∀ a ∈ b.queue, P a
  hand : ∀ a ∈ b.hand, P a

/-- A move keeps what all items have that are held. -/
theorem Holds.act {e : Act α} (h : Holds P b) (hg : Arriving P b e) (hs : b.act e = some c) :
    Holds P c := by
  cases e with
  | arrive a =>
    obtain rfl := Option.some.inj hs
    refine ⟨fun x hx => ?_, h.queue, h.hand⟩
    rcases List.mem_append.mp hx with hold | hnew
    · exact h.waiting x hold
    · rw [List.mem_singleton.mp hnew]
      exact hg
  | reject i =>
    obtain ⟨a, _, rfl⟩ := Option.map_eq_some_iff.mp hs
    exact ⟨fun x hx => h.waiting x (List.mem_of_mem_eraseIdx hx), h.queue, h.hand⟩
  | enter i =>
    obtain ⟨a, ha, rfl⟩ := Option.map_eq_some_iff.mp hs
    refine ⟨fun x hx => h.waiting x (List.mem_of_mem_eraseIdx hx), fun x hx => ?_, h.hand⟩
    rcases List.mem_append.mp hx with hold | hnew
    · exact h.queue x hold
    · rw [List.mem_singleton.mp hnew]
      exact h.waiting a (List.mem_of_getElem? ha)
  | clear =>
    obtain rfl := Option.some.inj hs
    exact ⟨h.waiting, nofun, h.hand⟩
  | take =>
    obtain ⟨a, ha, rfl⟩ := Option.map_eq_some_iff.mp hs
    refine ⟨h.waiting, h.queue, fun x hx => ?_⟩
    obtain rfl := Option.some.inj hx
    exact h.queue a (List.mem_of_head? ha)
  | release =>
    obtain rfl := Option.some.inj hs
    exact ⟨h.waiting, h.queue, nofun⟩
  | resolve a =>
    obtain rfl := Option.some.inj hs
    exact ⟨h.waiting, h.queue, h.hand⟩
  | finish cleared =>
    obtain ⟨a, _, rfl⟩ := Option.map_eq_some_iff.mp hs
    refine ⟨h.waiting, fun x hx => ?_, nofun⟩
    cases cleared with
    | true => cases hx
    | false => exact h.queue x (List.mem_of_mem_tail hx)

/-- So do all moves. -/
theorem Holds.of_reach (h : Holds P b) (hr : (machine α).Reach (Arriving P) b c) : Holds P c :=
  hr.invariant (fun _ _ _ hb hg hs => hb.act hg hs) h

/-- How many items wait or are queued. -/
def backlog (b : Buffer α) : Nat := b.waiting.length + b.queue.length

/-- Only an arrival adds to the backlog. -/
theorem backlog_act {e : Act α} (hg : Arriving (fun _ => False) b e) (hs : b.act e = some c) :
    c.backlog ≤ b.backlog := by
  cases e with
  | arrive a => exact hg.elim
  | reject i =>
    obtain ⟨a, _, rfl⟩ := Option.map_eq_some_iff.mp hs
    exact Nat.add_le_add_right (List.length_eraseIdx_le _ _) _
  | enter i =>
    obtain ⟨a, ha, rfl⟩ := Option.map_eq_some_iff.mp hs
    have hlt := (List.getElem?_eq_some_iff.mp ha).1
    simp only [backlog, List.length_eraseIdx_of_lt hlt, List.length_append, List.length_singleton]
    omega
  | clear =>
    obtain rfl := Option.some.inj hs
    exact Nat.le_add_right _ _
  | take =>
    obtain ⟨a, _, rfl⟩ := Option.map_eq_some_iff.mp hs
    exact Nat.le_refl _
  | release | resolve a =>
    obtain rfl := Option.some.inj hs
    exact Nat.le_refl _
  | finish cleared =>
    obtain ⟨a, _, rfl⟩ := Option.map_eq_some_iff.mp hs
    refine Nat.add_le_add_left ?_ _
    cases cleared with
    | true => exact Nat.zero_le _
    | false => exact (List.length_tail ▸ Nat.sub_le _ _)

/-- Without arrivals, the backlog never grows. -/
theorem backlog_le_of_reach (h : (machine α).Reach (Arriving fun _ => False) b c) :
    c.backlog ≤ b.backlog :=
  h.invariant (I := fun d => d.backlog ≤ b.backlog)
    (fun _ _ _ hb hg hs => Nat.le_trans (backlog_act hg hs) hb) (Nat.le_refl _)

end ChainIndexer.Buffer
