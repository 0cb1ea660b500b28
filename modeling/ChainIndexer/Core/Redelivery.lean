import Mathlib.Data.List.Basic
import Mathlib.Logic.Relation

/-!
# Handling a log more than once

A consumer handles the entries of a log in order. An attempt may fail after a part of its writes,
and the consumer may start again at any earlier place. Where handling an entry overwrites whatever
an attempt at it has left behind, the store is in the end what one pass over the log makes of it.
-/

namespace ChainIndexer

universe u v w

variable {α : Type u} {σ : Type v} {τ : Type w}

/-- Stores agree up to what an entry overwrites: handling it makes them equal, handling another one
keeps them so, and no handling of it changes the rest. -/
structure Overwrites (apply : σ → α → σ) (agree : α → σ → σ → Prop) : Prop where
  refl : ∀ a s, agree a s s
  same : ∀ {a s t}, agree a s t → apply s a = apply t a
  kept : ∀ {a b s t}, agree a s t → agree a (apply s b) (apply t b)
  rest : ∀ a s, agree a (apply s a) s

namespace Overwrites

variable {apply : σ → α → σ} {agree : α → σ → σ → Prop}

/-- What an entry overwrites is forgotten once the entry is handled. -/
theorem foldl_eq (ho : Overwrites apply agree) {a : α} {s t : σ} (h : agree a s t) {log : List α}
    (ha : a ∈ log) : log.foldl apply s = log.foldl apply t := by
  induction log generalizing s t with
  | nil => cases ha
  | cons b log ih =>
    rw [List.foldl_cons, List.foldl_cons]
    rcases List.mem_cons.mp ha with rfl | ha
    · rw [ho.same h]
    · exact ih (ho.kept h) ha

end Overwrites

/-- A consumer: the place of the entry it handles next, the entries it has begun, its store. -/
structure Consumption (σ : Type v) where
  place : Nat
  begun : Nat
  store : σ

namespace Consumption

/-- What a consumer of the log does: it handles the entry at its place, fails to, or starts again at
an earlier place. -/
inductive Step (log : List α) (handle : α → σ → Bool → σ → Prop) :
    Consumption σ → Consumption σ → Prop
  | handled {c a t} : log[c.place]? = some a → handle a c.store true t →
    Step log handle c ⟨c.place + 1, max c.begun (c.place + 1), t⟩
  | failed {c a t} : log[c.place]? = some a → handle a c.store false t →
    Step log handle c ⟨c.place, max c.begun (c.place + 1), t⟩
  | restarted {c place} : place ≤ c.place → Step log handle c { c with place := place }

/-- The states a consumer goes through from the beginning of the log. -/
def Reaches (log : List α) (handle : α → σ → Bool → σ → Prop) (init : σ) : Consumption σ → Prop :=
  Relation.ReflTransGen (Step log handle) ⟨0, 0, init⟩

/-- The place is not behind what has been begun, nor that behind the log. -/
def Within (log : List α) (c : Consumption σ) : Prop := c.place ≤ c.begun ∧ c.begun ≤ log.length

/-- What is left up to the entries begun completes one pass, from any place up to the present
one. -/
def Completes (apply : τ → α → τ) (log : List α) (view : σ → τ) (init : τ) (c : Consumption σ) :
    Prop :=
  ∀ place ≤ c.place, ((log.take c.begun).drop place).foldl apply (view c.store) =
    (log.take c.begun).foldl apply init

variable {apply : τ → α → τ} {agree : α → τ → τ → Prop} {log : List α}
  {handle : α → σ → Bool → σ → Prop} {view : σ → τ} {init : τ} {c d : Consumption σ}

/-- A consumer that does less goes through fewer states. -/
theorem Reaches.mono {handle' : α → σ → Bool → σ → Prop} {s : σ}
    (himp : ∀ a s ok t, handle a s ok t → handle' a s ok t) (h : Reaches log handle s c) :
    Reaches log handle' s c := by
  induction h with
  | refl => exact .refl
  | tail _ hstep ih =>
    refine Relation.ReflTransGen.tail ih ?_
    cases hstep with
    | handled ha hhandle => exact .handled ha (himp _ _ _ _ hhandle)
    | failed ha hhandle => exact .failed ha (himp _ _ _ _ hhandle)
    | restarted hle => exact .restarted hle

/-- Whatever can handle the entry at its place, fail to and start again at an earlier place goes
through the same places and stores. -/
theorem Reaches.realised {π : Type*} {R : π → π → Prop} {init : σ}
    (h : Reaches log handle init c) (waits : π → Nat → σ → Prop)
    (hhandles : ∀ {p a place s t}, waits p place s → log[place]? = some a → handle a s true t →
      ∃ q, Relation.ReflTransGen R p q ∧ waits q (place + 1) t)
    (hfails : ∀ {p a place s t}, waits p place s → log[place]? = some a → handle a s false t →
      ∃ q, Relation.ReflTransGen R p q ∧ waits q place t)
    (hrestarts : ∀ {p place earlier s}, waits p place s → earlier ≤ place →
      ∃ q, Relation.ReflTransGen R p q ∧ waits q earlier s)
    {p : π} (hp : waits p 0 init) :
    ∃ q, Relation.ReflTransGen R p q ∧ waits q c.place c.store := by
  induction h with
  | refl => exact ⟨p, .refl, hp⟩
  | @tail c d _ hstep ih =>
    obtain ⟨q, hpq, hq⟩ := ih
    obtain ⟨r, hqr, hr⟩ : ∃ r, Relation.ReflTransGen R q r ∧ waits r d.place d.store := by
      cases hstep with
      | handled ha hhandle => exact hhandles hq ha hhandle
      | failed ha hhandle => exact hfails hq ha hhandle
      | restarted hle => exact hrestarts hq hle
    exact ⟨r, hpq.trans hqr, hr⟩

/-- A step keeps the place within the log. -/
theorem Within.step (h : Within log c) (hstep : Step log handle c d) : Within log d := by
  obtain ⟨hplace, hbegun⟩ := h
  cases hstep with
  | handled ha _ =>
    obtain ⟨hlt, -⟩ := List.getElem?_eq_some_iff.mp ha
    exact ⟨Nat.le_max_right _ _, Nat.max_le.mpr ⟨hbegun, hlt⟩⟩
  | failed ha _ =>
    obtain ⟨hlt, -⟩ := List.getElem?_eq_some_iff.mp ha
    exact ⟨Nat.le_trans hplace (Nat.le_max_left _ _), Nat.max_le.mpr ⟨hbegun, hlt⟩⟩
  | restarted hle => exact ⟨Nat.le_trans hle hplace, hbegun⟩

/-- So do all steps. -/
theorem Reaches.within {s : σ} (h : Reaches log handle s c) : Within log c := by
  induction h with
  | refl => exact ⟨Nat.le_refl 0, Nat.zero_le _⟩
  | tail _ hstep ih => exact ih.step hstep

/-- What every attempt keeps of the store holds throughout. -/
theorem Reaches.invariant {I : σ → Prop} {s : σ} (h₀ : I s)
    (hkept : ∀ a ∈ log, ∀ s ok t, I s → handle a s ok t → I t) (h : Reaches log handle s c) :
    I c.store := by
  induction h with
  | refl => exact h₀
  | tail _ hstep ih =>
    cases hstep with
    | handled ha hhandle => exact hkept _ (List.mem_of_getElem? ha) _ _ _ ih hhandle
    | failed ha hhandle => exact hkept _ (List.mem_of_getElem? ha) _ _ _ ih hhandle
    | restarted _ => exact ih

/-- An entry that is never handled is never passed. -/
theorem Reaches.place_le {i : Nat} {a : α} {s : σ} (ha : log[i]? = some a)
    (hnever : ∀ s t, ¬ handle a s true t) (h : Reaches log handle s c) : c.place ≤ i := by
  induction h with
  | refl => exact Nat.zero_le i
  | @tail c d _ hstep ih =>
    cases hstep with
    | @handled b t hb hhandle =>
      refine Nat.lt_of_le_of_ne ih fun heq => ?_
      obtain rfl : b = a := Option.some.inj (hb.symm.trans (heq ▸ ha))
      exact hnever _ _ hhandle
    | failed _ _ => exact ih
    | restarted hle => exact Nat.le_trans hle ih

/-- The entries from a place on, up to a bound it is within, when the bound moves past an entry. -/
theorem drop_take_succ {place begun : Nat} (hplace : place ≤ begun) (hbegun : begun < log.length) :
    (log.take (begun + 1)).drop place = (log.take begun).drop place ++ [log[begun]] := by
  rw [List.take_succ_eq_append_getElem hbegun, List.drop_append_of_le_length]
  rw [List.length_take]
  omega

/-- A pass that goes over the entry at the present place ends alike from stores that agree up to it,
and begins the entry if it is new. -/
theorem Completes.attempted (ho : Overwrites apply agree) (h : Completes apply log view init c)
    (hc : Within log c) {a : α} (ha : log[c.place]? = some a) {t : τ}
    (ht : agree a t (view c.store)) {place : Nat} (hplace : place ≤ c.place) :
    ((log.take (max c.begun (c.place + 1))).drop place).foldl apply t =
      (log.take (max c.begun (c.place + 1))).foldl apply init := by
  obtain ⟨hlt, rfl⟩ := List.getElem?_eq_some_iff.mp ha
  have hmem : log[c.place] ∈ (log.take (max c.begun (c.place + 1))).drop place := by
    rw [List.mem_iff_getElem]
    refine ⟨c.place - place, by simp; omega, ?_⟩
    simp only [List.getElem_drop, List.getElem_take]
    congr 1
    omega
  rw [ho.foldl_eq ht hmem]
  rcases Nat.lt_or_ge c.place c.begun with hold | hnew
  · rw [Nat.max_eq_left hold]
    exact h place hplace
  · -- the entry is new, and one pass over the log now ends with it
    obtain hbegun : c.begun = c.place := Nat.le_antisymm hnew hc.1
    have hlast : c.begun < log.length := by omega
    rw [Nat.max_eq_right (by omega), ← hbegun, drop_take_succ (by omega) hlast, List.foldl_append,
      h place hplace, List.take_succ_eq_append_getElem hlast, List.foldl_append]

/-- Every step keeps this, where handling an entry is its operation and a failure agrees up to
it. -/
theorem Completes.step (ho : Overwrites apply agree) (h : Completes apply log view init c)
    (hc : Within log c)
    (hok : ∀ a ∈ log, ∀ t, handle a c.store true t → view t = apply (view c.store) a)
    (hfail : ∀ a ∈ log, ∀ t, handle a c.store false t → agree a (view t) (view c.store))
    (hstep : Step log handle c d) : Completes apply log view init d := by
  cases hstep with
  | @handled a t ha hhandle =>
    obtain ⟨hlt, hget⟩ := List.getElem?_eq_some_iff.mp ha
    have hview := hok a (List.mem_of_getElem? ha) t hhandle
    intro place hplace
    rcases Nat.lt_or_ge c.place place with hpast | hwithin
    · -- the pass goes on behind the entry just handled
      obtain rfl : place = c.place + 1 := Nat.le_antisymm hplace hpast
      have hpass := h.attempted ho hc ha (ho.refl a _) (Nat.le_refl c.place)
      have hlen : c.place < (log.take (max c.begun (c.place + 1))).length := by
        rw [List.length_take]
        omega
      rw [List.drop_eq_getElem_cons hlen, List.foldl_cons, List.getElem_take, hget,
        ← hview] at hpass
      exact hpass
    · exact h.attempted ho hc ha (hview ▸ ho.rest a _) hwithin
  | @failed a t ha hhandle =>
    intro place hplace
    exact h.attempted ho hc ha (hfail a (List.mem_of_getElem? ha) t hhandle) hplace
  | restarted hplace => exact fun j hj => h j (Nat.le_trans hj hplace)

/-- A consumer always completes one pass over the log. What is known of a handling may rest on an
invariant of the store. -/
theorem Reaches.completes (ho : Overwrites apply agree) {I : σ → Prop} {s₀ : σ} (h₀ : I s₀)
    (hkept : ∀ a ∈ log, ∀ s ok t, I s → handle a s ok t → I t)
    (hok : ∀ a ∈ log, ∀ s t, I s → handle a s true t → view t = apply (view s) a)
    (hfail : ∀ a ∈ log, ∀ s t, I s → handle a s false t → agree a (view t) (view s))
    (h : Reaches log handle s₀ c) : Completes apply log view (view s₀) c := by
  induction h with
  | refl =>
    intro place hplace
    obtain rfl : place = 0 := Nat.le_zero.mp hplace
    rfl
  | tail hreach hstep ih =>
    have hI := Reaches.invariant h₀ hkept hreach
    exact ih.step ho (Reaches.within hreach) (fun a ha t => hok a ha _ t hI)
      (fun a ha t => hfail a ha _ t hI) hstep

/-- Caught up, nothing is left of the pass. -/
theorem Completes.caughtUp (h : Completes apply log view init c) (hcaught : c.place = c.begun) :
    view c.store = (log.take c.begun).foldl apply init := by
  have hpass := h c.place (Nat.le_refl _)
  have hlength : (log.take c.begun).length ≤ c.place := by
    rw [List.length_take]
    exact hcaught ▸ Nat.min_le_left _ _
  rwa [List.drop_of_length_le hlength] at hpass

/-- At the end of the log, the store is that of one pass over it. -/
theorem Completes.atEnd (h : Completes apply log view init c) (hc : Within log c)
    (hend : c.place = log.length) : view c.store = log.foldl apply init := by
  have hbegun : c.begun = log.length := Nat.le_antisymm hc.2 (hend ▸ hc.1)
  rw [h.caughtUp (hend.trans hbegun.symm), hbegun, List.take_length]

end Consumption

end ChainIndexer
