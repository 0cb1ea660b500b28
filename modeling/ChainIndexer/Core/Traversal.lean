import Mathlib.Data.List.Forall2

/-!
# Traversals that may fail

A traversal takes the image of each entry of a list in turn and ends at the first one that fails. It
succeeds exactly if every entry has an image.
-/

namespace ChainIndexer

universe u v

variable {α : Type u} {β ε : Type v}

/-- There are as many images as entries. -/
theorem mapM_ok_length {f : α → Except ε β} {xs : List α} {ys : List β}
    (h : xs.mapM f = .ok ys) : ys.length = xs.length := by
  induction xs generalizing ys with
  | nil =>
    cases h
    rfl
  | cons x xs ih =>
    rw [List.mapM_cons] at h
    cases hx : f x with
    | error error =>
      rw [hx] at h
      cases h
    | ok y =>
      cases hxs : xs.mapM f with
      | error error =>
        rw [hx, hxs] at h
        cases h
      | ok zs =>
        rw [hx, hxs] at h
        cases h
        rw [List.length_cons, List.length_cons, ih hxs]

/-- Entries that all have an image have images. -/
theorem mapM_isOk {f : α → Except ε β} {xs : List α} :
    (∃ ys, xs.mapM f = .ok ys) ↔ ∀ x ∈ xs, ∃ y, f x = .ok y := by
  induction xs with
  | nil => exact iff_of_true ⟨[], rfl⟩ nofun
  | cons x xs ih =>
    rw [List.mapM_cons, List.forall_mem_cons, ← ih]
    cases hx : f x with
    | error error =>
      refine iff_of_false ?_ ?_
      · rintro ⟨ys, h⟩
        cases h
      · rintro ⟨⟨y, h⟩, -⟩
        cases h
    | ok y =>
      cases hxs : xs.mapM f with
      | error error =>
        refine iff_of_false ?_ ?_
        · rintro ⟨ys, h⟩
          cases h
        · rintro ⟨-, ys, h⟩
          cases h
      | ok ys => exact iff_of_true ⟨y :: ys, rfl⟩ ⟨⟨y, rfl⟩, ys, rfl⟩

/-- The images are those of the entries in their places. -/
theorem mapM_eq_ok_iff {f : α → Except ε β} {xs : List α} {ys : List β} :
    xs.mapM f = .ok ys ↔ List.Forall₂ (fun x y => f x = .ok y) xs ys := by
  induction xs generalizing ys with
  | nil =>
    rw [List.forall₂_nil_left_iff]
    exact ⟨fun h => (Except.ok.inj h).symm, fun h => congrArg Except.ok h.symm⟩
  | cons x xs ih =>
    rw [List.mapM_cons, List.forall₂_cons_left_iff]
    constructor
    · intro h
      cases hx : f x with
      | error error =>
        rw [hx] at h
        cases h
      | ok y =>
        cases hxs : xs.mapM f with
        | error error =>
          rw [hx, hxs] at h
          cases h
        | ok zs =>
          rw [hx, hxs] at h
          exact ⟨y, zs, rfl, ih.mp hxs, (Except.ok.inj h).symm⟩
    · rintro ⟨y, zs, hx, hrest, rfl⟩
      rw [hx, ih.mpr hrest]
      rfl

/-- Traversals of which the first succeeds agree exactly if the images do. -/
theorem mapM_eq_mapM_iff {f g : α → Except ε β} {xs : List α}
    (hf : ∀ x ∈ xs, ∃ y, f x = .ok y) : xs.mapM f = xs.mapM g ↔ ∀ x ∈ xs, f x = g x := by
  constructor
  · intro h
    obtain ⟨ys, hys⟩ := mapM_isOk.mpr hf
    have hfirst := mapM_eq_ok_iff.mp hys
    have hsecond := mapM_eq_ok_iff.mp (h.symm.trans hys)
    clear hf h hys
    induction hfirst with
    | nil => exact nofun
    | cons hx hxs ih =>
      rw [List.forall₂_cons] at hsecond
      rw [List.forall_mem_cons]
      exact ⟨hx.trans hsecond.1.symm, ih hsecond.2⟩
  · intro h
    induction xs with
    | nil => rfl
    | cons x xs ih =>
      rw [List.forall_mem_cons] at h hf
      rw [List.mapM_cons, List.mapM_cons, h.1, ih hf.2 h.2]

/-- The images give what the entries do in their places exactly if each one does. -/
theorem map_eq_map_iff_of_mapM {γ : Type*} {f : α → Except ε β} {g : β → γ} {k : α → γ}
    {P : α → Prop} {xs : List α} {ys : List β} (h : xs.mapM f = .ok ys)
    (hall : ∀ x ∈ xs, ∀ y, f x = .ok y → (g y = k x ↔ P x)) :
    ys.map g = xs.map k ↔ ∀ x ∈ xs, P x := by
  have himages := mapM_eq_ok_iff.mp h
  clear h
  induction himages with
  | nil => exact iff_of_true rfl nofun
  | cons hfirst _ ih =>
    rw [List.forall_mem_cons] at hall
    rw [List.map_cons, List.map_cons, List.cons_eq_cons, hall.1 _ hfirst, List.forall_mem_cons]
    exact and_congr_right fun _ => ih hall.2

end ChainIndexer
