import Mathlib.Data.List.Basic
import Mathlib.Order.Lattice

/-!
# What a log leaves of itself

Each entry of a log has a height and supersedes the entries before it that are not below it. What is
left is a branch: its heights rise, it ends with the last entry, and it can be read off the log from
either end.
-/

namespace ChainIndexer

universe u v

variable {α : Type u} {β : Type v} [LinearOrder β] {height : α → β}

/-- The entries of a log that no later one supersedes, in order. -/
def branch (height : α → β) : List α → List α
  | [] => []
  | a :: log =>
    if ∀ b ∈ log, height a < height b then a :: branch height log else branch height log

/-- An entry below everything after it stands. -/
theorem branch_cons_of_lt {a : α} {log : List α} (h : ∀ b ∈ log, height a < height b) :
    branch height (a :: log) = a :: branch height log := if_pos h

/-- An entry that is superseded does not. -/
theorem branch_cons_of_le {a : α} {log : List α} (h : ∃ b ∈ log, height b ≤ height a) :
    branch height (a :: log) = branch height log := by
  obtain ⟨b, hb, hle⟩ := h
  exact if_neg fun hall => absurd (hall b hb) (not_lt_of_ge hle)

/-- The branch leaves entries out and moves none. -/
theorem branch_sublist (height : α → β) (log : List α) : (branch height log).Sublist log := by
  induction log with
  | nil => exact .slnil
  | cons a log ih =>
    rw [branch]
    split
    · exact ih.cons_cons a
    · exact ih.cons a

/-- What stands was in the log. -/
theorem mem_of_mem_branch {a : α} {log : List α} (h : a ∈ branch height log) : a ∈ log :=
  (branch_sublist height log).subset h

/-- What follows a log removes all of its branch that is not below it. -/
theorem branch_append (xs ys : List α) :
    branch height (xs ++ ys) =
      (branch height xs).filter (fun a => ∀ b ∈ ys, height a < height b) ++ branch height ys := by
  induction xs with
  | nil => rfl
  | cons a xs ih =>
    by_cases hxs : ∀ b ∈ xs, height a < height b
    · rw [branch_cons_of_lt hxs]
      by_cases hys : ∀ b ∈ ys, height a < height b
      · have hall : ∀ b ∈ xs ++ ys, height a < height b :=
          fun b hb => (List.mem_append.mp hb).elim (hxs b) (hys b)
        have hkept : decide (∀ b ∈ ys, height a < height b) = true := decide_eq_true hys
        rw [List.filter_cons, if_pos hkept, List.cons_append, List.cons_append,
          branch_cons_of_lt hall, ih]
      · push Not at hys
        obtain ⟨b, hb, hle⟩ := hys
        have hsome : ∃ b ∈ xs ++ ys, height b ≤ height a := ⟨b, List.mem_append_right _ hb, hle⟩
        have hout : ¬ ∀ b ∈ ys, height a < height b := fun hall => not_lt_of_ge hle (hall b hb)
        rw [List.filter_cons_of_neg (by simpa using hout), List.cons_append,
          branch_cons_of_le hsome, ih]
    · push Not at hxs
      obtain ⟨b, hb, hle⟩ := hxs
      have hsome : ∃ b ∈ xs ++ ys, height b ≤ height a := ⟨b, List.mem_append_left _ hb, hle⟩
      rw [branch_cons_of_le ⟨b, hb, hle⟩, List.cons_append, branch_cons_of_le hsome, ih]

/-- The last entry removes what is not below it, and stays. -/
theorem branch_concat (log : List α) (a : α) :
    branch height (log ++ [a]) =
      (branch height log).filter (fun b => height b < height a) ++ [a] := by
  rw [branch_append]
  simp [branch]

/-- A log of images with the same heights leaves the images of what the log leaves. -/
theorem branch_map {γ : Type*} {f : γ → α} {height' : γ → β} {log : List γ}
    (h : ∀ c ∈ log, height (f c) = height' c) :
    branch height (log.map f) = (branch height' log).map f := by
  induction log with
  | nil => rfl
  | cons c log ih =>
    have hfirst := h c List.mem_cons_self
    have hrest : ∀ d ∈ log, height (f d) = height' d :=
      fun d hd => h d (List.mem_cons_of_mem c hd)
    rw [List.map_cons]
    by_cases hall : ∀ d ∈ log, height' c < height' d
    · have hmapped : ∀ b ∈ log.map f, height (f c) < height b := by
        intro b hb
        obtain ⟨d, hd, rfl⟩ := List.mem_map.mp hb
        rw [hfirst, hrest d hd]
        exact hall d hd
      rw [branch_cons_of_lt hall, branch_cons_of_lt hmapped, List.map_cons, ih hrest]
    · push Not at hall
      obtain ⟨d, hd, hle⟩ := hall
      have hmapped : ∃ b ∈ log.map f, height b ≤ height (f c) :=
        ⟨f d, List.mem_map_of_mem hd, by rwa [hfirst, hrest d hd]⟩
      rw [branch_cons_of_le ⟨d, hd, hle⟩, branch_cons_of_le hmapped, ih hrest]

/-! ## Parts of a log -/

/-- Fewer entries supersede fewer. -/
theorem filter_branch_sublist (p : α → Bool) (log : List α) :
    ((branch height log).filter p).Sublist (branch height (log.filter p)) := by
  induction log with
  | nil => exact .slnil
  | cons a log ih =>
    cases hp : p a with
    | false =>
      rw [List.filter_cons_of_neg (by simp [hp]), branch]
      split
      · rwa [List.filter_cons_of_neg (by simp [hp])]
      · exact ih
    | true =>
      rw [List.filter_cons_of_pos hp]
      by_cases hall : ∀ b ∈ log, height a < height b
      · have hkept : ∀ b ∈ log.filter p, height a < height b :=
          fun b hb => hall b (List.mem_of_mem_filter hb)
        rw [branch_cons_of_lt hall, branch_cons_of_lt hkept, List.filter_cons_of_pos hp]
        exact ih.cons_cons a
      · push Not at hall
        rw [branch_cons_of_le hall, branch]
        split
        · exact ih.cons a
        · exact ih

/-- Each entry of this part of a log that is superseded is superseded within the part. -/
def SupersededWithin (height : α → β) (p : α → Bool) (log : List α) : Prop :=
  ∀ before a after, log = before ++ a :: after → p a = true →
    (∃ b ∈ after, height b ≤ height a) → ∃ b ∈ after, p b = true ∧ height b ≤ height a

/-- The condition is one on each entry and those after it. -/
theorem supersededWithin_cons {p : α → Bool} {a : α} {log : List α} :
    SupersededWithin height p (a :: log) ↔
      (p a = true → (∃ b ∈ log, height b ≤ height a) →
        ∃ b ∈ log, p b = true ∧ height b ≤ height a) ∧ SupersededWithin height p log := by
  constructor
  · intro h
    refine ⟨fun hp hsome => h [] a log rfl hp hsome, fun before b after heq => ?_⟩
    exact h (a :: before) b after (by rw [heq, List.cons_append])
  · rintro ⟨hfirst, hrest⟩ before b after heq
    cases before with
    | nil =>
      obtain ⟨rfl, rfl⟩ := List.cons.inj heq
      exact hfirst
    | cons c before =>
      obtain ⟨rfl, rfl⟩ := List.cons.inj heq
      exact hrest before b after rfl

/-- The branch of a part of a log is the part of its branch exactly if nothing in the part is
superseded by the other entries alone. -/
theorem branch_filter_iff (p : α → Bool) (log : List α) :
    branch height (log.filter p) = (branch height log).filter p ↔
      SupersededWithin height p log := by
  induction log with
  | nil =>
    refine iff_of_true rfl fun before a after heq => ?_
    simp at heq
  | cons a log ih =>
    rw [supersededWithin_cons]
    cases hp : p a with
    | false =>
      have hbranch : (branch height (a :: log)).filter p = (branch height log).filter p := by
        rw [branch]
        split
        · exact List.filter_cons_of_neg (by simp [hp])
        · rfl
      rw [List.filter_cons_of_neg (by simp [hp]), hbranch, ih]
      simp
    | true =>
      rw [List.filter_cons_of_pos hp]
      by_cases hall : ∀ b ∈ log, height a < height b
      · have hkept : ∀ b ∈ log.filter p, height a < height b :=
          fun b hb => hall b (List.mem_of_mem_filter hb)
        have hnone : ¬ ∃ b ∈ log, height b ≤ height a :=
          fun ⟨b, hb, hle⟩ => not_lt_of_ge hle (hall b hb)
        rw [branch_cons_of_lt hall, branch_cons_of_lt hkept, List.filter_cons_of_pos hp,
          List.cons_inj_right, ih]
        exact ⟨fun h => ⟨fun _ hsome => absurd hsome hnone, h⟩, fun h => h.2⟩
      · push Not at hall
        rw [branch_cons_of_le hall]
        by_cases hwithin : ∃ b ∈ log, p b = true ∧ height b ≤ height a
        · obtain ⟨b, hb, hpb, hle⟩ := hwithin
          rw [branch_cons_of_le ⟨b, List.mem_filter.mpr ⟨hb, hpb⟩, hle⟩, ih]
          exact ⟨fun h => ⟨fun _ _ => ⟨b, hb, hpb, hle⟩, h⟩, fun h => h.2⟩
        · -- the entry stays in the branch of the part, which is then too long
          have hkept : ∀ b ∈ log.filter p, height a < height b := by
            intro b hb
            obtain ⟨hmem, hpb⟩ := List.mem_filter.mp hb
            exact lt_of_not_ge fun hle => hwithin ⟨b, hmem, hpb, hle⟩
          refine iff_of_false (fun heq => ?_) fun h => hwithin (h.1 rfl hall)
          rw [branch_cons_of_lt hkept] at heq
          have hsub : ((branch height log).filter p).Sublist (branch height (log.filter p)) :=
            filter_branch_sublist p log
          have hle := hsub.length_le
          rw [← heq, List.length_cons] at hle
          omega

end ChainIndexer
