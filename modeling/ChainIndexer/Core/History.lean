import Mathlib.Data.List.Induction

/-!
# Properties of every entry of a history

A history only grows at its end. A property of each entry may read the entries
before it, so it is settled for good when the entry is appended.
-/

namespace ChainIndexer

universe u

variable {α : Type u}

/-- Every entry has the property after the entries before it. -/
def Each (P : List α → α → Prop) (history : List α) : Prop :=
  ∀ before entry after, history = before ++ entry :: after → P before entry

namespace Each

variable {P : List α → α → Prop} {history : List α}

theorem nil : Each P [] := by
  intro before entry after h
  simp at h

/-- Only the appended entry is new. -/
theorem snoc_iff {entry : α} :
    Each P (history ++ [entry]) ↔ Each P history ∧ P history entry := by
  constructor
  · intro h
    refine ⟨fun before other after heq => h before other (after ++ [entry]) ?_,
      h history entry [] rfl⟩
    rw [heq, List.append_assoc, List.cons_append]
  · rintro ⟨h, hentry⟩ before other after heq
    rcases List.eq_nil_or_concat after with rfl | ⟨after, last, rfl⟩
    · obtain ⟨rfl, he⟩ := List.append_inj' heq rfl
      rwa [← List.head_eq_of_cons_eq he]
    · have heq' : history ++ [entry] = (before ++ other :: after) ++ [last] := by simp [heq]
      exact h before other after (List.append_inj' heq' rfl).1

/-- Entries that have the property anywhere can be appended. -/
theorem append_iff {entries : List α} (hentries : ∀ entry ∈ entries, ∀ before, P before entry) :
    Each P (history ++ entries) ↔ Each P history := by
  induction entries using List.reverseRecOn with
  | nil => rw [List.append_nil]
  | append_singleton entries entry ih =>
    have hinit := ih fun other ho => hentries other (List.mem_append_left _ ho)
    rw [← List.append_assoc, snoc_iff, hinit]
    exact and_iff_left (hentries entry (by simp) _)

end Each

end ChainIndexer
