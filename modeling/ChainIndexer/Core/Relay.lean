import ChainIndexer.Core.Branch
import ChainIndexer.Core.Redelivery
import Mathlib.Data.List.Induction

/-!
# Stores and logs kept from a log

Where each entry of a log has a height, a store may keep the items of the entries that no later one
supersedes: an entry replaces the items from its height on. Another log may be made from the first
one by appending the images of its entries. Either of them may be written to again and again; once
its writer has caught up, what is left of it is what is left of the log.
-/

namespace ChainIndexer

universe u v w

variable {α : Type u} {δ : Type v} {β : Type w} [LinearOrder β]

/-- What an entry that is kept makes of a store: it replaces the items from its height on. -/
def overwrite (number : α → β) (keeps : α → Bool) (items : α → List δ) (level : δ → β)
    (store : List δ) (a : α) : List δ :=
  if keeps a then store.filter (fun item => level item < number a) ++ items a else store

/-- Stores with the same items below the height of an entry that is kept. -/
def AgreeBelow (number : α → β) (keeps : α → Bool) (level : δ → β) (a : α) (s t : List δ) : Prop :=
  if keeps a then
    s.filter (fun item => level item < number a) = t.filter (fun item => level item < number a)
  else s = t

section Overwriting

variable {number : α → β} {keeps : α → Bool} {items : α → List δ} {level : δ → β}

/-- An entry that is kept replaces the items from its height on. -/
theorem overwrite_of_kept {a : α} (h : keeps a = true) (store : List δ) :
    overwrite number keeps items level store a =
      store.filter (fun item => level item < number a) ++ items a := if_pos h

/-- Any other entry changes nothing. -/
theorem overwrite_of_not_kept {a : α} (h : keeps a = false) (store : List δ) :
    overwrite number keeps items level store a = store := if_neg (by simp [h])

theorem agreeBelow_of_kept {a : α} (h : keeps a = true) {s t : List δ} :
    AgreeBelow number keeps level a s t ↔
      s.filter (fun item => level item < number a) =
        t.filter (fun item => level item < number a) := by
  rw [AgreeBelow, if_pos h]

theorem agreeBelow_of_not_kept {a : α} (h : keeps a = false) {s t : List δ} :
    AgreeBelow number keeps level a s t ↔ s = t := by
  rw [AgreeBelow, if_neg (by simp [h])]

/-- Items from a height on are not below it. -/
theorem filter_below_eq_nil {n : β} {store : List δ} (h : ∀ item ∈ store, n ≤ level item) :
    store.filter (fun item => level item < n) = [] := by
  rw [List.filter_eq_nil_iff]
  intro item hmem
  simpa using h item hmem

/-- An entry overwrites the store from its height on. -/
theorem overwrites (hlevel : ∀ a, ∀ item ∈ items a, level item = number a) :
    Overwrites (overwrite number keeps items level) (AgreeBelow number keeps level) where
  refl a s := by
    unfold AgreeBelow
    split <;> rfl
  same {a s t} h := by
    cases hk : keeps a with
    | false =>
      rw [overwrite_of_not_kept hk, overwrite_of_not_kept hk, (agreeBelow_of_not_kept hk).mp h]
    | true => rw [overwrite_of_kept hk, overwrite_of_kept hk, (agreeBelow_of_kept hk).mp h]
  kept {a b s t} h := by
    cases hk : keeps a with
    | false => rw [agreeBelow_of_not_kept hk] at h ⊢; rw [h]
    | true =>
      rw [agreeBelow_of_kept hk] at h ⊢
      cases hb : keeps b with
      | false => rwa [overwrite_of_not_kept hb, overwrite_of_not_kept hb]
      | true =>
        -- the two bounds may be applied in either order
        have hcomm : ∀ store : List δ,
            (store.filter (fun item => level item < number b)).filter
              (fun item => level item < number a) =
            (store.filter (fun item => level item < number a)).filter
              (fun item => level item < number b) := by
          intro store
          rw [List.filter_filter, List.filter_filter]
          exact List.filter_congr fun item _ => Bool.and_comm _ _
        rw [overwrite_of_kept hb, overwrite_of_kept hb, List.filter_append, List.filter_append,
          hcomm, hcomm, h]
  rest a s := by
    cases hk : keeps a with
    | false => rw [agreeBelow_of_not_kept hk, overwrite_of_not_kept hk]
    | true =>
      rw [agreeBelow_of_kept hk, overwrite_of_kept hk, List.filter_append,
        filter_below_eq_nil fun item hmem => le_of_eq (hlevel a item hmem).symm, List.append_nil,
        List.filter_filter]
      simp

/-- An item is below a height exactly when its entry is. -/
theorem filter_flatMap_items (hlevel : ∀ a, ∀ item ∈ items a, level item = number a) (n : β)
    (log : List α) :
    (log.flatMap items).filter (fun item => level item < n) =
      (log.filter fun a => number a < n).flatMap items := by
  induction log with
  | nil => rfl
  | cons a log ih =>
    rw [List.flatMap_cons, List.filter_append, ih, List.filter_cons]
    split
    · rename_i hlt
      have hself : (items a).filter (fun item => level item < n) = items a := by
        rw [List.filter_eq_self]
        intro item hmem
        rwa [hlevel a item hmem]
      rw [hself, List.flatMap_cons]
    · rename_i hge
      rw [filter_below_eq_nil fun item hmem => by simpa [hlevel a item hmem] using hge,
        List.nil_append]

/-- One pass over a log keeps the items of the entries that are left of it. -/
theorem foldl_overwrite (hlevel : ∀ a, ∀ item ∈ items a, level item = number a) (log : List α) :
    log.foldl (overwrite number keeps items level) [] =
      (branch number (log.filter keeps)).flatMap items := by
  induction log using List.reverseRecOn with
  | nil => rfl
  | append_singleton log a ih =>
    rw [List.foldl_concat, ih, List.filter_append]
    cases hk : keeps a with
    | false =>
      rw [overwrite_of_not_kept hk, List.filter_cons_of_neg (by simp [hk]), List.filter_nil,
        List.append_nil]
    | true =>
      rw [overwrite_of_kept hk, List.filter_cons_of_pos hk, List.filter_nil, branch_concat,
        List.flatMap_append, List.flatMap_singleton, filter_flatMap_items hlevel]

end Overwriting

/-! ## Relayed logs -/

/-- An attempt to relay an entry appends its image, if it has one. An attempt that fails may have
appended it all the same. -/
def relay (f : α → Option δ) (a : α) (log : List δ) (ok : Bool) (longer : List δ) : Prop :=
  longer = log ++ (f a).toList ∨ ok = false ∧ longer = log

/-- A relayed log holds images only. -/
theorem mem_relayed {f : α → Option δ} {log : List α} {c : Consumption (List δ)}
    (h : Consumption.Reaches log (relay f) [] c) :
    ∀ image ∈ c.store, ∃ a ∈ log, f a = some image := by
  refine h.invariant (I := fun images => ∀ image ∈ images, ∃ a ∈ log, f a = some image)
    (fun _ hmem => by cases hmem) ?_
  rintro a ha images ok longer himages (rfl | ⟨-, rfl⟩) image hmem
  · rcases List.mem_append.mp hmem with hold | hnew
    · exact himages image hold
    · exact ⟨a, ha, Option.mem_toList.mp hnew⟩
  · exact himages image hmem

/-- What is left of a relayed log is what is left of the log, once the relay is at its end. -/
theorem branch_relayed {f : α → Option δ} {number : α → β} {level : δ → β}
    (hlevel : ∀ a, ∀ image ∈ f a, level image = number a) {log : List α}
    {c : Consumption (List δ)} (h : Consumption.Reaches log (relay f) [] c)
    (hend : c.place = log.length) :
    branch level c.store =
      (branch number (log.filter fun a => (f a).isSome)).flatMap fun a => (f a).toList := by
  have hitems : ∀ a, ∀ item ∈ (f a).toList, level item = number a :=
    fun a item hmem => hlevel a item (Option.mem_toList.mp hmem)
  -- appending an image overwrites the branch from its height on
  have happend : ∀ a (s : List δ), branch level (s ++ (f a).toList) =
      overwrite number (fun a => (f a).isSome) (fun a => (f a).toList) level
        (branch level s) a := by
    intro a s
    cases hf : f a with
    | none => rw [overwrite_of_not_kept (by simp [hf]), Option.toList_none, List.append_nil]
    | some image =>
      rw [overwrite_of_kept (by simp [hf]), Option.toList_some, branch_concat, hf,
        Option.toList_some, hlevel a image hf]
  have hov : Overwrites (overwrite number (fun a => (f a).isSome) (fun a => (f a).toList) level)
      (AgreeBelow number (fun a => (f a).isSome) level) := overwrites hitems
  have hspec : ∀ a (s : List δ) ok t, relay f a s ok t →
      (ok = true → branch level t = overwrite number (fun a => (f a).isSome)
        (fun a => (f a).toList) level (branch level s) a) ∧
      AgreeBelow number (fun a => (f a).isSome) level a (branch level t) (branch level s) := by
    rintro a s ok t (rfl | ⟨rfl, rfl⟩)
    · rw [happend]
      exact ⟨fun _ => rfl, hov.rest a _⟩
    · exact ⟨nofun, hov.refl a _⟩
  have hcompletes : Consumption.Completes (overwrite number (fun a => (f a).isSome)
      (fun a => (f a).toList) level) log (branch level) [] c :=
    h.completes hov (I := fun _ => True) trivial
      (fun _ _ _ _ _ _ _ => trivial) (fun a _ s t _ hr => (hspec a s true t hr).1 rfl)
      (fun a _ s t _ hr => (hspec a s false t hr).2)
  rw [hcompletes.atEnd h.within hend]
  exact foldl_overwrite hitems _

end ChainIndexer
