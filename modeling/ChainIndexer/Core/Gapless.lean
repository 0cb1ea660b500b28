import ChainIndexer.Core.Branch
import Mathlib.Data.List.Chain
import Mathlib.Data.List.Induction
import Mathlib.Data.Nat.Basic

/-!
# Logs without gaps

The branch that a log leaves of itself has no gap if its heights are consecutive. It never gets one
as long as no entry is more than one above the entry before it, however far back entries go.
-/

namespace ChainIndexer

universe u

variable {α : Type u} {height : α → Nat}

/-- The heights of the branch are consecutive. -/
def Gapless (height : α → Nat) (log : List α) : Prop :=
  ∃ lowest, (branch height log).map height =
    List.range' lowest (branch height log).length

/-- The second entry is at most one above the first. -/
def Adjoins (height : α → Nat) (a b : α) : Prop := height b ≤ height a + 1

/-- The last entry of a log is the last one of its branch. -/
theorem getLast?_branch (height : α → Nat) (log : List α) :
    (branch height log).getLast? = log.getLast? := by
  induction log using List.reverseRecOn with
  | nil => rfl
  | append_singleton log a _ => rw [branch_concat, List.getLast?_concat, List.getLast?_concat]

/-- The numbers below another one, of consecutive numbers. -/
theorem filter_lt_range' (lowest count n : Nat) :
    (List.range' lowest count).filter (· < n) = List.range' lowest (min count (n - lowest)) := by
  induction count generalizing lowest with
  | zero => simp
  | succ count ih =>
    rw [List.range'_succ]
    by_cases hlt : lowest < n
    · have hmin : min (count + 1) (n - lowest) = min count (n - (lowest + 1)) + 1 := by omega
      rw [List.filter_cons, if_pos (decide_eq_true hlt), ih, hmin, List.range'_succ]
    · have hnone : n - (lowest + 1) = 0 := by omega
      have hmin : min (count + 1) (n - lowest) = 0 := by omega
      rw [List.filter_cons, if_neg (by simpa using hlt), ih, hnone, hmin, Nat.min_zero]
      rfl

/-- The heights of a branch to which an entry is added. -/
theorem map_branch_concat {log : List α} {lowest : Nat}
    (h : (branch height log).map height = List.range' lowest (branch height log).length) (a : α) :
    (branch height (log ++ [a])).map height =
      List.range' lowest (min (branch height log).length (height a - lowest)) ++ [height a] := by
  rw [branch_concat, List.map_append, List.map_singleton, ← filter_lt_range', ← h, List.filter_map]
  rfl

/-- Where there is no gap, the last entry is the top of the branch. -/
theorem height_last {log : List α} {lowest : Nat} {last : α}
    (h : (branch height log).map height = List.range' lowest (branch height log).length)
    (hlast : log.getLast? = some last) :
    height last + 1 = lowest + (branch height log).length := by
  have hbranch := getLast?_branch height log
  rw [hlast] at hbranch
  have htop := congrArg List.getLast? h
  rw [List.getLast?_map, hbranch, Option.map_some] at htop
  cases hlength : (branch height log).length with
  | zero => simp [hlength] at htop
  | succ count =>
    rw [hlength, List.range'_concat, List.getLast?_concat, Nat.one_mul] at htop
    have := Option.some.inj htop
    omega

/-- Another entry leaves no gap exactly if it adjoins the last one. -/
theorem gapless_concat_iff {log : List α} (h : Gapless height log) (a : α) :
    Gapless height (log ++ [a]) ↔ ∀ last ∈ log.getLast?, Adjoins height last a := by
  obtain ⟨lowest, hrange⟩ := h
  have hmap := map_branch_concat hrange a
  have hlength := congrArg List.length hmap
  rw [List.length_map, List.length_append, List.length_range', List.length_singleton] at hlength
  constructor
  · rintro ⟨lowest', hrange'⟩ last hlast
    have htop := height_last hrange hlast
    by_contra hnot
    unfold Adjoins at hnot
    -- the whole branch is kept, and the new entry is not next to its top
    have hmin : min (branch height log).length (height a - lowest) =
        (branch height log).length := by omega
    rw [hrange', hlength, hmin] at hmap
    cases hcount : (branch height log).length with
    | zero =>
      have hnone := getLast?_branch height log
      rw [List.length_eq_zero_iff.mp hcount, hlast] at hnone
      cases hnone
    | succ count =>
      rw [hcount, List.range'_concat, Nat.one_mul] at hmap
      obtain ⟨hsame, hnext⟩ := List.append_inj' hmap rfl
      rw [List.range'_succ, List.range'_succ] at hsame
      have hlowest : lowest' = lowest := (List.cons.inj hsame).1
      have hheight : lowest' + (count + 1) = height a := (List.cons.inj hnext).1
      omega
  · intro hadjoins
    cases hlast : log.getLast? with
    | none =>
      obtain rfl := List.getLast?_eq_none_iff.mp hlast
      exact ⟨height a, rfl⟩
    | some last =>
      have htop := height_last hrange hlast
      have hnext : height a ≤ height last + 1 := hadjoins last hlast
      by_cases hlow : lowest ≤ height a
      · have hmin : min (branch height log).length (height a - lowest) = height a - lowest := by
          omega
        refine ⟨lowest, ?_⟩
        rw [hlength, hmap, hmin, List.range'_concat, Nat.one_mul, Nat.add_sub_cancel' hlow]
      · have hmin : min (branch height log).length (height a - lowest) = 0 := by omega
        refine ⟨height a, ?_⟩
        rw [hlength, hmap, hmin]
        rfl

/-- The branch never gets a gap exactly if every entry adjoins the one before it. -/
theorem prefixes_gapless_iff (log : List α) :
    (∀ before, before <+: log → Gapless height before) ↔ log.IsChain (Adjoins height) := by
  induction log using List.reverseRecOn with
  | nil =>
    refine iff_of_true (fun before hbefore => ?_) .nil
    rw [List.prefix_nil.mp hbefore]
    exact ⟨0, rfl⟩
  | append_singleton log a ih =>
    have hsplit : (∀ before, before <+: log ++ [a] → Gapless height before) ↔
        (∀ before, before <+: log → Gapless height before) ∧ Gapless height (log ++ [a]) := by
      constructor
      · intro hall
        exact ⟨fun before hbefore => hall before (hbefore.trans (List.prefix_append _ _)),
          hall _ (List.prefix_refl _)⟩
      · rintro ⟨hall, hlast⟩ before hbefore
        rcases List.prefix_concat_iff.mp hbefore with rfl | hbefore
        · exact hlast
        · exact hall before hbefore
    rw [hsplit, ih, List.isChain_append]
    constructor
    · rintro ⟨hchain, hgapless⟩
      refine ⟨hchain, .singleton a, fun last hlast b hb => ?_⟩
      obtain rfl := Option.some.inj hb
      exact (gapless_concat_iff (ih.mpr hchain log (List.prefix_refl _)) _).mp hgapless last hlast
    · rintro ⟨hchain, -, hjoin⟩
      refine ⟨hchain, (gapless_concat_iff (ih.mpr hchain log (List.prefix_refl _)) a).mpr ?_⟩
      exact fun last hlast => hjoin last hlast a rfl

/-- Where no entry is below the first one and each adjoins the one before it, the branch has all
heights from the first one on. -/
theorem map_branch_of_adjoins {log : List α} {lowest : Nat} (hchain : log.IsChain (Adjoins height))
    (hfirst : ∀ a ∈ log.head?, height a = lowest) (hlow : ∀ a ∈ log, lowest ≤ height a) :
    (branch height log).map height = List.range' lowest (branch height log).length := by
  induction log using List.reverseRecOn with
  | nil => rfl
  | append_singleton log a ih =>
    have hbefore : (branch height log).map height =
        List.range' lowest (branch height log).length := by
      have hfront := List.IsChain.prefix hchain (List.prefix_append _ _)
      refine ih hfront (fun b hb => ?_)
        fun b hb => hlow b (List.mem_append_left _ hb)
      exact hfirst b (by rw [List.head?_append, Option.mem_def.mp hb]; rfl)
    have hmap := map_branch_concat hbefore a
    have hlength := congrArg List.length hmap
    rw [List.length_map, List.length_append, List.length_range', List.length_singleton] at hlength
    have hmin : min (branch height log).length (height a - lowest) = height a - lowest := by
      cases hlast : log.getLast? with
      | none =>
        obtain rfl := List.getLast?_eq_none_iff.mp hlast
        rw [hfirst a rfl, Nat.sub_self, Nat.min_zero]
      | some last =>
        have htop := height_last hbefore hlast
        have hnext : height a ≤ height last + 1 :=
          (List.isChain_append.mp hchain).2.2 last hlast a rfl
        omega
    have hle := hlow a (List.mem_append_right _ (List.mem_singleton_self a))
    rw [hlength, hmap, hmin, List.range'_concat, Nat.one_mul, Nat.add_sub_cancel' hle]

end ChainIndexer
