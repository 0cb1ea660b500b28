import Mathlib.Data.List.Basic

/-!
# Lines that climb at most one step over a bound

Each element of a line must not exceed the current bound, and moves it. The two
uses differ in how the bound moves: it follows the last element, or it never
falls. Every list of consecutive numbers that starts within the bound climbs.
-/

namespace ChainIndexer

/-- Every element is within the bound that the elements before it have moved. -/
def Climbs (next : Nat → Nat → Nat) : Nat → List Nat → Prop
  | _, [] => True
  | bound, n :: ns => n ≤ bound ∧ Climbs next (next bound n) ns

namespace Climbs

/-- The bound follows the last element. -/
def follow (_ n : Nat) : Nat := n + 1

/-- The bound never falls. -/
def rise (bound n : Nat) : Nat := max bound (n + 1)

/-- The next bound is above the element. -/
theorem lt_follow (bound n : Nat) : n < follow bound n := Nat.lt_succ_self n

/-- So it is when it never falls. -/
theorem lt_rise (bound n : Nat) : n < rise bound n := by
  unfold rise
  omega

variable {next : Nat → Nat → Nat} {bound : Nat}

@[simp] theorem nil : Climbs next bound [] ↔ True := Iff.rfl

@[simp] theorem cons {n : Nat} {ns : List Nat} :
    Climbs next bound (n :: ns) ↔ n ≤ bound ∧ Climbs next (next bound n) ns := Iff.rfl

/-- A line is climbed by climbing its first part and then the rest. -/
theorem append {ns ms : List Nat} :
    Climbs next bound (ns ++ ms) ↔ Climbs next bound ns ∧ Climbs next (ns.foldl next bound) ms := by
  induction ns generalizing bound with
  | nil => simp
  | cons n ns ih => simp [ih, and_assoc]

/-- Consecutive numbers climb from any bound their first one is within. -/
theorem range' (hnext : ∀ bound n, n < next bound n) (count : Nat) {start : Nat}
    (h : start ≤ bound) : Climbs next bound (List.range' start count) := by
  induction count generalizing bound start with
  | zero => trivial
  | succ count ih =>
    rw [List.range'_succ]
    exact ⟨h, ih (hnext bound start)⟩

/-- They leave the bound above the last of them. -/
theorem lt_foldl_range' (hnext : ∀ bound n, n < next bound n) (count start bound : Nat) :
    start + count < (List.range' start (count + 1)).foldl next bound := by
  induction count generalizing bound start with
  | zero => exact hnext bound start
  | succ count ih =>
    rw [List.range'_succ, List.foldl_cons]
    have h := ih (start + 1) (next bound start)
    omega

/-- A rising bound is never below where it started. -/
theorem le_foldl_rise (ns : List Nat) (bound : Nat) : bound ≤ ns.foldl rise bound := by
  induction ns generalizing bound with
  | nil => exact Nat.le_refl bound
  | cons n ns ih => exact Nat.le_trans (Nat.le_max_left _ _) (ih _)

end Climbs

end ChainIndexer
