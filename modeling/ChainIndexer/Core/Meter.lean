import ChainIndexer.Core.Program

/-!
# Programs under a meter

A meter reads the exchanges of a program and bounds what it has read. A program is exact for a guard
on single exchanges when its runs stay within the bounds exactly if all their exchanges meet the
guard. The rules below decide it call by call: after an exchange that meets the guard the rest is
exact again, and after any other the rest is doomed.
-/

namespace ChainIndexer

universe u v w x

/-- A meter with its bounds, and a guard on what it reads next. -/
structure Meter {κ : Type u} (ρ : κ → Type v) (τ : Type x) (α : Type w) where
  record : τ → Program.Exchange ρ → τ
  /-- What must hold after every exchange. -/
  Within : τ → Prop
  /-- What must hold of the result in the end. -/
  Fits : τ → α → Prop
  Guard : τ → Program.Exchange ρ → Prop

namespace Meter

open Program (Exchange Runs)

variable {κ : Type u} {ρ : κ → Type v} {τ : Type x} {α : Type w} {m : Meter ρ τ α}

/-- From this reading on the bounds are kept. -/
def Keeps (m : Meter ρ τ α) : τ → List (Exchange ρ) → α → Prop
  | t, [], value => m.Fits t value
  | t, e :: es, value => m.Within (m.record t e) ∧ m.Keeps (m.record t e) es value

/-- From this reading on every exchange meets the guard. -/
def Heeds (m : Meter ρ τ α) : τ → List (Exchange ρ) → Prop
  | _, [] => True
  | t, e :: es => m.Guard t e ∧ m.Heeds (m.record t e) es

instance decidableKeeps [∀ t, Decidable (m.Within t)] [∀ t value, Decidable (m.Fits t value)] :
    ∀ t es value, Decidable (m.Keeps t es value)
  | _, [], _ => inferInstanceAs (Decidable (m.Fits _ _))
  | t, e :: es, value =>
    have := decidableKeeps (m.record t e) es value
    inferInstanceAs (Decidable (_ ∧ _))

instance decidableHeeds [∀ t e, Decidable (m.Guard t e)] : ∀ t es, Decidable (m.Heeds t es)
  | _, [] => .isTrue trivial
  | t, e :: es =>
    have := decidableHeeds (m.record t e) es
    inferInstanceAs (Decidable (_ ∧ _))

/-- A run stays within the bounds exactly if its exchanges meet the guard. -/
def Exact (m : Meter ρ τ α) (p : Program κ ρ α) (t : τ) : Prop :=
  ∀ es value, Runs p es value → (m.Keeps t es value ↔ m.Heeds t es)

/-- No run stays within the bounds. -/
def Doomed (m : Meter ρ τ α) (p : Program κ ρ α) (t : τ) : Prop :=
  ∀ es value, Runs p es value → ¬ m.Keeps t es value

/-- The condition decides whether the program is exact or doomed. -/
def Decides (m : Meter ρ τ α) (c : Prop) (p : Program κ ρ α) (t : τ) : Prop :=
  (c → m.Exact p t) ∧ (¬ c → m.Doomed p t)

variable {p : Program κ ρ α} {t : τ} {c d : Prop} {k : κ} {next : ρ k → Program κ ρ α}

/-- An exact program is decided by what holds. -/
theorem Exact.decides (h : m.Exact p t) (hc : c) : m.Decides c p t := ⟨fun _ => h, absurd hc⟩

/-- A doomed one is decided by what does not. -/
theorem Doomed.decides (h : m.Doomed p t) (hc : ¬ c) : m.Decides c p t :=
  ⟨fun holds => absurd holds hc, fun _ => h⟩

/-- An equivalent condition decides as well. -/
theorem Decides.congr (h : m.Decides c p t) (hcd : c ↔ d) : m.Decides d p t :=
  ⟨fun hd => h.1 (hcd.mpr hd), fun hd => h.2 fun hc => hd (hcd.mp hc)⟩

/-- At its end a program is exact if the result fits, and doomed if it does not. -/
theorem Decides.done (value : α) (t : τ) : m.Decides (m.Fits t value) (.done value) t := by
  constructor
  · intro hfits es result hr
    obtain ⟨rfl, rfl⟩ := hr.done_inv
    exact iff_of_true hfits trivial
  · intro hfits es result hr hkeeps
    obtain ⟨rfl, rfl⟩ := hr.done_inv
    exact hfits hkeeps

/-- A call is exact if its guard keeps the bounds and decides what comes after the answer. -/
theorem Exact.call (h : ∀ answer,
    (m.Guard t ⟨k, answer⟩ → m.Within (m.record t ⟨k, answer⟩)) ∧
      m.Decides (m.Guard t ⟨k, answer⟩) (next answer) (m.record t ⟨k, answer⟩)) :
    m.Exact (.call k next) t := by
  intro es value hr
  obtain ⟨answer, rest, rfl, hrest⟩ := hr.call_inv
  obtain ⟨hwithin, hexact, hdoomed⟩ := h answer
  by_cases hguard : m.Guard t ⟨k, answer⟩
  · have hiff := hexact hguard rest value hrest
    exact ⟨fun hkeeps => ⟨hguard, hiff.mp hkeeps.2⟩,
      fun hheeds => ⟨hwithin hguard, hiff.mpr hheeds.2⟩⟩
  · exact iff_of_false (fun hkeeps => hdoomed hguard rest value hrest hkeeps.2)
      fun hheeds => hguard hheeds.1

/-- A call beyond the bounds is doomed. -/
theorem Doomed.call (h : ∀ answer, ¬ m.Within (m.record t ⟨k, answer⟩)) :
    m.Doomed (.call k next) t := by
  intro es value hr hkeeps
  obtain ⟨answer, rest, rfl, _⟩ := hr.call_inv
  exact h answer hkeeps.1

end Meter

end ChainIndexer
