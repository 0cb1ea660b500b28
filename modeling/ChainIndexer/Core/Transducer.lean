import Mathlib.Data.List.Basic

/-!
# Objects that answer their calls

An object answers every call at once and goes to its next state. Two objects whose related states
answer alike and stay related answer every sequence of calls alike.
-/

namespace ChainIndexer

universe u v w x

/-- An object: what it answers to a call, and its next state. -/
abbrev Transducer (σ : Type u) (ι : Type v) (ω : Type w) := σ → ι → ω × σ

namespace Transducer

variable {σ : Type u} {τ : Type x} {ι : Type v} {ω : Type w}

/-- The answers to a sequence of calls, and the state after them. -/
def runs (m : Transducer σ ι ω) : σ → List ι → List ω × σ
  | s, [] => ([], s)
  | s, i :: is =>
    let rest := m.runs (m s i).2 is
    ((m s i).1 :: rest.1, rest.2)

/-- Every admitted call keeps two objects related, and they answer it alike. -/
def Simulates (m : Transducer σ ι ω) (n : Transducer τ ι ω) (R : σ → τ → Prop) (P : ι → Prop) :
    Prop :=
  ∀ s t i, R s t → P i → (m s i).1 = (n t i).1 ∧ R (m s i).2 (n t i).2

/-- Objects that simulate each other answer a sequence of calls alike and end related. -/
theorem Simulates.runs {m : Transducer σ ι ω} {n : Transducer τ ι ω} {R : σ → τ → Prop}
    {P : ι → Prop} (h : Simulates m n R P) {s : σ} {t : τ} (hst : R s t) {is : List ι}
    (his : ∀ i ∈ is, P i) :
    (m.runs s is).1 = (n.runs t is).1 ∧ R (m.runs s is).2 (n.runs t is).2 := by
  induction is generalizing s t with
  | nil => exact ⟨rfl, hst⟩
  | cons i is ih =>
    obtain ⟨hfirst, hnext⟩ := h s t i hst (his i List.mem_cons_self)
    obtain ⟨hanswers, hlast⟩ := ih hnext fun j hj => his j (List.mem_cons_of_mem i hj)
    refine ⟨?_, hlast⟩
    rw [Transducer.runs, Transducer.runs, hfirst, hanswers]

end Transducer

end ChainIndexer
