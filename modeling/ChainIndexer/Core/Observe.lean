import ChainIndexer.Core.Machine

/-!
# A record beside a machine

The record is updated from every step and never read by the machine. The runs of
the machine are therefore exactly the runs with the record, and a property of the
record is proved like any other invariant.
-/

namespace ChainIndexer.Machine

universe u v w

variable {σ : Type u} {ε : Type v} {ω : Type w} {m : Machine σ ε}

/-- The machine with a record of its steps. -/
def observe (m : Machine σ ε) (record : σ → ε → σ → ω → ω) : Machine (σ × ω) ε where
  step p e := (m.step p.1 e).map fun t => (t, record p.1 e t p.2)

variable {record : σ → ε → σ → ω → ω} {s t : σ} {r q : ω} {e : ε} {es : List ε}

/-- A step of the observed machine is a step, and its record. -/
theorem observe_step : (m.observe record).step (s, r) e = some (t, q) ↔
    m.step s e = some t ∧ record s e t r = q := by
  rw [observe, Option.map_eq_some_iff]
  constructor
  · rintro ⟨u, hu, heq⟩
    obtain ⟨rfl, rfl⟩ := Prod.mk.inj heq
    exact ⟨hu, rfl⟩
  · rintro ⟨hs, rfl⟩
    exact ⟨t, hs, rfl⟩

/-- A step of the machine is a step with the record. -/
theorem observe_of_step (h : m.step s e = some t) (r : ω) :
    (m.observe record).step (s, r) e = some (t, record s e t r) :=
  observe_step.mpr ⟨h, rfl⟩

/-- Every run of the machine has a record. -/
theorem Run.observe {G : σ → ε → Prop} (h : m.Run G s es t) (record : σ → ε → σ → ω → ω)
    (r : ω) :
    ∃ q, (m.observe record).Run (fun p e => G p.1 e) (s, r) es (t, q) := by
  induction h with
  | nil => exact ⟨r, .nil⟩
  | snoc _ hg hs ih =>
    obtain ⟨q, hr⟩ := ih
    exact ⟨_, hr.snoc hg (observe_of_step hs q)⟩

/-- A run with a record is one of the machine. -/
theorem Run.of_observe {G : σ → ε → Prop} {p q : σ × ω}
    (h : (m.observe record).Run (fun p e => G p.1 e) p es q) : m.Run G p.1 es q.1 := by
  induction h with
  | nil => exact .nil
  | snoc _ hg hs ih => exact ih.snoc hg (observe_step.mp hs).1

end ChainIndexer.Machine
