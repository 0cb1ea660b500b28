import ChainIndexer.Core.Program

/-!
# Programs that call a service

A service has a state, and it answers a call in any of the ways its law admits. A program executes
on it call by call. The rules below take an execution apart along the program, with the state of the
service in between.
-/

namespace ChainIndexer

universe u v w x

/-- The law of a service: from a state it answers a call and goes to another state. -/
abbrev Service (κ : Type u) (ρ : κ → Type v) (σ : Type x) := σ → (k : κ) → ρ k → σ → Prop

namespace Service

variable {κ : Type u} {ρ : κ → Type v} {σ : Type x} {α β ε : Type w} {serves : Service κ ρ σ}

/-- The program executes on the service, from a state to a result and a state. -/
inductive Executes (serves : Service κ ρ σ) : Program κ ρ α → σ → α → σ → Prop
  | done {value s} : Executes serves (.done value) s value s
  | call {k next answer s t u value} : serves s k answer t →
    Executes serves (next answer) t value u → Executes serves (.call k next) s value u

@[simp] theorem Executes.done_iff {value result : α} {s t : σ} :
    Executes serves (.done value) s result t ↔ result = value ∧ t = s := by
  constructor
  · intro h
    cases h
    exact ⟨rfl, rfl⟩
  · rintro ⟨rfl, rfl⟩
    exact .done

/-- A call is served, and the program goes on with the answer. -/
theorem Executes.call_iff {k : κ} {next : ρ k → Program κ ρ α} {s u : σ} {result : α} :
    Executes serves (.call k next) s result u ↔
      ∃ answer t, serves s k answer t ∧ Executes serves (next answer) t result u := by
  constructor
  · intro h
    cases h with
    | call hserves hnext => exact ⟨_, _, hserves, hnext⟩
  · rintro ⟨answer, t, hserves, hnext⟩
    exact .call hserves hnext

/-- A sequence executes as its parts, one after the other. -/
theorem Executes.bind_iff {p : Program κ ρ α} {f : α → Program κ ρ β} {s u : σ} {result : β} :
    Executes serves (p.bind f) s result u ↔
      ∃ value t, Executes serves p s value t ∧ Executes serves (f value) t result u := by
  induction p generalizing s with
  | done value =>
    constructor
    · exact fun h => ⟨value, s, .done, h⟩
    · rintro ⟨other, t, hp, hf⟩
      obtain ⟨rfl, rfl⟩ := Executes.done_iff.mp hp
      exact hf
  | call k next ih =>
    constructor
    · intro h
      obtain ⟨answer, t, hserves, hrest⟩ := Executes.call_iff.mp h
      obtain ⟨value, v, hp, hf⟩ := (ih answer).mp hrest
      exact ⟨value, v, .call hserves hp, hf⟩
    · rintro ⟨value, v, hp, hf⟩
      obtain ⟨answer, t, hserves, hrest⟩ := Executes.call_iff.mp hp
      exact .call hserves ((ih answer).mpr ⟨value, v, hrest, hf⟩)

/-- A sequence ends with a result after a result, and with an error of either part. -/
theorem Executes.andThen_iff {p : Program κ ρ (Except ε α)} {f : α → Program κ ρ (Except ε β)}
    {s u : σ} {result : Except ε β} :
    Executes serves (p.andThen f) s result u ↔
      (∃ value t, Executes serves p s (.ok value) t ∧ Executes serves (f value) t result u) ∨
        ∃ error, Executes serves p s (.error error) u ∧ result = .error error := by
  rw [Program.andThen, Executes.bind_iff]
  constructor
  · rintro ⟨outcome, t, hp, hf⟩
    cases outcome with
    | ok value => exact Or.inl ⟨value, t, hp, hf⟩
    | error error =>
      obtain ⟨rfl, rfl⟩ := Executes.done_iff.mp hf
      exact Or.inr ⟨error, hp, rfl⟩
  · rintro (⟨value, t, hp, hf⟩ | ⟨error, hp, rfl⟩)
    · exact ⟨.ok value, t, hp, hf⟩
    · exact ⟨.error error, u, hp, .done⟩

end Service

end ChainIndexer
