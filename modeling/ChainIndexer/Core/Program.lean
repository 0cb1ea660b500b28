import Mathlib.Data.List.Basic

/-!
# Programs that call another party

A program is done, or it calls and goes on with whatever is answered. A run lists the calls with
their answers. The rules below take a run apart along the program: a sequence, an error that is
caught, an attempt that is repeated.
-/

namespace ChainIndexer

universe u v w

/-- A program whose calls `k` are answered by the type `ρ k`. -/
inductive Program (κ : Type u) (ρ : κ → Type v) (α : Type w) where
  | done (value : α)
  | call (k : κ) (next : ρ k → Program κ ρ α)

namespace Program

variable {κ : Type u} {ρ : κ → Type v} {α β ε : Type w}

/-- A call with its answer. -/
abbrev Exchange (ρ : κ → Type v) := Σ k, ρ k

/-- The program does this, calling and being answered like this. -/
inductive Runs : Program κ ρ α → List (Exchange ρ) → α → Prop
  | done {value} : Runs (.done value) [] value
  | call {k next answer es value} : Runs (next answer) es value →
    Runs (.call k next) (⟨k, answer⟩ :: es) value

/-- Go on with the result. -/
def bind : Program κ ρ α → (α → Program κ ρ β) → Program κ ρ β
  | .done value, f => f value
  | .call k next, f => .call k fun answer => (next answer).bind f

/-- Throw an error. -/
def throw (error : ε) : Program κ ρ (Except ε α) := .done (.error error)

/-- Go on with a result, not with an error. -/
def andThen (p : Program κ ρ (Except ε α)) (f : α → Program κ ρ (Except ε β)) :
    Program κ ρ (Except ε β) :=
  p.bind fun result => match result with
    | .ok value => f value
    | .error error => throw error

/-- Go on with an error, not with a result. -/
def catching (p : Program κ ρ (Except ε α)) (handler : ε → Program κ ρ (Except ε α)) :
    Program κ ρ (Except ε α) :=
  p.bind fun result => match result with
    | .ok value => .done (.ok value)
    | .error error => handler error

/-- Repeat the program after an error, this often at most. An error that is final in another form
is thrown in that form at once. -/
def retrying (p : Program κ ρ (Except ε α)) (final : ε → Option ε) :
    Nat → Program κ ρ (Except ε α)
  | 0 => p.catching fun error => throw ((final error).getD error)
  | retries + 1 => p.catching fun error => match final error with
    | some other => throw other
    | none => retrying p final retries

/-- A program that is done exchanges nothing more. -/
theorem Runs.done_inv {value result : α} {es : List (Exchange ρ)}
    (h : Runs (.done value : Program κ ρ α) es result) : es = [] ∧ result = value := by
  cases h
  exact ⟨rfl, rfl⟩

/-- A call gets one answer, and the program goes on with it. -/
theorem Runs.call_inv {k : κ} {next : ρ k → Program κ ρ α} {es : List (Exchange ρ)} {result : α}
    (h : Runs (.call k next) es result) :
    ∃ answer rest, es = ⟨k, answer⟩ :: rest ∧ Runs (next answer) rest result := by
  cases h with
  | call h => exact ⟨_, _, rfl, h⟩

/-- It does not matter how a sequence is grouped. -/
theorem bind_assoc {γ : Type w} (p : Program κ ρ α) (f : α → Program κ ρ β)
    (g : β → Program κ ρ γ) : (p.bind f).bind g = p.bind fun value => (f value).bind g := by
  induction p with
  | done value => rfl
  | call k next ih =>
    simp only [bind]
    congr 1
    funext answer
    exact ih answer

/-- What follows a sequence follows its second part, or the error of its first part. -/
theorem andThen_bind {γ : Type w} (p : Program κ ρ (Except ε α))
    (f : α → Program κ ρ (Except ε β)) (g : Except ε β → Program κ ρ γ) :
    (p.andThen f).bind g = p.bind fun result => match result with
      | .ok value => (f value).bind g
      | .error error => g (.error error) := by
  rw [andThen, bind_assoc]
  congr 1
  funext result
  cases result with
  | ok value => rfl
  | error error => rfl

/-- A sequence runs as its parts, one after the other. -/
theorem Runs.bind_iff {p : Program κ ρ α} {f : α → Program κ ρ β} {es : List (Exchange ρ)}
    {result : β} : Runs (p.bind f) es result ↔
      ∃ first value rest, es = first ++ rest ∧ Runs p first value ∧ Runs (f value) rest result := by
  induction p generalizing es with
  | done value =>
    constructor
    · intro h
      exact ⟨[], value, es, rfl, .done, h⟩
    · rintro ⟨first, other, rest, rfl, hp, hf⟩
      obtain ⟨rfl, rfl⟩ := hp.done_inv
      exact hf
  | call k next ih =>
    constructor
    · intro h
      obtain ⟨answer, tail, rfl, htail⟩ := h.call_inv
      obtain ⟨first, value, rest, rfl, hp, hf⟩ := (ih answer).mp htail
      exact ⟨⟨k, answer⟩ :: first, value, rest, rfl, .call hp, hf⟩
    · rintro ⟨first, value, rest, rfl, hp, hf⟩
      obtain ⟨answer, tail, rfl, htail⟩ := hp.call_inv
      exact .call ((ih answer).mpr ⟨tail, value, rest, rfl, htail, hf⟩)

/-- A sequence has a result exactly when both parts have. -/
theorem Runs.andThen_ok {p : Program κ ρ (Except ε α)} {f : α → Program κ ρ (Except ε β)}
    {es : List (Exchange ρ)} {result : β} : Runs (p.andThen f) es (.ok result) ↔
      ∃ first value rest, es = first ++ rest ∧ Runs p first (.ok value) ∧
        Runs (f value) rest (.ok result) := by
  rw [andThen, Runs.bind_iff]
  constructor
  · rintro ⟨first, outcome, rest, rfl, hp, hf⟩
    cases outcome with
    | ok value => exact ⟨first, value, rest, rfl, hp, hf⟩
    | error error =>
      obtain ⟨_, hresult⟩ := hf.done_inv
      cases hresult
  · rintro ⟨first, value, rest, rfl, hp, hf⟩
    exact ⟨first, .ok value, rest, rfl, hp, hf⟩

/-- With a handler there is a result if the program has one, or if the handler has. -/
theorem Runs.catching_ok {p : Program κ ρ (Except ε α)} {handler : ε → Program κ ρ (Except ε α)}
    {es : List (Exchange ρ)} {result : α} : Runs (p.catching handler) es (.ok result) ↔
      Runs p es (.ok result) ∨ ∃ first error rest, es = first ++ rest ∧
        Runs p first (.error error) ∧ Runs (handler error) rest (.ok result) := by
  rw [catching, Runs.bind_iff]
  constructor
  · rintro ⟨first, outcome, rest, rfl, hp, hf⟩
    cases outcome with
    | ok value =>
      obtain ⟨rfl, hresult⟩ := hf.done_inv
      cases hresult
      rw [List.append_nil]
      exact Or.inl hp
    | error error => exact Or.inr ⟨first, error, rest, rfl, hp, hf⟩
  · rintro (hp | ⟨first, error, rest, rfl, hp, hf⟩)
    · exact ⟨es, .ok result, [], (List.append_nil _).symm, hp, .done⟩
    · exact ⟨first, .error error, rest, rfl, hp, hf⟩

/-- A result of repeated attempts is the result of the last one, and those before it have failed. -/
theorem Runs.retrying_ok {p : Program κ ρ (Except ε α)} {final : ε → Option ε} {retries : Nat}
    {es : List (Exchange ρ)} {result : α} (h : Runs (p.retrying final retries) es (.ok result)) :
    ∃ (failed : List (List (Exchange ρ))) (last : List (Exchange ρ)),
      es = failed.flatten ++ last ∧ failed.length ≤ retries ∧
      (∀ attempt ∈ failed, ∃ error, Runs p attempt (.error error)) ∧ Runs p last (.ok result) := by
  induction retries generalizing es with
  | zero =>
    rcases Runs.catching_ok.mp h with hp | ⟨first, error, rest, rfl, _, hthrow⟩
    · exact ⟨[], es, rfl, Nat.le_refl 0, nofun, hp⟩
    · cases hthrow.done_inv.2
  | succ retries ih =>
    rcases Runs.catching_ok.mp h with hp | ⟨first, error, rest, rfl, hfirst, hrest⟩
    · exact ⟨[], es, rfl, Nat.zero_le _, nofun, hp⟩
    · split at hrest
      · cases hrest.done_inv.2
      · obtain ⟨failed, last, rfl, hle, hfailed, hp⟩ := ih hrest
        refine ⟨first :: failed, last, ?_, Nat.succ_le_succ hle, ?_, hp⟩
        · rw [List.flatten_cons, List.append_assoc]
        · exact List.forall_mem_cons.mpr ⟨⟨error, hfirst⟩, hfailed⟩

end Program

end ChainIndexer
