import ChainIndexer.Core.Program

/-!
# Attempts of a program

A program that is retried runs as failed attempts and a last one, which need not be alike. A program
may be part of one that also calls somebody else.
-/

namespace ChainIndexer

universe u v w x

namespace Program

variable {κ : Type u} {ρ : κ → Type v} {α ε : Type w}

/-- Go on with another attempt after an error, this often at most. The attempts are counted. -/
def attempts (p : Nat → Program κ ρ (Except ε α)) : Nat → Nat → Program κ ρ (Except ε α)
  | 0, count => p count
  | retries + 1, count => (p count).catching fun _ => attempts p retries (count + 1)

/-- The attempts of a run: failed ones, and a last one with the result. Only the last attempt of all
throws to the outside. -/
structure Attempted (p : Nat → Program κ ρ (Except ε α)) (retries count : Nat)
    (failed : List (List (Exchange ρ))) (last : List (Exchange ρ)) (result : Except ε α) :
    Prop where
  failures : ∀ i es, failed[i]? = some es → ∃ error, Runs (p (count + i)) es (.error error)
  ended : Runs (p (count + failed.length)) last result
  bounded : failed.length ≤ retries
  exhausted : ∀ error, result = .error error → failed.length = retries

/-- A run takes its attempts one after the other. -/
theorem Runs.attempted {p : Nat → Program κ ρ (Except ε α)} {retries count : Nat}
    {es : List (Exchange ρ)} {result : Except ε α} (h : Runs (attempts p retries count) es result) :
    ∃ failed last, es = failed.flatten ++ last ∧ Attempted p retries count failed last result := by
  induction retries generalizing count es with
  | zero =>
    exact ⟨[], es, rfl, fun _ _ hes => (by cases hes), h, Nat.le_refl 0, fun _ _ => rfl⟩
  | succ retries ih =>
    rw [attempts, catching, Runs.bind_iff] at h
    obtain ⟨first, outcome, rest, rfl, hp, hrest⟩ := h
    cases outcome with
    | ok value =>
      obtain ⟨rfl, rfl⟩ := hrest.done_inv
      exact ⟨[], first, by simp, fun _ _ hes => (by cases hes), hp, Nat.zero_le _,
        fun _ hthrown => (by cases hthrown)⟩
    | error error =>
      obtain ⟨failed, last, rfl, hattempted⟩ := ih hrest
      refine ⟨first :: failed, last, by simp, fun i es hes => ?_, ?_, ?_, fun thrown hthrown => ?_⟩
      · cases i with
        | zero =>
          obtain rfl := Option.some.inj hes
          exact ⟨error, hp⟩
        | succ i =>
          obtain ⟨other, hother⟩ := hattempted.failures i es hes
          exact ⟨other, by rwa [show count + (i + 1) = count + 1 + i by omega]⟩
      · rw [List.length_cons, show count + (failed.length + 1) = count + 1 + failed.length by omega]
        exact hattempted.ended
      · exact Nat.succ_le_succ hattempted.bounded
      · rw [List.length_cons, hattempted.exhausted thrown hthrown]

/-- An attempt of one call, repeated, makes this call again and again. -/
theorem Runs.retrying_replicate {p : Program κ ρ (Except ε α)} {k : κ}
    (hp : ∀ es result, Runs p es result → es.map Sigma.fst = [k]) {final : ε → Option ε}
    {retries : Nat} {es : List (Exchange ρ)} {result : Except ε α}
    (h : Runs (p.retrying final retries) es result) :
    ∃ n, 1 ≤ n ∧ n ≤ retries + 1 ∧ es.map Sigma.fst = List.replicate n k := by
  induction retries generalizing es with
  | zero =>
    rw [retrying, catching, Runs.bind_iff] at h
    obtain ⟨first, outcome, rest, rfl, hfirst, hrest⟩ := h
    obtain rfl : rest = [] := by
      cases outcome with
      | ok value => exact hrest.done_inv.1
      | error error => exact hrest.done_inv.1
    exact ⟨1, Nat.le_refl 1, Nat.le_refl 1, by simp [hp _ _ hfirst]⟩
  | succ retries ih =>
    rw [retrying, catching, Runs.bind_iff] at h
    obtain ⟨first, outcome, rest, rfl, hfirst, hrest⟩ := h
    have hnil : rest = [] → ∃ n, 1 ≤ n ∧ n ≤ retries + 1 + 1 ∧
        (first ++ rest).map Sigma.fst = List.replicate n k := by
      rintro rfl
      exact ⟨1, Nat.le_refl 1, by omega, by simp [hp _ _ hfirst]⟩
    cases outcome with
    | ok value => exact hnil hrest.done_inv.1
    | error error =>
      dsimp only at hrest
      split at hrest
      · exact hnil hrest.done_inv.1
      · obtain ⟨n, hpos, hle, hcalls⟩ := ih hrest
        refine ⟨n + 1, by omega, by omega, ?_⟩
        rw [List.map_append, hp _ _ hfirst, hcalls, List.replicate_succ, List.singleton_append]

/-! ## Two parties -/

variable {κ' : Type u} {ρ' : κ' → Type v}

/-- A program of the second party's calls. -/
def right : Program κ' ρ' α → Program (κ ⊕ κ') (Sum.elim ρ ρ') α
  | .done value => .done value
  | .call k next => .call (.inr k) fun answer => (next answer).right

/-- A call of the second party with its answer. -/
def Exchange.right (e : Exchange ρ') : Exchange (Sum.elim ρ ρ') := ⟨.inr e.1, e.2⟩

/-- A program embedded on the right makes exchanges of its own kind only. -/
theorem runs_right_iff {p : Program κ' ρ' α} {es : List (Exchange (Sum.elim ρ ρ'))} {value : α} :
    Runs p.right es value ↔ ∃ own, es = own.map Exchange.right ∧ Runs p own value := by
  induction p generalizing es with
  | done result =>
    constructor
    · intro h
      obtain ⟨rfl, rfl⟩ := h.done_inv
      exact ⟨[], rfl, .done⟩
    · rintro ⟨own, rfl, h⟩
      obtain ⟨rfl, rfl⟩ := h.done_inv
      exact .done
  | call k next ih =>
    constructor
    · intro h
      obtain ⟨answer, rest, rfl, hrest⟩ := h.call_inv
      obtain ⟨own, rfl, hown⟩ := (ih answer).mp hrest
      exact ⟨⟨k, answer⟩ :: own, rfl, .call hown⟩
    · rintro ⟨own, rfl, h⟩
      obtain ⟨answer, rest, rfl, hrest⟩ := h.call_inv
      exact .call ((ih answer).mpr ⟨rest, rfl, hrest⟩)

end Program

end ChainIndexer
