import Mathlib.Data.List.Basic

/-!
# Actions that are retried

An action is attempted until it succeeds, fails with a final error or has been
retried as often as the limit allows. A script says how each attempt ends. Who
makes the attempts, and when, is left open: only how many have failed matters.
-/

namespace ChainIndexer.Retry

universe u

variable {ε : Type u}

/-- What comes of an action: success, or the error of the last attempt. -/
def verdict (final : ε → Bool) : Nat → (Nat → Option ε) → Except ε Unit
  | 0, script => match script 0 with
    | none => .ok ()
    | some error => .error error
  | limit + 1, script => match script 0 with
    | none => .ok ()
    | some error =>
      if final error then .error error else verdict final limit fun i => script (i + 1)

/-- The first attempts fail, none of them with a final error. -/
def Failed (final : ε → Bool) (script : Nat → Option ε) (n : Nat) : Prop :=
  ∀ i < n, ∃ error, script i = some error ∧ final error = false

/-- So many attempts may have been made: at most one more than the limit, and another one only
after errors that are not final. -/
structure Tried (final : ε → Bool) (limit : Nat) (script : Nat → Option ε) (n : Nat) : Prop where
  bounded : n ≤ limit + 1
  failed : Failed final script (n - 1)

variable {final : ε → Bool} {limit n : Nat} {script : Nat → Option ε} {error : ε}

theorem Failed.zero : Failed final script 0 := nofun

/-- One more failure with an error that is not final. -/
theorem Failed.succ (h : Failed final script n) (hn : script n = some error)
    (hmild : final error = false) : Failed final script (n + 1) := by
  intro i hi
  rcases Nat.lt_succ_iff_lt_or_eq.mp hi with hlt | rfl
  · exact h i hlt
  · exact ⟨error, hn, hmild⟩

theorem Tried.zero : Tried final limit script 0 := ⟨Nat.zero_le _, Failed.zero⟩

/-- An attempt after failures within the limit. -/
theorem Failed.tried (h : Failed final script n) (hn : n ≤ limit) :
    Tried final limit script (n + 1) :=
  ⟨Nat.succ_le_succ hn, h⟩

/-- Attempts that failed do not matter to the verdict. -/
theorem Failed.verdict_eq (h : Failed final script n) (hn : n ≤ limit) :
    verdict final limit script = verdict final (limit - n) fun i => script (i + n) := by
  induction n generalizing limit script with
  | zero => rfl
  | succ n ih =>
    obtain ⟨rest, rfl⟩ : ∃ rest, limit = rest + 1 := ⟨limit - 1, by omega⟩
    obtain ⟨error, herror, hmild⟩ := h 0 (Nat.succ_pos n)
    have htail : Failed final (fun i => script (i + 1)) n :=
      fun i hi => h (i + 1) (Nat.succ_lt_succ hi)
    have hskip : verdict final (rest + 1) script = verdict final rest fun i => script (i + 1) := by
      simp [verdict, herror, hmild]
    rw [hskip, ih htail (by omega), Nat.add_sub_add_right]
    simp only [Nat.add_assoc]

/-- The attempt that succeeds decides. -/
theorem Failed.verdict_ok (h : Failed final script n) (hn : n ≤ limit) (hscript : script n = none) :
    verdict final limit script = .ok () := by
  rw [h.verdict_eq hn]
  cases limit - n <;> simp [verdict, hscript]

/-- The attempt after which none is made decides. -/
theorem Failed.verdict_error (h : Failed final script n) (hn : n ≤ limit)
    (hscript : script n = some error) (hlast : limit ≤ n ∨ final error = true) :
    verdict final limit script = .error error := by
  rw [h.verdict_eq hn]
  cases hrest : limit - n with
  | zero => simp [verdict, hscript]
  | succ rest =>
    have hfinal : final error = true := hlast.resolve_left (by omega)
    simp [verdict, hscript, hfinal]

end ChainIndexer.Retry
