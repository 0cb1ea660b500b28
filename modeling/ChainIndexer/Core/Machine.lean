import Mathlib.Data.List.Basic

/-!
# Runs of a machine whose events may be refused

A machine answers an event with its next state or refuses it. Everything the
environment decides is part of the event, so a run is determined by its events.
A guard restricts which events a run may take in which states. An invariant of
the guarded steps holds along every guarded run, and an executed event list is
a run.
-/

namespace ChainIndexer

universe u v

/-- A deterministic machine over events that carry every choice of the environment. -/
structure Machine (σ : Type u) (ε : Type v) where
  /-- The next state, or `none` where the event cannot happen. -/
  step : σ → ε → Option σ

namespace Machine

variable {σ : Type u} {ε : Type v} {m : Machine σ ε}

/-- The guard that admits every step. -/
def Free : σ → ε → Prop := fun _ _ => True

instance (s : σ) (e : ε) : Decidable (Free s e) := inferInstanceAs (Decidable True)

/-- Histories whose every step meets the guard, with their events in order. -/
inductive Run (m : Machine σ ε) (G : σ → ε → Prop) (s : σ) : List ε → σ → Prop
  | nil : Run m G s [] s
  | snoc {es t e u} : Run m G s es t → G t e → m.step t e = some u → Run m G s (es ++ [e]) u

/-- The states some guarded run reaches. -/
def Reach (m : Machine σ ε) (G : σ → ε → Prop) (s t : σ) : Prop := ∃ es, m.Run G s es t

theorem Reach.refl (G : σ → ε → Prop) (s : σ) : m.Reach G s s := ⟨[], .nil⟩

theorem Reach.step {G : σ → ε → Prop} {s t u : σ} {e : ε} (h : m.Reach G s t) (hg : G t e)
    (hs : m.step t e = some u) : m.Reach G s u := by
  obtain ⟨es, hr⟩ := h
  exact ⟨es ++ [e], hr.snoc hg hs⟩

/-- A weaker guard admits at least the same histories. -/
theorem Run.mono {G H : σ → ε → Prop} (himp : ∀ t e, G t e → H t e) {s t : σ} {es : List ε}
    (h : m.Run G s es t) : m.Run H s es t := by
  induction h with
  | nil => exact .nil
  | snoc _ hg hs ih => exact ih.snoc (himp _ _ hg) hs

/-- A nonempty history ends with a guarded step from the history without it. -/
theorem Run.snoc_inv {G : σ → ε → Prop} {s u : σ} {es : List ε} {e : ε}
    (h : m.Run G s (es ++ [e]) u) : ∃ t, m.Run G s es t ∧ G t e ∧ m.step t e = some u := by
  generalize hfs : es ++ [e] = fs at h
  cases h with
  | nil => simp at hfs
  | snoc hr hg hs =>
    obtain ⟨rfl, he⟩ := List.append_inj' hfs rfl
    obtain rfl : e = _ := List.head_eq_of_cons_eq he
    exact ⟨_, hr, hg, hs⟩

/-- An empty history stays where it starts. -/
theorem Run.nil_inv {G : σ → ε → Prop} {s u : σ} (h : m.Run G s [] u) : u = s := by
  generalize hfs : [] = fs at h
  cases h with
  | nil => rfl
  | snoc _ _ _ => simp at hfs

/-- The same events lead to the same state. -/
theorem Run.deterministic {G H : σ → ε → Prop} {s t u : σ} {es : List ε}
    (h : m.Run G s es t) (k : m.Run H s es u) : t = u := by
  induction h generalizing u with
  | nil => exact k.nil_inv.symm
  | snoc _ _ hs ih =>
    obtain ⟨v, kr, _, ks⟩ := k.snoc_inv
    rw [ih kr, ks] at hs
    exact (Option.some.inj hs).symm

/-- Histories over the same events meet two guards exactly when they meet both. -/
theorem Run.and_iff {G H : σ → ε → Prop} {s t : σ} {es : List ε} :
    m.Run (fun s e => G s e ∧ H s e) s es t ↔ m.Run G s es t ∧ m.Run H s es t := by
  constructor
  · intro h
    exact ⟨h.mono fun _ _ hg => hg.1, h.mono fun _ _ hg => hg.2⟩
  · rintro ⟨h, k⟩
    induction h with
    | nil => exact .nil
    | snoc hr hg hs ih =>
      obtain ⟨v, kr, kg, _⟩ := k.snoc_inv
      have hv := hr.deterministic kr
      subst hv
      exact (ih kr).snoc ⟨hg, kg⟩ hs

/-- A history can be continued by any history from its last state. -/
theorem Run.append {G : σ → ε → Prop} {s t u : σ} {es fs : List ε}
    (h : m.Run G s es t) (k : m.Run G t fs u) : m.Run G s (es ++ fs) u := by
  induction k with
  | nil => simpa using h
  | snoc _ hg hs ih =>
    rw [← List.append_assoc]
    exact ih.snoc hg hs

/-- A first step followed by a history is a history. -/
theorem Run.cons {G : σ → ε → Prop} {s t u : σ} {e : ε} {es : List ε}
    (hg : G s e) (hs : m.step s e = some t) (h : m.Run G t es u) : m.Run G s (e :: es) u :=
  Run.append (Run.snoc .nil hg hs) h

/-- A history passes through a state after each of its beginnings. -/
theorem Run.append_inv {G : σ → ε → Prop} {s u : σ} {es fs : List ε}
    (h : m.Run G s (es ++ fs) u) : ∃ t, m.Run G s es t ∧ m.Run G t fs u := by
  induction fs generalizing es with
  | nil => exact ⟨u, by simpa using h, .nil⟩
  | cons e fs ih =>
    rw [List.append_cons] at h
    obtain ⟨v, hv, hrest⟩ := ih h
    obtain ⟨t, ht, hg, hs⟩ := hv.snoc_inv
    exact ⟨t, ht, Run.cons hg hs hrest⟩

/-- A property of the start that guarded steps preserve holds along every guarded run. -/
theorem Run.invariant {G : σ → ε → Prop} {I : σ → Prop} {s t : σ} {es : List ε}
    (hstep : ∀ t e u, I t → G t e → m.step t e = some u → I u)
    (h : m.Run G s es t) (h0 : I s) : I t := by
  induction h with
  | nil => exact h0
  | snoc _ hg hs ih => exact hstep _ _ _ ih hg hs

/-- A history for one guard is one for another that the guarded invariant implies. -/
theorem Run.strengthen {G H : σ → ε → Prop} {I : σ → Prop} {s t : σ} {es : List ε}
    (hstep : ∀ t e u, I t → G t e → m.step t e = some u → I u)
    (himp : ∀ t e u, I t → G t e → m.step t e = some u → H t e)
    (h : m.Run G s es t) (h0 : I s) : m.Run H s es t := by
  induction h with
  | nil => exact .nil
  | snoc hr hg hs ih => exact ih.snoc (himp _ _ _ (hr.invariant hstep h0) hg hs) hs

/-- Along a history whose guard keeps an invariant, guards that agree on the steps from its
states admit the same histories. -/
theorem Run.congr {G H K : σ → ε → Prop} {I : σ → Prop} {s t : σ} {es : List ε}
    (h : m.Run K s es t) (h0 : I s)
    (hstep : ∀ t e u, I t → K t e → m.step t e = some u → I u)
    (hiff : ∀ t e u, I t → m.step t e = some u → (G t e ↔ H t e)) :
    m.Run G s es t ↔ m.Run H s es t := by
  have hkeep : ∀ {L : σ → ε → Prop} t e u, I t → K t e ∧ L t e → m.step t e = some u → I u :=
    fun t e u hi hg hs => hstep t e u hi hg.1 hs
  constructor
  · intro k
    exact (Run.and_iff.mpr ⟨h, k⟩).strengthen hkeep
      (fun t e u hi hg hs => (hiff t e u hi hs).mp hg.2) h0
  · intro k
    exact (Run.and_iff.mpr ⟨h, k⟩).strengthen hkeep
      (fun t e u hi hg hs => (hiff t e u hi hs).mpr hg.2) h0

/-- An invariant that also reads the events so far. -/
theorem Run.invariant_history {G : σ → ε → Prop} {I : List ε → σ → Prop} {s t : σ} {es : List ε}
    (hstep : ∀ fs t e u, I fs t → G t e → m.step t e = some u → I (fs ++ [e]) u)
    (h : m.Run G s es t) (h0 : I [] s) : I es t := by
  induction h with
  | nil => exact h0
  | snoc _ hg hs ih => exact hstep _ _ _ _ ih hg hs

/-- Let a step from a state of an invariant lead to a good state exactly when it meets a second
guard, and then keep the invariant; both may read the events so far. A history passes only good
states exactly when all its steps meet that guard. -/
theorem Run.always_iff_history {G H : σ → ε → Prop} {I J : List ε → σ → Prop} {s t : σ}
    {es : List ε} (hgood : ∀ fs t, I fs t → J fs t)
    (hstep : ∀ fs t e u, I fs t → G t e → m.step t e = some u →
      (J (fs ++ [e]) u ↔ H t e) ∧ (H t e → I (fs ++ [e]) u))
    (h : m.Run G s es t) (h0 : I [] s) :
    (∀ fs u, fs <+: es → m.Run G s fs u → J fs u) ↔
      m.Run (fun t e => G t e ∧ H t e) s es t := by
  have hkeep : ∀ fs t e u, I fs t → G t e ∧ H t e → m.step t e = some u → I (fs ++ [e]) u :=
    fun fs t e u hi hg hs => (hstep fs t e u hi hg.1 hs).2 hg.2
  constructor
  · intro hall
    induction h with
    | nil => exact .nil
    | snoc hr hg hs ih =>
      have hrun := ih fun fs u hfs => hall fs u (hfs.trans (List.prefix_append _ _))
      have hlast := hall _ _ (List.prefix_refl _) (hr.snoc hg hs)
      have hi := hrun.invariant_history hkeep h0
      exact hrun.snoc ⟨hg, ((hstep _ _ _ _ hi hg hs).1).mp hlast⟩ hs
  · intro hrun
    induction hrun with
    | nil =>
      intro fs u hfs k
      obtain rfl := List.prefix_nil.mp hfs
      rw [k.nil_inv]
      exact hgood _ _ h0
    | snoc hr hg hs ih =>
      intro fs u hfs k
      have hbefore := hr.mono fun _ _ hboth => hboth.1
      rcases List.prefix_concat_iff.mp hfs with rfl | hfs
      · obtain rfl := k.deterministic (hbefore.snoc hg.1 hs)
        exact hgood _ _ (hkeep _ _ _ _ (hr.invariant_history hkeep h0) hg hs)
      · exact ih hbefore fs u hfs k

/-- Let a step from a state of an invariant lead to a good state exactly when it meets a second
guard, and then keep the invariant. A history passes only good states exactly when all its steps
meet that guard. -/
theorem Run.always_iff {G H : σ → ε → Prop} {I J : σ → Prop} {s t : σ} {es : List ε}
    (hgood : ∀ t, I t → J t)
    (hstep : ∀ t e u, I t → G t e → m.step t e = some u → (J u ↔ H t e) ∧ (H t e → I u))
    (h : m.Run G s es t) (h0 : I s) :
    (∀ fs u, fs <+: es → m.Run G s fs u → J u) ↔ m.Run (fun t e => G t e ∧ H t e) s es t :=
  h.always_iff_history (I := fun _ => I) (J := fun _ => J) (fun _ => hgood) (fun _ => hstep) h0

/-- The guard that admits every step adds nothing to another one. -/
theorem Run.free_and_iff {H : σ → ε → Prop} {s t : σ} {es : List ε} :
    m.Run (fun t e => Free t e ∧ H t e) s es t ↔ m.Run H s es t :=
  ⟨fun hr => hr.mono fun _ _ hboth => hboth.2,
    fun hr => hr.mono fun _ _ hguard => ⟨trivial, hguard⟩⟩

/-- The same for the histories that no other guard restricts. -/
theorem Run.always_iff_guarded {H : σ → ε → Prop} {I J : σ → Prop} {s t : σ} {es : List ε}
    (hgood : ∀ t, I t → J t)
    (hstep : ∀ t e u, I t → m.step t e = some u → (J u ↔ H t e) ∧ (H t e → I u))
    (h : m.Run Free s es t) (h0 : I s) :
    (∀ fs u, fs <+: es → m.Run Free s fs u → J u) ↔ m.Run H s es t := by
  rw [h.always_iff hgood (fun t e u ht _ => hstep t e u ht) h0, Run.free_and_iff]

/-- Reachable states reach what is reachable from them. -/
theorem Reach.trans {G : σ → ε → Prop} {s t u : σ} (h : m.Reach G s t) (k : m.Reach G t u) :
    m.Reach G s u := by
  obtain ⟨es, hr⟩ := h
  obtain ⟨fs, kr⟩ := k
  exact ⟨es ++ fs, hr.append kr⟩

/-- One guarded step reaches its result. -/
theorem Reach.single {G : σ → ε → Prop} {s t : σ} {e : ε} (hg : G s e)
    (hs : m.step s e = some t) : m.Reach G s t :=
  (Reach.refl G s).step hg hs

/-- A view under which every guarded step of one machine is a guarded run of another carries
guarded runs over, together with the invariant the steps rely on. -/
theorem Run.simulate {τ : Type*} {δ : Type*} {n : Machine τ δ} {G : σ → ε → Prop}
    {H : τ → δ → Prop} {I : σ → Prop} (view : σ → τ) {s t : σ} {es : List ε}
    (hstep : ∀ t e u, I t → G t e → m.step t e = some u →
      I u ∧ n.Reach H (view t) (view u))
    (h : m.Run G s es t) (h0 : I s) : I t ∧ n.Reach H (view s) (view t) := by
  induction h with
  | nil => exact ⟨h0, Reach.refl H _⟩
  | snoc _ hg hs ih =>
    obtain ⟨hi, hreach⟩ := hstep _ _ _ ih.1 hg hs
    exact ⟨hi, ih.2.trans hreach⟩

/-- What every step keeps holds wherever the machine gets. -/
theorem Reach.invariant {G : σ → ε → Prop} {I : σ → Prop} {s t : σ}
    (hstep : ∀ t e u, I t → G t e → m.step t e = some u → I u)
    (h : m.Reach G s t) (h0 : I s) : I t := by
  obtain ⟨_, hr⟩ := h
  exact hr.invariant hstep h0

/-- Execute a list of events, refusing at the first refused or unguarded one. -/
def exec (m : Machine σ ε) (G : σ → ε → Prop) [∀ s e, Decidable (G s e)] :
    σ → List ε → Option σ
  | s, [] => some s
  | s, e :: es => if G s e then (m.step s e).bind fun t => exec m G t es else none

/-- A successful execution is a guarded run over the same events. -/
theorem Run.of_exec {G : σ → ε → Prop} [∀ s e, Decidable (G s e)] {s t : σ} {es : List ε}
    (h : m.exec G s es = some t) : m.Run G s es t := by
  induction es generalizing s with
  | nil =>
    cases h
    exact .nil
  | cons e es ih =>
    rw [exec] at h
    split at h
    · rename_i hg
      obtain ⟨u, hu, hrest⟩ := Option.bind_eq_some_iff.mp h
      exact Run.cons hg hu (ih hrest)
    · cases h

/-- An execution whose last state passes a test gives a run to such a state. -/
theorem exists_run_of_exec {G : σ → ε → Prop} [∀ s e, Decidable (G s e)] {s : σ}
    {es : List ε} {p : σ → Prop} [DecidablePred p]
    (h : (m.exec G s es).any (fun t => decide (p t)) = true) : ∃ t, m.Run G s es t ∧ p t := by
  cases he : m.exec G s es with
  | none => simp [he] at h
  | some t =>
    rw [he, Option.any_some, decide_eq_true_eq] at h
    exact ⟨t, Run.of_exec he, h⟩

/-- Among the states of an invariant, let every step end with a property exactly when it
starts with it and meets a second guard. The runs that end with the property are then those
that meet this guard, too. -/
theorem Run.iff_guarded {K G : σ → ε → Prop} {I J : σ → Prop} {s t : σ} {es : List ε}
    (hinv : ∀ t e u, J t → K t e → m.step t e = some u → J u)
    (hstep : ∀ t e u, J t → K t e → m.step t e = some u → (I u ↔ I t ∧ G t e))
    (h : m.Run K s es t) (hJ : J s) (hI : I s) : I t ↔ m.Run G s es t := by
  have hboth : J t ∧ (I t → m.Run G s es t) := by
    induction h with
    | nil => exact ⟨hJ, fun _ => .nil⟩
    | snoc _ hk hs ih =>
      refine ⟨hinv _ _ _ ih.1 hk hs, fun hu => ?_⟩
      obtain ⟨ht, hg⟩ := (hstep _ _ _ ih.1 hk hs).mp hu
      exact (ih.2 ht).snoc hg hs
  refine ⟨hboth.2, fun hr => ?_⟩
  have hkeep : ∀ t e u, J t ∧ I t → K t e ∧ G t e → m.step t e = some u → J u ∧ I u :=
    fun t e u hi hg hs => ⟨hinv t e u hi.1 hg.1 hs, (hstep t e u hi.1 hg.1 hs).mpr ⟨hi.2, hg.2⟩⟩
  exact ((Run.and_iff.mpr ⟨h, hr⟩).invariant hkeep ⟨hJ, hI⟩).2

end Machine

end ChainIndexer
