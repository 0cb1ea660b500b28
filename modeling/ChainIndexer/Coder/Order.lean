import ChainIndexer.Coder.State
import Mathlib.Data.List.Basic

/-!
# The order of the answers

While the type is missing every call passes through the same queues, so the calls that wait are
answered in the order in which they were made. Only a call that finds the type assigned is answered
at once. It overtakes the others if the first of those that awaited the load has run and the last
of them has not, which calls from outside a continuation never see.
-/

namespace ChainIndexer.Coder

variable {β μ : Type} {s t : State β μ} {e : Event β μ}

/-- The call whose `loadType` a continuation goes on with. -/
def Task.loading : Task β μ → Option Nat
  | .loadType call _ => some call
  | .resume _ _ => none

/-- The call that a continuation answers. -/
def Task.resuming : Task β μ → Option Nat
  | .loadType _ _ => none
  | .resume call _ => some call

/-- The calls that await the library. -/
def waiting (s : State β μ) : List Nat :=
  match s.loadPromise with
  | some (.pending waiting) => waiting
  | some (.settled _) | none => []

/-- The calls without an answer, the next to be answered first. -/
def line (s : State β μ) : List Nat :=
  s.tasks.filterMap Task.resuming ++ s.tasks.filterMap Task.loading ++ waiting s

/-- The calls with an answer, in the order of their answers. -/
def answered (s : State β μ) : List Nat :=
  s.settled.map Prod.fst

/-- A continuation goes on with what the promise of the load is settled with, or with the error of
a path that was not found. -/
def Due (s : State β μ) : Task β μ → Prop
  | .loadType _ result => s.loadPromise = some (.settled result)
  | .resume _ (.ok type) => s.loadPromise = some (.settled (.ok type))
  | .resume _ (.error error) => ∃ cause, error = loadFailed cause

/-- What holds in every state. -/
structure Kept (s : State β μ) : Prop where
  typed : ∀ type, s.protobufType = some type → s.loadPromise = some (.settled (.ok type))
  due : ∀ task ∈ s.tasks, Due s task
  loads : s.loads = if s.loadPromise.isSome then 1 else 0

theorem Kept.init : Kept (State.init : State β μ) where
  typed := nofun
  due := nofun
  loads := rfl

/-- The promise of the load is settled once. -/
theorem Moves.settled_kept (h : Moves s e t) {result : Except String (ProtobufType β μ)}
    (hload : s.loadPromise = some (.settled result)) :
    t.loadPromise = some (.settled result) := by
  cases h with
  | immediate | follows | continues | serves | refuses => exact hload
  | joins _ hpending | loaded hpending =>
    rw [hload] at hpending
    cases hpending
  | unresolved _ hnone | first _ hnone =>
    rw [hload] at hnone
    cases hnone

/-- A continuation that is due stays due. -/
theorem Due.step (h : Moves s e t) {task : Task β μ} (hdue : Due s task) : Due t task := by
  match task, hdue with
  | .loadType _ _, hdue => exact h.settled_kept hdue
  | .resume _ (.ok _), hdue => exact h.settled_kept hdue
  | .resume _ (.error _), hdue => exact hdue

/-- A continuation of `loadType` hands on what it was given. -/
theorem Due.continue {call : Nat} {result : Except String (ProtobufType β μ)}
    (hdue : Due s (.loadType call result)) : Due s (.resume call (result.mapError loadFailed)) := by
  cases result with
  | ok type => exact hdue
  | error cause => exact ⟨cause, rfl⟩

/-- Every event leaves only continuations that are due. -/
theorem Moves.due (hdue : ∀ task ∈ s.tasks, Due s task) (h : Moves s e t) :
    ∀ task ∈ t.tasks, Due t task := by
  have hold : ∀ task ∈ s.tasks, Due t task := fun task htask => (hdue task htask).step h
  have hnew : ∀ task, (∀ old ∈ s.tasks, Due t old) → Due t task →
      ∀ due ∈ s.tasks ++ [task], Due t due := by
    intro task hall htask
    exact List.forall_mem_append.mpr ⟨hall, List.forall_mem_singleton.mpr htask⟩
  cases h with
  | immediate | joins | first => exact hold
  | follows _ hload => exact hnew _ hold hload
  | unresolved => exact hnew _ hold ⟨_, rfl⟩
  | loaded =>
    refine List.forall_mem_append.mpr ⟨hold, fun task htask => ?_⟩
    obtain ⟨call, _, rfl⟩ := List.mem_map.mp htask
    exact rfl
  | continues htasks =>
    rw [htasks] at hold
    obtain ⟨hhead, hrest⟩ := List.forall_mem_cons.mp hold
    exact List.forall_mem_append.mpr ⟨hrest, List.forall_mem_singleton.mpr hhead.continue⟩
  | serves htasks | refuses htasks =>
    rw [htasks] at hold
    exact (List.forall_mem_cons.mp hold).2

/-- Every event keeps this. -/
theorem Kept.step (hk : Kept s) (h : Moves s e t) : Kept t := by
  refine ⟨?_, h.due hk.due, ?_⟩
  · intro type htype
    cases h with
    | serves htasks =>
      cases htype
      exact hk.due _ (by rw [htasks]; exact List.mem_cons_self)
    | joins hnone | follows hnone | unresolved hnone | first hnone =>
      rw [hnone] at htype
      cases htype
    | loaded hload =>
      rw [hk.typed type htype] at hload
      cases hload
    | immediate | continues | refuses => exact hk.typed type htype
  · have hloads := hk.loads
    cases h with
    | joins _ hload | loaded hload | first _ hload =>
      rw [hload] at hloads
      simp [hloads]
    | immediate | follows | unresolved | continues | serves | refuses => exact hloads

/-- The call finds the type assigned. -/
def Immediate (s : State β μ) : Event β μ → Prop
  | .call _ _ => s.protobufType.isSome
  | .loaded _ | .task => False

/-- Nothing goes on with a promise that is not settled. -/
theorem Kept.no_loading (hk : Kept s) (hload : ∀ result, s.loadPromise ≠ some (.settled result)) :
    s.tasks.filterMap Task.loading = [] := by
  rw [List.filterMap_eq_nil_iff]
  intro task htask
  cases task with
  | loadType call result => exact absurd (hk.due _ htask) (hload result)
  | resume => rfl

/-- A call that finds the type assigned is answered before the calls in line. -/
theorem Moves.overtakes (h : Moves s e t) (hnow : Immediate s e) :
    t.calls.length = s.calls.length + 1 ∧ answered t = answered s ++ [s.calls.length] ∧
      line t = line s := by
  cases h with
  | immediate htype =>
    refine ⟨List.length_append, List.map_append, rfl⟩
  | joins hnone | follows hnone | unresolved hnone | first hnone =>
    have htype : s.protobufType.isSome := hnow
    rw [hnone] at htype
    cases htype
  | loaded | continues | serves | refuses => exact hnow.elim

/-- Every other call is answered after the calls in line, which never change places. -/
theorem Moves.queues (hk : Kept s) (h : Moves s e t) (hlater : ¬ Immediate s e) :
    ∃ k, t.calls.length = s.calls.length + k ∧
      answered t ++ line t = answered s ++ line s ++ List.range' s.calls.length k := by
  cases h with
  | immediate htype => exact absurd (show s.protobufType.isSome by rw [htype]; rfl) hlater
  | joins _ hload =>
    refine ⟨1, List.length_append, ?_⟩
    simp [answered, line, waiting, hload]
  | follows _ hload =>
    refine ⟨1, List.length_append, ?_⟩
    simp [answered, line, waiting, hload, Task.resuming, Task.loading]
  | unresolved _ hload =>
    refine ⟨1, List.length_append, ?_⟩
    have hloading := hk.no_loading (by simp [hload])
    simp [answered, line, waiting, hload, hloading, Task.resuming, Task.loading]
  | first _ hload =>
    refine ⟨1, List.length_append, ?_⟩
    have hloading := hk.no_loading (by simp [hload])
    simp [answered, line, waiting, hload, hloading]
  | loaded hload =>
    refine ⟨0, rfl, ?_⟩
    simp [answered, line, waiting, hload, List.filterMap_map, Function.comp_def, Task.resuming,
      Task.loading]
  | continues htasks =>
    refine ⟨0, rfl, ?_⟩
    simp [answered, line, waiting, htasks, List.filterMap_cons, Task.resuming, Task.loading]
  | serves htasks =>
    refine ⟨0, rfl, ?_⟩
    simp [answered, line, waiting, settle, htasks, List.filterMap_cons, Task.resuming, Task.loading]
  | refuses htasks =>
    refine ⟨0, rfl, ?_⟩
    simp [answered, line, waiting, settle, htasks, List.filterMap_cons, Task.resuming, Task.loading]

/-- The calls are answered, and wait to be answered, in the order in which they were made. -/
structure Ordered (s : State β μ) : Prop extends Kept s where
  ordered : answered s ++ line s = List.range s.calls.length

/-- The answers so far went to the first calls, in the order of the calls. -/
def InOrder (s : State β μ) : Prop := answered s = List.range s.settled.length

/-- A call that finds the type assigned finds every earlier call answered. -/
def InTurn (s : State β μ) (e : Event β μ) : Prop :=
  Immediate s e → s.settled.length = s.calls.length

/-- Calls are made from outside the continuations, when none of these is due. -/
def Drained (s : State β μ) : Event β μ → Prop
  | .call _ _ => s.tasks = []
  | .loaded _ | .task => True

theorem Ordered.init : Ordered (State.init : State β μ) where
  toKept := Kept.init
  ordered := rfl

theorem length_answered (s : State β μ) : (answered s).length = s.settled.length :=
  List.length_map _

/-- Then the answers have been given in the order of the calls. -/
theorem Ordered.inOrder (h : Ordered s) : InOrder s := by
  have hbegins : answered s = (List.range s.calls.length).take s.settled.length := by
    rw [← h.ordered, ← length_answered, List.take_left]
  have hle : s.settled.length ≤ s.calls.length := by
    have hlength := congrArg List.length h.ordered
    rw [List.length_append, length_answered, List.length_range] at hlength
    omega
  rw [InOrder, hbegins, List.take_range, Nat.min_eq_left hle]

/-- Exactly a call out of turn breaks the order. -/
theorem Ordered.step (h : Ordered s) (hm : Moves s e t) :
    (InOrder t ↔ InTurn s e) ∧ (InTurn s e → Ordered t) := by
  have hk := h.toKept.step hm
  by_cases hnow : Immediate s e
  · obtain ⟨hcalls, hanswered, hline⟩ := hm.overtakes hnow
    have hlength : t.settled.length = s.settled.length + 1 := by
      rw [← length_answered, hanswered, List.length_append, length_answered]
      rfl
    have hiff : InOrder t ↔ InTurn s e := by
      rw [InOrder, hanswered, hlength, List.range_succ, h.inOrder]
      constructor
      · intro heq _
        exact (List.head_eq_of_cons_eq (List.append_inj_right heq rfl)).symm
      · intro hturn
        rw [hturn hnow]
    refine ⟨hiff, fun hturn => ⟨hk, ?_⟩⟩
    have hnil : line s = [] := by
      have hall := congrArg List.length h.ordered
      rw [List.length_append, length_answered, List.length_range, hturn hnow] at hall
      exact List.length_eq_zero_iff.mp (by omega)
    have horder := h.ordered
    rw [hnil, List.append_nil] at horder
    rw [hanswered, hline, hnil, List.append_nil, horder, hcalls, List.range_succ]
  · obtain ⟨k, hcalls, hplaces⟩ := hm.queues h.toKept hnow
    have hordered : Ordered t := by
      refine ⟨hk, ?_⟩
      have happend := List.range'_append_1 (s := 0) (m := s.calls.length) (n := k)
      rw [Nat.zero_add] at happend
      rw [hplaces, h.ordered, hcalls, List.range_eq_range', List.range_eq_range', happend]
    exact ⟨⟨fun _ hyes => absurd hyes hnow, fun _ => hordered.inOrder⟩, fun _ => hordered⟩

/-- Once the type is assigned, no call waits for anything but a continuation that is due. -/
theorem Ordered.inTurn (h : Ordered s) (hdrained : Drained s e) : InTurn s e := by
  intro hnow
  cases e with
  | call request unresolved =>
    obtain ⟨type, htype⟩ := Option.isSome_iff_exists.mp hnow
    have htasks : s.tasks = [] := hdrained
    have hline : line s = [] := by
      simp [line, waiting, htasks, h.typed type htype]
    have horder := congrArg List.length h.ordered
    rw [hline, List.append_nil, length_answered, List.length_range] at horder
    exact horder
  | loaded | task => exact hnow.elim

/-- The calls are answered in the order in which they were made exactly when no call finds the type
assigned before an earlier call is answered. Calls from outside the continuations never do. -/
theorem answers_in_order_iff {es : List (Event β μ)}
    (h : (machine β μ).Run Machine.Free State.init es s) :
    ((∀ fs t, fs <+: es → (machine β μ).Run Machine.Free State.init fs t → InOrder t) ↔
        (machine β μ).Run InTurn State.init es s) ∧
      ((machine β μ).Run Drained State.init es s → (machine β μ).Run InTurn State.init es s) := by
  constructor
  · exact h.always_iff_guarded (I := Ordered) (fun t ht => ht.inOrder)
      (fun t e u ht hs => ht.step (.of_step hs)) Ordered.init
  · intro hdrained
    exact hdrained.strengthen (I := Ordered)
      (fun t e u ht hg hs => (ht.step (.of_step hs)).2 (ht.inTurn hg))
      (fun t e u ht hg _ => ht.inTurn hg) Ordered.init

/-- A type that takes every buffer and every message as it is. -/
def exampleType : ProtobufType Nat Nat where
  decode := .ok
  verify _ := none
  encode := .ok

instance (s : State β μ) : DecidablePred (Drained s)
  | .call _ _ => inferInstanceAs (Decidable (s.tasks = []))
  | .loaded _ | .task => inferInstanceAs (Decidable True)

/-- Two calls await the load, and a third one from outside finds the type. -/
def outside : List (Event Nat Nat) :=
  [.call (.deserialize 7) none, .call (.deserialize 8) none, .loaded (.ok exampleType),
    .task, .task, .task, .task, .call (.serialize 9) none]

/-- The third call is made by a continuation between those of the two others. -/
def between : List (Event Nat Nat) :=
  [.call (.deserialize 7) none, .call (.deserialize 8) none, .loaded (.ok exampleType),
    .task, .task, .task, .call (.serialize 9) none, .task]

/-- Calls made when nothing is due are answered in order, and a call made between two continuations
overtakes. -/
theorem between_out_of_order :
    (∃ s, (machine Nat Nat).Run Machine.Free State.init outside s ∧
      answered s = [0, 1, 2] ∧ (machine Nat Nat).Run InTurn State.init outside s) ∧
    ∃ s, (machine Nat Nat).Run Machine.Free State.init between s ∧
      answered s = [0, 2, 1] ∧ ¬ (machine Nat Nat).Run InTurn State.init between s := by
  constructor
  · obtain ⟨s, hdrained, hanswered⟩ : ∃ s, (machine Nat Nat).Run Drained State.init outside s ∧
        answered s = [0, 1, 2] :=
      Machine.exists_run_of_exec (by decide)
    have hrun := hdrained.mono (H := Machine.Free) fun _ _ _ => trivial
    exact ⟨s, hrun, hanswered, (answers_in_order_iff hrun).2 hdrained⟩
  · obtain ⟨s, hrun, hanswered⟩ : ∃ s,
        (machine Nat Nat).Run Machine.Free State.init between s ∧ answered s = [0, 2, 1] :=
      Machine.exists_run_of_exec (by decide)
    refine ⟨s, hrun, hanswered, fun hturn => ?_⟩
    have horder := (answers_in_order_iff hrun).1.mpr hturn _ s (List.prefix_refl _) hrun
    rw [InOrder, ← length_answered, hanswered] at horder
    exact absurd horder (by decide)

end ChainIndexer.Coder
