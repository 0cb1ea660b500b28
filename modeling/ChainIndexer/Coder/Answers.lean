import ChainIndexer.Coder.Order
import Mathlib.Data.List.Perm.Subperm
import Mathlib.Data.List.Nodup

/-!
# What the calls are answered with

A coder that does one call after the other has no queues: it refuses calls until the path of the
schema is found, loads the type once, and serves or refuses every call from then on with what the
load has come to. The real coder gives the same answers, each of them once, however its
continuations, the answer of the library and further calls fall together.
-/

namespace ChainIndexer.Coder

variable {β μ : Type} {s t : State β μ} {e : Event β μ} {es : List (Event β μ)}
  {result : Except String (ProtobufType β μ)}

/-- The answer to a call with what `loadType` has come to. -/
def finish : Except BaseError (ProtobufType β μ) → Request β μ → Except Thrown (Answer β μ)
  | .ok type, request => serve type request
  | .error error, _ => .error (.base error)

/-- The answers of a coder that does one call after the other and whose load ends in `result`. -/
def sequential (result : Except String (ProtobufType β μ)) :
    List (Request β μ × Option String) → List (Except Thrown (Answer β μ))
  | [] => []
  | (_, some cause) :: rest => .error (.base (loadFailed cause)) :: sequential result rest
  | (request, none) :: rest =>
    ((request, none) :: rest).map fun call => finish (result.mapError loadFailed) call.1

/-- The call that an event makes. -/
def Event.asked : Event β μ → Option (Request β μ × Option String)
  | .call request unresolved => some (request, unresolved)
  | .loaded _ | .task => none

/-- The calls among the events. -/
def asked (es : List (Event β μ)) : List (Request β μ × Option String) := es.filterMap Event.asked

theorem length_sequential (result : Except String (ProtobufType β μ))
    (calls : List (Request β μ × Option String)) :
    (sequential result calls).length = calls.length := by
  induction calls with
  | nil => rfl
  | cons call rest ih =>
    match call with
    | (_, some _) => exact congrArg Nat.succ ih
    | (_, none) => exact List.length_map _

/-- Further calls leave the answers to the others. -/
theorem sequential_append (calls more : List (Request β μ × Option String)) :
    sequential result calls <+: sequential result (calls ++ more) := by
  induction calls with
  | nil => exact List.nil_prefix
  | cons call rest ih =>
    match call with
    | (_, some cause) => exact (List.prefix_cons_inj _).mpr ih
    | (request, none) =>
      exact (List.prefix_append ((request, none) :: rest) more).map _

/-- After a call that finds the path, and with it, the load decides. -/
theorem sequential_served {calls : List (Request β μ × Option String)}
    {call : Request β μ × Option String} (h : ∃ earlier ∈ calls ++ [call], earlier.2 = none) :
    sequential result (calls ++ [call]) =
      sequential result calls ++ [finish (result.mapError loadFailed) call.1] := by
  induction calls with
  | nil =>
    obtain ⟨earlier, hmem, hnone⟩ := h
    obtain rfl := List.mem_singleton.mp hmem
    obtain ⟨request, unresolved⟩ := earlier
    cases hnone
    rfl
  | cons head rest ih =>
    match head with
    | (request, none) => simp [sequential]
    | (request, some cause) =>
      refine congrArg _ (ih ?_)
      obtain ⟨earlier, hmem, hnone⟩ := h
      rcases List.mem_cons.mp hmem with rfl | hmem
      · cases hnone
      · exact ⟨earlier, hmem, hnone⟩

/-- A call that does not find the path after others that did not is refused. -/
theorem sequential_refused {calls : List (Request β μ × Option String)} {request : Request β μ}
    {cause : String} (h : ∀ earlier ∈ calls, earlier.2.isSome) :
    sequential result (calls ++ [(request, some cause)]) =
      sequential result calls ++ [.error (.base (loadFailed cause))] := by
  induction calls with
  | nil => rfl
  | cons head rest ih =>
    obtain ⟨hhead, hrest⟩ := List.forall_mem_cons.mp h
    match head, hhead with
    | (_, some _), _ => exact congrArg _ (ih hrest)

theorem asked_call {call : Request β μ × Option String} (h : e.asked = some call) :
    asked (es ++ [e]) = asked es ++ [call] := by
  rw [asked, List.filterMap_append, List.filterMap_cons, h]
  rfl

theorem asked_eq (h : e.asked = none) : asked (es ++ [e]) = asked es := by
  rw [asked, List.filterMap_append, List.filterMap_cons, h]
  exact List.append_nil _

/-- A further event only adds to the calls that have been made. -/
theorem asked_concat (es : List (Event β μ)) (e : Event β μ) :
    ∃ more, asked (es ++ [e]) = asked es ++ more :=
  ⟨_, List.filterMap_append⟩

theorem getElem?_mono {α : Type*} {xs ys : List α} {i : Nat} {x : α} (h : xs <+: ys)
    (hx : xs[i]? = some x) : ys[i]? = some x := by
  obtain ⟨rest, rfl⟩ := h
  exact (List.getElem?_append_left (List.getElem?_eq_some_iff.mp hx).1).trans hx

/-- The call was made, and this would answer it as the sequential coder does. -/
def Owed (es : List (Event β μ)) (result : Except String (ProtobufType β μ)) (call : Nat)
    (given : Except BaseError (ProtobufType β μ)) : Prop :=
  ∃ request, ((asked es).map Prod.fst)[call]? = some request ∧
    (sequential result (asked es))[call]? = some (finish given request)

/-- A call is owed the answer that the sequential coder gives it. -/
theorem Owed.answer {call : Nat} {given : Except BaseError (ProtobufType β μ)}
    {request : Request β μ} (h : Owed es result call given)
    (hcall : ((asked es).map Prod.fst)[call]? = some request) :
    (sequential result (asked es))[call]? = some (finish given request) := by
  obtain ⟨other, hother, hanswer⟩ := h
  rw [hcall] at hother
  cases hother
  exact hanswer

/-- A further event leaves what is owed. -/
theorem Owed.concat {call : Nat} {given : Except BaseError (ProtobufType β μ)}
    (h : Owed es result call given) (e : Event β μ) : Owed (es ++ [e]) result call given := by
  obtain ⟨request, hcall, hanswer⟩ := h
  obtain ⟨more, hmore⟩ := asked_concat es e
  rw [Owed, hmore, List.map_append]
  exact ⟨request, getElem?_mono (List.prefix_append _ _) hcall,
    getElem?_mono (sequential_append _ _) hanswer⟩

/-- The last call is owed what the sequential coder does with it after the others. -/
theorem Owed.last {call : Request β μ × Option String} (he : e.asked = some call)
    {given : Except BaseError (ProtobufType β μ)}
    (hgiven : sequential result (asked es ++ [call]) =
      sequential result (asked es) ++ [finish given call.1]) :
    Owed (es ++ [e]) result (asked es).length given := by
  rw [Owed, asked_call he, hgiven]
  refine ⟨call.1, by simp, ?_⟩
  rw [← length_sequential result]
  exact List.getElem?_concat_length

/-- The call that a continuation goes on with. -/
def Task.call : Task β μ → Nat
  | .loadType call _ | .resume call _ => call

/-- What its method goes on with in the end. -/
def Task.given : Task β μ → Except BaseError (ProtobufType β μ)
  | .loadType _ result => result.mapError loadFailed
  | .resume _ given => given

/-- The load has not come to anything else. -/
def Compatible (s : State β μ) (result : Except String (ProtobufType β μ)) : Prop :=
  ∀ other, s.loadPromise = some (.settled other) → other = result

/-- What is compatible with the state after an event is so with the one before it. -/
theorem Compatible.before (h : Moves s e t) (hc : Compatible t result) : Compatible s result :=
  fun other hother => hc other (h.settled_kept hother)

/-- The calls that were made, answered or not, get the answers of the sequential coder. -/
structure Answers (es : List (Event β μ)) (s : State β μ) : Prop extends Kept s where
  calls : s.calls = (asked es).map Prod.fst
  unloaded : s.loadPromise = none ↔ ∀ call ∈ asked es, call.2.isSome
  settled : ∀ result, Compatible s result → ∀ call outcome, (call, outcome) ∈ s.settled →
    (sequential result (asked es))[call]? = some outcome
  tasks : ∀ result, Compatible s result → ∀ task ∈ s.tasks, Owed es result task.call task.given
  waiting : ∀ call ∈ waiting s, ∀ result, Owed es result call (result.mapError loadFailed)
  once : (answered s ++ line s).Perm (List.range s.calls.length)

theorem Answers.init : Answers [] (State.init : State β μ) where
  toKept := Kept.init
  calls := rfl
  unloaded := ⟨fun _ => nofun, fun _ => rfl⟩
  settled := nofun
  tasks := nofun
  waiting := nofun
  once := .refl _

/-- Each call is answered or in line, and that once. -/
theorem Moves.once (hk : Kept s) (h : Moves s e t)
    (honce : (answered s ++ line s).Perm (List.range s.calls.length)) :
    (answered t ++ line t).Perm (List.range t.calls.length) := by
  by_cases hnow : Immediate s e
  · obtain ⟨hcalls, hanswered, hline⟩ := h.overtakes hnow
    rw [hcalls, hanswered, hline, List.range_succ, List.append_assoc]
    refine (List.perm_append_comm.append_left _).trans ?_
    rw [← List.append_assoc]
    exact honce.append_right _
  · obtain ⟨k, hcalls, hplaces⟩ := h.queues hk hnow
    have happend := List.range'_append_1 (s := 0) (m := s.calls.length) (n := k)
    rw [Nat.zero_add] at happend
    rw [hplaces, hcalls, List.range_eq_range', ← happend, ← List.range_eq_range']
    exact honce.append_right _

theorem Answers.length_asked (h : Answers es s) : (asked es).length = s.calls.length := by
  rw [h.calls, List.length_map]

/-- A call that is made is owed what the load comes to, unless the path was never found. -/
theorem Answers.owed_last (h : Answers es s) {call : Request β μ × Option String}
    (he : e.asked = some call) (hfound : s.loadPromise ≠ none ∨ call.2 = none) :
    Owed (es ++ [e]) result s.calls.length (result.mapError loadFailed) := by
  rw [← h.length_asked]
  refine .last he (sequential_served ?_)
  rcases hfound with hloading | hnone
  · have hall := mt h.unloaded.mpr hloading
    push Not at hall
    obtain ⟨earlier, hmem, hnone⟩ := hall
    exact ⟨earlier, List.mem_append_left _ hmem, by simpa using hnone⟩
  · exact ⟨call, List.mem_append_right _ List.mem_cons_self, hnone⟩

/-- What is owed stays owed. -/
theorem Answers.tasks_concat (h : Answers es s) (hm : Moves s e t) (hc : Compatible t result)
    (task : Task β μ) (htask : task ∈ s.tasks) :
    Owed (es ++ [e]) result task.call task.given :=
  (h.tasks result (hc.before hm) task htask).concat e

/-- The calls of a state are those that its events have made. -/
theorem Answers.calls_step (h : Answers es s) (hm : Moves s e t) :
    t.calls = (asked (es ++ [e])).map Prod.fst := by
  have hcall : ∀ request unresolved, asked (es ++ [.call request unresolved]) =
      asked es ++ [(request, unresolved)] := fun _ _ => asked_call rfl
  cases hm with
  | immediate | joins | follows | unresolved | first =>
    rw [hcall, List.map_append, ← h.calls]
    rfl
  | loaded | continues | serves | refuses =>
    rw [asked_eq rfl]
    exact h.calls

/-- Nothing has been loaded as long as no path has been found. -/
theorem Answers.unloaded_step (h : Answers es s) (hm : Moves s e t) :
    t.loadPromise = none ↔ ∀ call ∈ asked (es ++ [e]), call.2.isSome := by
  have hloading : s.loadPromise ≠ none → t.loadPromise ≠ none →
      (t.loadPromise = none ↔ ∀ call ∈ asked (es ++ [e]), call.2.isSome) := by
    intro hs ht
    refine iff_of_false ht fun hall => hs (h.unloaded.mpr fun call hcall => hall call ?_)
    obtain ⟨more, hmore⟩ := asked_concat es e
    rw [hmore]
    exact List.mem_append_left _ hcall
  cases hm with
  | immediate htype =>
    have hload := h.typed _ htype
    exact hloading (by simp [hload]) (by simp [settle, hload])
  | joins _ hload | follows _ hload | loaded hload =>
    exact hloading (by simp [hload]) (by simp [hload])
  | unresolved _ hload =>
    rw [asked_call rfl, List.forall_mem_append]
    have hall := h.unloaded.mp hload
    exact iff_of_true hload ⟨hall, List.forall_mem_singleton.mpr rfl⟩
  | first _ hload =>
    rw [asked_call rfl, List.forall_mem_append]
    refine iff_of_false (fun hnone => by cases hnone) fun hall => ?_
    cases hall.2 _ List.mem_cons_self
  | continues | serves | refuses =>
    rw [asked_eq rfl]
    exact h.unloaded

/-- Every answer given stays one of the sequential coder. -/
theorem Answers.settled_step (h : Answers es s) (hm : Moves s e t) (hc : Compatible t result) :
    ∀ entry ∈ t.settled, (sequential result (asked (es ++ [e])))[entry.1]? = some entry.2 := by
  have hold : ∀ entry ∈ s.settled,
      (sequential result (asked (es ++ [e])))[entry.1]? = some entry.2 := by
    intro entry hentry
    obtain ⟨more, hmore⟩ := asked_concat es e
    rw [hmore]
    exact getElem?_mono (sequential_append _ _) (h.settled result (hc.before hm) _ _ hentry)
  have hnew : ∀ call given request, t.calls[call]? = some request →
      Owed (es ++ [e]) result call given →
      ∀ entry ∈ s.settled ++ [(call, finish given request)],
        (sequential result (asked (es ++ [e])))[entry.1]? = some entry.2 := by
    intro call given request hcall howed
    rw [h.calls_step hm] at hcall
    exact List.forall_mem_append.mpr ⟨hold, List.forall_mem_singleton.mpr (howed.answer hcall)⟩
  have htask := h.tasks_concat hm hc
  cases hm with
  | @immediate request unresolved type htype =>
    have hload := h.typed type htype
    obtain rfl : _ = result := hc _ hload
    exact hnew s.calls.length (.ok type) request (by simp [settle])
      (h.owed_last rfl (.inl (by simp [hload])))
  | joins | follows | unresolved | first | loaded | continues => exact hold
  | @serves call type rest request htasks hcall =>
    exact hnew call (.ok type) request hcall
      (htask (.resume call (.ok type)) (by rw [htasks]; exact List.mem_cons_self))
  | @refuses call error rest htasks =>
    have howed := htask (.resume call (.error error)) (by rw [htasks]; exact List.mem_cons_self)
    obtain ⟨request, hcall⟩ : ∃ request, s.calls[call]? = some request := by
      obtain ⟨request, hcall, -⟩ := howed
      rw [asked_eq rfl, ← h.calls] at hcall
      exact ⟨request, hcall⟩
    exact hnew call (.error error) request hcall howed

/-- Every continuation that is due stays owed. -/
theorem Answers.tasks_step (h : Answers es s) (hm : Moves s e t) (hc : Compatible t result) :
    ∀ task ∈ t.tasks, Owed (es ++ [e]) result task.call task.given := by
  have hold := h.tasks_concat hm hc
  have hnew : ∀ task : Task β μ, Owed (es ++ [e]) result task.call task.given →
      ∀ due ∈ s.tasks ++ [task], Owed (es ++ [e]) result due.call due.given :=
    fun task htask => List.forall_mem_append.mpr ⟨hold, List.forall_mem_singleton.mpr htask⟩
  cases hm with
  | immediate | joins | first => exact hold
  | follows _ hload =>
    obtain rfl := hc _ hload
    exact hnew _ (h.owed_last rfl (.inl (by simp [hload])))
  | unresolved _ hload =>
    refine hnew _ ?_
    rw [Task.call, ← h.length_asked]
    exact .last rfl (sequential_refused (h.unloaded.mp hload))
  | loaded hload =>
    refine List.forall_mem_append.mpr ⟨hold, fun task htask => ?_⟩
    obtain ⟨call, hcall, rfl⟩ := List.mem_map.mp htask
    obtain rfl := hc _ rfl
    refine (h.waiting call ?_ _).concat _
    rw [Coder.waiting, hload]
    exact hcall
  | continues htasks =>
    rw [htasks] at hold
    obtain ⟨hhead, hrest⟩ := List.forall_mem_cons.mp hold
    exact List.forall_mem_append.mpr ⟨hrest, List.forall_mem_singleton.mpr hhead⟩
  | serves htasks | refuses htasks =>
    rw [htasks] at hold
    exact (List.forall_mem_cons.mp hold).2

/-- Every call that waits for the load stays owed what the load comes to. -/
theorem Answers.waiting_step (h : Answers es s) (hm : Moves s e t) :
    ∀ call ∈ Coder.waiting t, ∀ result,
      Owed (es ++ [e]) result call (result.mapError loadFailed) := by
  have hold : ∀ call ∈ Coder.waiting s, ∀ result,
      Owed (es ++ [e]) result call (result.mapError loadFailed) :=
    fun call hcall result => (h.waiting call hcall result).concat e
  cases hm with
  | immediate | follows | unresolved | continues | serves | refuses => exact hold
  | joins _ hload =>
    refine List.forall_mem_append.mpr ⟨?_, List.forall_mem_singleton.mpr fun result => ?_⟩
    · rwa [Coder.waiting, hload] at hold
    · exact h.owed_last rfl (.inl (by simp [hload]))
  | first => exact List.forall_mem_singleton.mpr fun result => h.owed_last rfl (.inr rfl)
  | loaded =>
    intro call hcall
    cases hcall

/-- Every event keeps this. -/
theorem Answers.step (h : Answers es s) (hm : Moves s e t) : Answers (es ++ [e]) t where
  toKept := h.toKept.step hm
  calls := h.calls_step hm
  unloaded := h.unloaded_step hm
  settled _ hc call outcome hentry := h.settled_step hm hc (call, outcome) hentry
  tasks _ hc := h.tasks_step hm hc
  waiting := h.waiting_step hm
  once := hm.once h.toKept h.once

theorem Answers.of_run (h : (machine β μ).Run Machine.Free State.init es s) : Answers es s :=
  h.invariant_history (I := Answers) (fun _ _ _ _ hi _ hs => hi.step (.of_step hs)) Answers.init

/-- The answers of the sequential coder with the numbers of the calls. -/
def numbered (result : Except String (ProtobufType β μ))
    (calls : List (Request β μ × Option String)) : List (Nat × Except Thrown (Answer β μ)) :=
  (sequential result calls).zipIdx.map Prod.swap

private theorem mem_numbered {calls : List (Request β μ × Option String)}
    {entry : Nat × Except Thrown (Answer β μ)} :
    entry ∈ numbered result calls ↔ (sequential result calls)[entry.1]? = some entry.2 := by
  rw [← List.mk_mem_zipIdx_iff_getElem?, numbered, List.mem_map]
  constructor
  · rintro ⟨pair, hpair, rfl⟩
    exact hpair
  · intro hpair
    exact ⟨_, hpair, rfl⟩

private theorem length_numbered (calls : List (Request β μ × Option String)) :
    (numbered result calls).length = calls.length := by
  rw [numbered, List.length_map, List.length_zipIdx, length_sequential]

/-- However the calls, the load and the continuations fall together: the schema is loaded at most
once, no call has two answers, every answer is the one of the sequential coder, and all of them are
there when nothing is due or awaited. -/
theorem answers_perm_sequential (h : (machine β μ).Run Machine.Free State.init es s)
    (hc : Compatible s result) :
    s.loads ≤ 1 ∧ s.settled.Subperm (numbered result (asked es)) ∧
      (s.tasks = [] → waiting s = [] → s.settled.Perm (numbered result (asked es))) := by
  have hi := Answers.of_run h
  have hnodup : (answered s ++ line s).Nodup := hi.once.nodup_iff.mpr List.nodup_range
  have hsub : s.settled.Subperm (numbered result (asked es)) := by
    refine (List.Nodup.of_map Prod.fst hnodup.of_append_left).subperm fun entry hentry => ?_
    exact mem_numbered.mpr (hi.settled result hc entry.1 entry.2 hentry)
  refine ⟨?_, hsub, fun htasks hwaiting => ?_⟩
  · rw [hi.loads]
    split
    · exact Nat.le_refl _
    · exact Nat.zero_le _
  · refine hsub.perm_of_length_le ?_
    have honce := hi.once.length_eq
    rw [line, htasks, hwaiting, List.length_append, List.length_range, length_answered] at honce
    rw [length_numbered, hi.length_asked, ← honce]
    exact Nat.le_refl _

/-- The path of the first call is not found; two more calls await a load that succeeds. -/
def recovered : List (Event Nat Nat) :=
  [.call (.deserialize 6) (some "Cannot find module"), .call (.deserialize 7) none,
    .call (.serialize 8) none, .task, .loaded (.ok exampleType), .task, .task, .task, .task]

/-- After a path that was not found, the calls get the answers of a coder that does one after the
other. -/
theorem recovered_perm_sequential : ∃ s, (machine Nat Nat).Run Machine.Free State.init recovered s ∧
    s.settled.Perm [(0, .error (.base (loadFailed "Cannot find module"))), (1, .ok (.message 7)),
      (2, .ok (.buffer 8))] := by
  have hexec : ∃ s, (machine Nat Nat).exec Machine.Free State.init recovered = some s ∧
      s.tasks = [] ∧ s.loadPromise = some (.settled (.ok exampleType)) := ⟨_, rfl, rfl, rfl⟩
  obtain ⟨s, hexec, htasks, hload⟩ := hexec
  have hc : Compatible s (.ok exampleType) := by
    intro other hother
    rw [hload] at hother
    cases hother
    rfl
  have hwaiting : waiting s = [] := by rw [waiting, hload]
  have hrun := Machine.Run.of_exec hexec
  exact ⟨s, hrun, (answers_perm_sequential hrun hc).2.2 htasks hwaiting⟩

end ChainIndexer.Coder
