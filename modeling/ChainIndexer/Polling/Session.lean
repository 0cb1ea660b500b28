import ChainIndexer.Polling.State
import Mathlib.Data.List.Perm.Basic

/-!
# Sessions of the block poller

A loop passes a block to the observer only after it has compared polling ids, with no await in
between. So as long as no two calls of `subscribe` read the same polling id, only the loop of the
present session passes blocks, and it passes consecutive heights.
-/

namespace ChainIndexer.Polling

variable {β : Type} {s t : State β} {ids : List Nat} {loop : Loop} {session : Session β} {i : Nat}

/-- The observer has got the blocks requested for consecutive heights from the start block on, none
above a latest height its loop was told, and all of them from the loop of the session. -/
structure Consecutive (session : Session β) : Prop where
  heights : session.emitted.map Emission.height =
    List.range' session.start session.emitted.length
  known : ∀ emission ∈ session.emitted, ∃ latest ∈ session.latest, emission.height ≤ latest
  own : ∀ emission ∈ session.emitted, emission.session = session.number

/-- The polling ids that a call reads from the clock. -/
def Call.pollingIds : Call → List Nat
  | .subscribe pollingId _ => [pollingId]
  | .unsubscribe => []

/-- The polling ids that are read during an event. -/
def Event.pollingIds : Event β → List Nat
  | .call c => c.pollingIds
  | .fetched _ _ calls _ => calls.flatMap Call.pollingIds
  | .latest .. | .woken _ => []

/-- The polling ids that have been read. -/
def pollingIds (es : List (Event β)) : List Nat := es.flatMap Event.pollingIds

/-- The loop asks for the height after the last emission of the session, and only up to a latest
height it was told. -/
structure Carries (session : Session β) (loop : Loop) : Prop where
  number : loop.session = session.number
  next : loop.next = session.start + session.emitted.length
  answered : ∀ latest, loop.point = .fetching latest → latest ∈ session.latest

/-- A loop that is up to date carries the session. -/
def Current (s : State β) (loop : Loop) : Prop :=
  s.pollingId = some loop.pollingId → ∃ session, s.session = some session ∧ Carries session loop

/-- The invariant of the runs that read these polling ids. -/
structure Own (ids : List Nat) (s : State β) : Prop where
  stray : s.stray = []
  consecutive : ∀ session ∈ s.session, Consecutive session
  known : ∀ loop ∈ s.loops, loop.pollingId ∈ ids
  distinct : (s.loops.map Loop.pollingId).Nodup
  bounded : ∀ loop ∈ s.loops, ∀ latest, loop.point = .fetching latest → loop.next ≤ latest
  current : ∀ loop ∈ s.loops, Current s loop

/-- A loop that is running beside the suspended ones. -/
structure Running (ids : List Nat) (s : State β) (loop : Loop) : Prop where
  known : loop.pollingId ∈ ids
  apart : loop.pollingId ∉ s.loops.map Loop.pollingId
  current : Current s loop

theorem Own.init : Own [] (State.init : State β) where
  stray := rfl
  consecutive _ h := by cases h
  known _ h := by cases h
  distinct := .nil
  bounded _ h := by cases h
  current _ h := by cases h

/-- Further ids leave the loops their own. -/
theorem Own.mono {more : List Nat} (h : Own ids s) (hsub : ids ⊆ more) : Own more s :=
  { h with known := fun loop hloop => hsub (h.known loop hloop) }

/-- The loop that is resumed leaves the suspended ones. -/
theorem Own.resume (h : Own ids s) (hi : s.loops[i]? = some loop) :
    Own ids (resume s i) ∧ Running ids (resume s i) loop := by
  have hsub : ∀ other ∈ s.loops.eraseIdx i, other ∈ s.loops := fun _ => List.mem_of_mem_eraseIdx
  obtain ⟨hlt, hget⟩ := List.getElem?_eq_some_iff.mp hi
  have hmem := List.mem_of_getElem? hi
  have hperm := (List.getElem_cons_eraseIdx_perm hlt).map Loop.pollingId
  rw [List.map_cons, hget] at hperm
  have hnodup := List.nodup_cons.mp (hperm.nodup_iff.mpr h.distinct)
  refine ⟨⟨h.stray, h.consecutive, fun other ho => h.known other (hsub other ho), hnodup.2,
    fun other ho => h.bounded other (hsub other ho),
    fun other ho => h.current other (hsub other ho)⟩, h.known loop hmem, hnodup.1, ?_⟩
  exact h.current loop hmem

/-- A running loop may suspend itself where its next height is bounded. -/
theorem Own.suspend (h : Own ids s) (hr : Running ids s loop)
    (hbound : ∀ latest, loop.point = .fetching latest → loop.next ≤ latest) :
    Own ids (suspend s loop) := by
  have hcases : ∀ other ∈ s.loops ++ [loop], other ∈ s.loops ∨ other = loop := by simp
  refine ⟨h.stray, h.consecutive, fun other ho => ?_, ?_, fun other ho => ?_, fun other ho => ?_⟩
  · rcases hcases other ho with hold | rfl
    · exact h.known other hold
    · exact hr.known
  · simp only [Polling.suspend, List.map_append, List.map_cons, List.map_nil]
    exact List.nodup_append.mpr ⟨h.distinct, List.nodup_singleton _, fun a ha b hb => by
      obtain rfl := List.mem_singleton.mp hb
      rintro rfl
      exact hr.apart ha⟩
  · rcases hcases other ho with hold | rfl
    · exact h.bounded other hold
    · exact hbound
  · rcases hcases other ho with hold | rfl
    · exact h.current other hold
    · exact hr.current

/-- At another await the loop still carries the session. -/
theorem Running.park (h : Running ids s loop) (point : Point)
    (hpoint : ∀ latest, point = .fetching latest → loop.point = .fetching latest) :
    Running ids s { loop with point := point } := by
  refine ⟨h.known, h.apart, fun hid => ?_⟩
  obtain ⟨session, hsession, hcarries⟩ := h.current hid
  exact ⟨session, hsession, hcarries.number, hcarries.next,
    fun latest hp => hcarries.answered latest (hpoint latest hp)⟩

/-- The head of the inner loop, in a loop that was told the latest block. -/
theorem Own.poll (loop : Loop) {latestBlockNumber : Nat} {point : Point} (h : Own ids s)
    (hr : Running ids s { loop with point := .fetching latestBlockNumber }) :
    Own ids (poll s { loop with point := point } latestBlockNumber) := by
  unfold Polling.poll
  split
  · split
    · rename_i hle
      refine h.suspend hr fun latest hp => ?_
      cases hp
      exact hle
    · exact h.suspend (hr.park .latest fun _ hp => by cases hp)
        fun _ hp => by cases hp
  · exact h

/-- An error is told to the observer, and nothing else changes. -/
theorem Own.caught (h : Own ids s) (error : Thrown) : Own ids (caught s error) := { h with }

/-- A latest height that the session is told. -/
theorem Consecutive.told (h : Consecutive session) (latest : Nat) :
    Consecutive { session with latest := session.latest ++ [latest] } where
  heights := h.heights
  known emission he := by
    obtain ⟨bound, hbound, hle⟩ := h.known emission he
    exact ⟨bound, List.mem_append_left _ hbound, hle⟩
  own := h.own

/-- That a height was told changes nothing of what was passed on. -/
theorem Carries.told (h : Carries session loop) (latest : Nat) :
    Carries { session with latest := session.latest ++ [latest] } loop where
  number := h.number
  next := h.next
  answered bound hp := List.mem_append_left _ (h.answered bound hp)

/-- The answer of `getLatestBlockNumber` is kept by the session of the loop only. -/
theorem Own.told (h : Own ids s) (hr : Running ids s loop) (latest : Nat) :
    Own ids (told s loop latest) ∧
      Running ids (told s loop latest) { loop with point := .fetching latest } := by
  have hcurrent : ∀ other, Current s other → Current (Polling.told s loop latest) other := by
    intro other hother hid
    obtain ⟨session, hsession, hcarries⟩ := hother hid
    unfold Polling.told
    rw [hsession, Option.map_some]
    split
    · exact ⟨_, rfl, hcarries.told latest⟩
    · exact ⟨_, rfl, hcarries⟩
  refine ⟨⟨h.stray, fun session hsession => ?_, h.known, h.distinct, h.bounded,
    fun other ho => hcurrent other (h.current other ho)⟩, hr.known, hr.apart, fun hid => ?_⟩
  · obtain ⟨before, hbefore, rfl⟩ := Option.map_eq_some_iff.mp hsession
    split
    · exact (h.consecutive before hbefore).told latest
    · exact h.consecutive before hbefore
  · obtain ⟨session, hsession, hcarries⟩ := hr.current hid
    refine ⟨{ session with latest := session.latest ++ [latest] }, ?_, hcarries.number,
      hcarries.next, fun bound hp => ?_⟩
    · unfold Polling.told
      rw [hsession, Option.map_some, if_pos hcarries.number.symm]
    · cases hp
      exact List.mem_append_right _ (List.mem_singleton_self _)

/-- A loop that is up to date passes the next block of the session. -/
theorem Own.emit {latest : Nat} (h : Own ids s) (hr : Running ids s loop)
    (hid : s.pollingId = some loop.pollingId) (hpoint : loop.point = .fetching latest)
    (hle : loop.next ≤ latest) (block : β) :
    Own ids (emit s ⟨loop.session, loop.next, block⟩) ∧
      Running ids (emit s ⟨loop.session, loop.next, block⟩)
        { loop with next := loop.next + 1 } := by
  obtain ⟨session, hsession, hcarries⟩ := hr.current hid
  have hothers : ∀ other ∈ s.loops, s.pollingId ≠ some other.pollingId := by
    intro other ho heq
    have hsame := Option.some.inj (hid.symm.trans heq)
    exact hr.apart (hsame ▸ List.mem_map_of_mem ho)
  have hold := h.consecutive session hsession
  unfold Polling.emit
  rw [hsession]
  refine ⟨⟨h.stray, fun after hafter => ?_, h.known, h.distinct, h.bounded,
    fun other ho heq => absurd heq (hothers other ho)⟩, hr.known, hr.apart, fun _ => ?_⟩
  · obtain rfl := Option.some.inj hafter
    constructor
    · rw [List.map_append, List.length_append, hold.heights, List.length_singleton,
        List.range'_concat, hcarries.next, Nat.one_mul]
      rfl
    · intro emission hemission
      rcases List.mem_append.mp hemission with hin | hin
      · exact hold.known emission hin
      · obtain rfl := List.mem_singleton.mp hin
        exact ⟨latest, hcarries.answered latest hpoint, hle⟩
    · intro emission hemission
      rcases List.mem_append.mp hemission with hin | hin
      · exact hold.own emission hin
      · obtain rfl := List.mem_singleton.mp hin
        exact hcarries.number
  · refine ⟨_, rfl, hcarries.number, ?_, hcarries.answered⟩
    rw [List.length_append, List.length_singleton, hcarries.next, Nat.add_assoc]

/-- A call that reads a new polling id makes every other loop out of date. -/
theorem Own.call {c : Call} (h : Own ids s) (hnew : (ids ++ c.pollingIds).Nodup) :
    Own (ids ++ c.pollingIds) (call s c) := by
  cases c with
  | unsubscribe =>
    refine (Own.mono ?_ (List.subset_append_left _ _) : Own (ids ++ []) _)
    exact ⟨h.stray, fun _ hsession => (by cases hsession), h.known, h.distinct, h.bounded,
      fun _ _ hid => (by cases hid)⟩
  | subscribe pollingId start =>
    have hfresh : ∀ id ∈ ids, id ≠ pollingId := fun id hid =>
      (List.nodup_append.mp hnew).2.2 id hid pollingId (List.mem_singleton_self _)
    have hopened : Own (ids ++ [pollingId]) { s with
        pollingId := some pollingId
        subscribed := s.subscribed + 1
        session := some { number := s.subscribed, start := start } } := by
      refine ⟨h.stray, fun session hsession => ?_,
        fun other ho => List.mem_append_left _ (h.known other ho), h.distinct, h.bounded,
        fun other ho hid => absurd (Option.some.inj hid).symm (hfresh _ (h.known other ho))⟩
      obtain rfl := Option.some.inj hsession
      exact ⟨rfl, fun _ he => (by cases he), fun _ he => (by cases he)⟩
    have hrunning : Running (ids ++ [pollingId]) { s with
        pollingId := some pollingId
        subscribed := s.subscribed + 1
        session := some { number := s.subscribed, start := start } }
        ⟨pollingId, s.subscribed, start, .latest⟩ := by
      refine ⟨List.mem_append_right _ (List.mem_singleton_self _), fun hmem => ?_, fun _ => ?_⟩
      · obtain ⟨other, ho, hid⟩ := List.mem_map.mp hmem
        exact hfresh _ (h.known other ho) hid
      · exact ⟨_, rfl, rfl, rfl, fun _ hp => by cases hp⟩
    exact hopened.suspend hrunning fun _ hp => by cases hp

/-- A running loop runs on through a call with a new id, or is left over. -/
theorem Running.call {c : Call} (h : Running ids s loop) (hnew : (ids ++ c.pollingIds).Nodup) :
    Running (ids ++ c.pollingIds) (call s c) loop := by
  cases c with
  | unsubscribe =>
    exact ⟨List.mem_append_left _ h.known, h.apart, fun hid => by cases hid⟩
  | subscribe pollingId start =>
    have hne : loop.pollingId ≠ pollingId :=
      (List.nodup_append.mp hnew).2.2 _ h.known pollingId (List.mem_singleton_self _)
    refine ⟨List.mem_append_left _ h.known, fun hmem => ?_,
      fun hid => absurd (Option.some.inj hid).symm hne⟩
    simp only [Polling.call, List.map_append, List.mem_append, List.map_cons, List.map_nil,
      List.mem_singleton] at hmem
    rcases hmem with hold | hlast
    · exact h.apart hold
    · exact hne hlast

/-- The calls that an observer makes inside `next`. -/
theorem Own.calls {calls : List Call} (h : Own ids s) (hr : Running ids s loop)
    (hnew : (ids ++ calls.flatMap Call.pollingIds).Nodup) :
    Own (ids ++ calls.flatMap Call.pollingIds) (calls.foldl Polling.call s) ∧
      Running (ids ++ calls.flatMap Call.pollingIds) (calls.foldl Polling.call s) loop := by
  induction calls generalizing ids s with
  | nil =>
    rw [List.flatMap_nil, List.append_nil]
    exact ⟨h, hr⟩
  | cons c calls ih =>
    rw [List.flatMap_cons, ← List.append_assoc] at hnew ⊢
    have hfirst := (List.nodup_append.mp hnew).1
    exact ih (h.call hfirst) (hr.call hfirst) hnew

/-- The loop goes on with the latest height, or sleeps until it asks again. -/
theorem latest_own {i : Nat} {result : Except Thrown Nat} (h : Own ids s)
    (hs : latest s i result = some t) : Own ids t := by
  unfold latest at hs
  split at hs
  · rename_i pollingId number next hi
    obtain rfl := Option.some.inj hs
    obtain ⟨hown, hr⟩ := h.resume hi
    cases result with
    | error error => exact hown.caught error
    | ok latestBlockNumber =>
      obtain ⟨htold, hrunning⟩ := hown.told hr latestBlockNumber
      dsimp only
      split
      · exact htold.suspend (hrunning.park .asleep fun _ hp => by cases hp)
          fun _ hp => by cases hp
      · exact Own.poll _ htold hrunning
  · cases hs

private theorem woken_own {i : Nat} (h : Own ids s) (hs : woken s i = some t) : Own ids t := by
  unfold woken at hs
  split at hs
  · rename_i pollingId number next hi
    obtain rfl := Option.some.inj hs
    obtain ⟨hown, hr⟩ := h.resume hi
    split
    · exact hown.suspend (hr.park .latest fun _ hp => by cases hp)
        fun _ hp => by cases hp
    · exact hown
  · cases hs

/-- A block reaches the observer only while the polling id of its loop is the present one. -/
theorem fetched_own {i : Nat} {result : Except Thrown β} {calls : List Call}
    {thrown : Option Thrown} (h : Own ids s)
    (hnew : (ids ++ (Event.fetched i result calls thrown).pollingIds).Nodup)
    (hs : fetched s i result calls thrown = some t) :
    Own (ids ++ (Event.fetched i result calls thrown).pollingIds) t := by
  unfold fetched at hs
  split at hs
  · rename_i pollingId number next latestBlockNumber hi
    obtain rfl := Option.some.inj hs
    obtain ⟨hown, hr⟩ := h.resume hi
    have hle := h.bounded _ (List.mem_of_getElem? hi) latestBlockNumber rfl
    have hignored : Own (ids ++ (Event.fetched i result calls thrown).pollingIds) (resume s i) :=
      hown.mono (List.subset_append_left _ _)
    cases result with
    | error error => exact hignored.caught error
    | ok block =>
      dsimp only
      split
      · rename_i hid
        obtain ⟨hemit, hrunning⟩ := hown.emit hr hid rfl hle block
        obtain ⟨hcalls, hafter⟩ := hemit.calls hrunning hnew
        cases thrown with
        | some error => exact hcalls.caught error
        | none =>
          exact Own.poll ⟨pollingId, number, next + 1, .latest⟩ hcalls hafter
      · exact hignored
  · cases hs

/-- A step that reads new polling ids only keeps the sessions apart. -/
theorem step_own {e : Event β} (h : Own ids s) (hnew : (ids ++ e.pollingIds).Nodup)
    (hs : step s e = some t) : Own (ids ++ e.pollingIds) t := by
  cases e with
  | call c =>
    obtain rfl := Option.some.inj hs
    exact h.call hnew
  | latest i result =>
    rw [Event.pollingIds, List.append_nil]
    exact latest_own h hs
  | woken i =>
    rw [Event.pollingIds, List.append_nil]
    exact woken_own h hs
  | fetched i result calls thrown => exact fetched_own h hnew hs

/-- If no two calls of `subscribe` read the same polling id, then in every state of every run the
blocks of the present session are those requested for consecutive heights from its start block,
none above the latest heights its loop was told; and no block is passed outside a session. -/
theorem sessions_consecutive {es : List (Event β)}
    (h : machine.Run Machine.Free State.init es s) (hdistinct : (pollingIds es).Nodup) :
    s.stray = [] ∧ ∀ session ∈ s.session, Consecutive session := by
  have hown : (pollingIds es).Nodup → Own (pollingIds es) s := by
    refine h.invariant_history (I := fun fs u => (pollingIds fs).Nodup → Own (pollingIds fs) u)
      (fun fs u e v hu _ hv hnodup => ?_) fun _ => Own.init
    have happend : pollingIds (fs ++ [e]) = pollingIds fs ++ e.pollingIds := by
      rw [pollingIds, List.flatMap_append, List.flatMap_singleton]
      rfl
    rw [happend] at hnodup ⊢
    exact step_own (hu (List.nodup_append.mp hnodup).1) hnodup hv
  exact ⟨(hown hdistinct).stray, (hown hdistinct).consecutive⟩

/-- The client subscribes again while block 6 is being fetched. The old loop gets its block late and
passes nothing on; the new one is told of a lower height first, and then passes on block 8. -/
def overlapping : List (Event String) :=
  [.call (.subscribe 1000 5), .latest 0 (.ok 6), .fetched 0 (.ok "five") [] none,
    .call (.subscribe 1001 8), .latest 1 (.ok 7), .fetched 0 (.ok "six") [] none,
    .woken 0, .latest 0 (.ok 9), .fetched 0 (.ok "eight") [] none]

/-- The session of the second subscription has its own block alone. -/
theorem overlapping_consecutive : ∃ s, machine.Run Machine.Free State.init overlapping s ∧
    s.session.map Session.emitted = some [⟨1, 8, "eight"⟩] ∧
    s.stray = [] ∧ ∀ session ∈ s.session, Consecutive session := by
  obtain ⟨s, hr, hemitted⟩ : ∃ s, machine.Run Machine.Free State.init overlapping s ∧
      s.session.map Session.emitted = some [⟨1, 8, "eight"⟩] :=
    Machine.exists_run_of_exec (by decide)
  exact ⟨s, hr, hemitted, sessions_consecutive hr (by decide)⟩

end ChainIndexer.Polling
