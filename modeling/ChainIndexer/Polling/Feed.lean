import ChainIndexer.Core.Gapless
import ChainIndexer.Core.Observe
import ChainIndexer.Polling.Session
import ChainIndexer.Producer.Store

/-!
# What all sessions together pass on

The blocks of all sessions go to one topic, whose consumers keep the branch that the last blocks
leave. The blocks of one session follow each other and those of the next begin at its start block,
so the branch gets a gap exactly where a session starts too far above the last block. It does not
where the session resumes from stored blocks none of which is above the last one.
-/

namespace ChainIndexer.Polling

variable {β : Type} {s t : State β} {ids : List Nat} {loop : Loop} {session : Session β} {i : Nat}

/-- A block that is passed on, and where its session started. -/
structure Passed (β : Type) extends Emission β where
  start : Option Nat
  deriving DecidableEq, Repr

/-- The block that an event passes on, if there is one. -/
def passed (s : State β) : Event β → List (Passed β)
  | .fetched i (.ok block) _ _ => match s.loops[i]? with
    | some ⟨pollingId, session, next, .fetching _⟩ =>
      if s.pollingId = some pollingId then
        [⟨⟨session, next, block⟩, s.session.map Session.start⟩]
      else []
    | _ => []
  | .fetched _ (.error _) _ _ | .call _ | .latest .. | .woken _ => []

/-- The machine with the log of the blocks that it passes on. -/
def feeding : Machine (State β × List (Passed β)) (Event β) :=
  machine.observe fun s e _ log => log ++ passed s e

/-- A block follows another one in its session, or begins a later session. -/
def Joined (a b : Passed β) : Prop :=
  b.session = a.session ∧ b.height = a.height + 1 ∨
    a.session < b.session ∧ b.start = some b.height

/-- A session starts at most one above the last block of an earlier one. -/
def Resumed (a b : Passed β) : Prop := a.session < b.session → b.height ≤ a.height + 1

instance (a b : Passed β) : Decidable (Resumed a b) := inferInstanceAs (Decidable (_ → _))

/-- The log consists of the sessions one after the other, the present one last. -/
structure Fed (s : State β) (log : List (Passed β)) : Prop where
  joined : log.IsChain Joined
  first : ∀ a ∈ log.head?, a.start = some a.height
  earlier : ∀ a ∈ log, a.session < s.subscribed
  numbered : ∀ session ∈ s.session, session.number < s.subscribed
  present : ∀ session ∈ s.session,
    session.emitted = [] ∧ (∀ a ∈ log, a.session < session.number) ∨
    ∃ a ∈ log.getLast?, a.session = session.number ∧
      a.height + 1 = session.start + session.emitted.length

theorem Fed.init : Fed (State.init : State β) [] where
  joined := .nil
  first := nofun
  earlier := nofun
  numbered := nofun
  present := nofun

/-- Only how the session stands matters, and how many there have been. -/
theorem Fed.congr {log : List (Passed β)} (h : Fed s log)
    (hsubscribed : t.subscribed = s.subscribed)
    (hsession : ∀ session ∈ t.session, ∃ before ∈ s.session, before.number = session.number ∧
      before.start = session.start ∧ before.emitted = session.emitted) : Fed t log where
  joined := h.joined
  first := h.first
  earlier := hsubscribed ▸ h.earlier
  numbered session hmem := by
    obtain ⟨before, hbefore, hnumber, -, -⟩ := hsession session hmem
    rw [← hnumber, hsubscribed]
    exact h.numbered before hbefore
  present session hmem := by
    obtain ⟨before, hbefore, hnumber, hstart, hemitted⟩ := hsession session hmem
    rw [← hnumber, ← hstart, ← hemitted]
    exact h.present before hbefore

/-- Neither a suspended loop nor an error matters. -/
theorem Fed.same {log : List (Passed β)} (h : Fed s log) (hsubscribed : t.subscribed = s.subscribed)
    (hsession : t.session = s.session) : Fed t log :=
  h.congr hsubscribed fun session hmem => ⟨session, hsession ▸ hmem, rfl, rfl, rfl⟩

/-- A loop that polls passes nothing on. -/
theorem Fed.poll {log : List (Passed β)} (h : Fed s log) (loop : Loop) (latestBlockNumber : Nat) :
    Fed (poll s loop latestBlockNumber) log := by
  unfold Polling.poll
  split
  · exact h.same rfl rfl
  · exact h

/-- Nor does one that is told of the latest block. -/
theorem Fed.told {log : List (Passed β)} (h : Fed s log) (loop : Loop) (latestBlockNumber : Nat) :
    Fed (told s loop latestBlockNumber) log := by
  refine h.congr rfl fun session hmem => ?_
  obtain ⟨before, hbefore, rfl⟩ := Option.map_eq_some_iff.mp hmem
  refine ⟨before, hbefore, ?_⟩
  split
  · exact ⟨rfl, rfl, rfl⟩
  · exact ⟨rfl, rfl, rfl⟩

/-- A new session has passed nothing on. -/
theorem Fed.call {log : List (Passed β)} (h : Fed s log) (c : Call) : Fed (call s c) log := by
  cases c with
  | unsubscribe => exact ⟨h.joined, h.first, h.earlier, nofun, nofun⟩
  | subscribe pollingId start =>
    refine ⟨h.joined, h.first, fun a ha => Nat.lt_succ_of_lt (h.earlier a ha),
      fun session hmem => ?_, fun session hmem => ?_⟩
    · obtain rfl := Option.some.inj hmem
      exact Nat.lt_succ_self _
    · obtain rfl := Option.some.inj hmem
      exact Or.inl ⟨rfl, h.earlier⟩

/-- Calls of `subscribe` and `unsubscribe` pass nothing on. -/
theorem Fed.calls {log : List (Passed β)} (h : Fed s log) (calls : List Call) :
    Fed (calls.foldl Polling.call s) log := by
  induction calls generalizing s with
  | nil => exact h
  | cons c calls ih => exact ih (h.call c)

/-- The next block of the session continues the log. -/
theorem Fed.emit {log : List (Passed β)} (h : Fed s log) (hsession : s.session = some session)
    (hcarries : Carries session loop) (block : β) :
    Fed (emit s ⟨loop.session, loop.next, block⟩)
      (log ++ [⟨⟨loop.session, loop.next, block⟩, some session.start⟩]) := by
  have hnumbered := h.numbered session hsession
  have hjoins : (∀ a ∈ log.getLast?,
      Joined a ⟨⟨loop.session, loop.next, block⟩, some session.start⟩) ∧
      (log = [] → loop.next = session.start) := by
    rcases h.present session hsession with ⟨hempty, hlower⟩ | ⟨last, hlast, hown, hheight⟩
    · have hnext : loop.next = session.start := by
        rw [hcarries.next, hempty]
        rfl
      refine ⟨fun a ha => Or.inr ⟨?_, congrArg some hnext.symm⟩, fun _ => hnext⟩
      exact Nat.lt_of_lt_of_eq (hlower a (List.mem_of_getLast? ha)) hcarries.number.symm
    · constructor
      · intro a ha
        obtain rfl := Option.some.inj (Option.mem_def.mp ha |>.symm.trans hlast)
        exact Or.inl ⟨hcarries.number.trans hown.symm, hcarries.next.trans hheight.symm⟩
      · rintro rfl
        cases hlast
  unfold Polling.emit
  rw [hsession]
  refine ⟨?_, fun a ha => ?_, fun a ha => ?_, fun after hafter => ?_, fun after hafter => ?_⟩
  · rw [List.isChain_append]
    refine ⟨h.joined, .singleton _, fun a ha b hb => ?_⟩
    obtain rfl := Option.some.inj hb
    exact hjoins.1 a ha
  · cases log with
    | nil =>
      obtain rfl := Option.some.inj ha
      exact congrArg some (hjoins.2 rfl).symm
    | cons first rest => exact h.first a ha
  · rcases List.mem_append.mp ha with hold | hnew
    · exact h.earlier a hold
    · obtain rfl := List.mem_singleton.mp hnew
      exact Nat.lt_of_le_of_lt (Nat.le_of_eq hcarries.number) hnumbered
  · obtain rfl := Option.some.inj hafter
    exact hnumbered
  · obtain rfl := Option.some.inj hafter
    refine Or.inr ⟨_, List.getLast?_concat, hcarries.number, ?_⟩
    change loop.next + 1 = session.start + (session.emitted ++ [_]).length
    rw [List.length_append, List.length_singleton, hcarries.next, Nat.add_assoc]

/-- The answer with the latest block passes nothing on. -/
theorem latest_fed {log : List (Passed β)} {result : Except Thrown Nat} (h : Fed s log)
    (hs : latest s i result = some t) : Fed t log := by
  unfold latest at hs
  split at hs
  · rename_i pollingId number next hi
    obtain rfl := Option.some.inj hs
    have hresumed : Fed (resume s i) log := h.same rfl rfl
    cases result with
    | error error => exact hresumed.same rfl rfl
    | ok latestBlockNumber =>
      have htold := hresumed.told ⟨pollingId, number, next, .latest⟩ latestBlockNumber
      dsimp only
      split
      · exact htold.same rfl rfl
      · exact htold.poll _ _
  · cases hs

/-- Nor does the end of a sleep. -/
theorem woken_fed {log : List (Passed β)} (h : Fed s log) (hs : woken s i = some t) :
    Fed t log := by
  unfold woken at hs
  split at hs
  · obtain rfl := Option.some.inj hs
    split
    · exact h.same rfl rfl
    · exact h.same rfl rfl
  · cases hs

/-- A block that is fetched adds to the log what it passes on. -/
theorem fetched_fed {log : List (Passed β)} {result : Except Thrown β} {calls : List Call}
    {thrown : Option Thrown} (h : Fed s log) (hown : Own ids s)
    (hs : fetched s i result calls thrown = some t) :
    Fed t (log ++ passed s (.fetched i result calls thrown)) := by
  unfold fetched at hs
  split at hs
  · rename_i pollingId number next latestBlockNumber hi
    obtain rfl := Option.some.inj hs
    have hresumed : Fed (resume s i) log := h.same rfl rfl
    cases result with
    | error error =>
      rw [passed, List.append_nil]
      exact hresumed.same rfl rfl
    | ok block =>
      rw [passed, hi]
      dsimp only
      split
      · rename_i hid
        obtain ⟨session, hsession, hcarries⟩ := hown.current _ (List.mem_of_getElem? hi) hid
        have hemitted := (hresumed.emit hsession hcarries block).calls calls
        rw [hsession, Option.map_some]
        cases thrown with
        | some error => exact hemitted.same rfl rfl
        | none => exact hemitted.poll _ _
      · rw [List.append_nil]
        exact hresumed
  · cases hs

/-- Every event keeps the log in step with the sessions. -/
theorem step_fed {log : List (Passed β)} {e : Event β} (h : Fed s log) (hown : Own ids s)
    (hs : step s e = some t) : Fed t (log ++ passed s e) := by
  cases e with
  | call c =>
    obtain rfl := Option.some.inj hs
    rw [passed, List.append_nil]
    exact h.call c
  | latest i result =>
    rw [passed, List.append_nil]
    exact latest_fed h hs
  | woken i =>
    rw [passed, List.append_nil]
    exact woken_fed h hs
  | fetched i result calls thrown => exact fetched_fed h hown hs

/-- So does every run whose subscriptions read distinct polling ids. -/
theorem feeding_fed {es : List (Event β)} {log : List (Passed β)}
    (h : feeding.Run Machine.Free (State.init, []) es (s, log))
    (hdistinct : (pollingIds es).Nodup) :
    Fed s log := by
  have hboth : (pollingIds es).Nodup → Own (pollingIds es) s ∧ Fed s log := by
    have hinit : Own (pollingIds ([] : List (Event β))) (State.init : State β) ∧
        Fed (State.init : State β) [] :=
      ⟨Own.init, Fed.init⟩
    refine h.invariant_history (I := fun fs u => (pollingIds fs).Nodup →
      Own (pollingIds fs) u.1 ∧ Fed u.1 u.2) (fun fs u e v hu _ hv hnodup => ?_) fun _ => hinit
    obtain ⟨hstep, hlog⟩ := Machine.observe_step.mp hv
    have happend : pollingIds (fs ++ [e]) = pollingIds fs ++ e.pollingIds := by
      rw [pollingIds, List.flatMap_append, List.flatMap_singleton]
      rfl
    rw [happend] at hnodup ⊢
    obtain ⟨hown, hfed⟩ := hu (List.nodup_append.mp hnodup).1
    rw [← hlog]
    exact ⟨step_own hown hnodup hstep, step_fed hfed hown hstep⟩
  exact (hboth hdistinct).2

/-- Within a session the heights are next to each other. -/
theorem Fed.adjoins_iff {log : List (Passed β)} (h : Fed s log) :
    log.IsChain (Adjoins fun a => a.height) ↔ log.IsChain Resumed := by
  have hjoined := List.isChain_iff_getElem.mp h.joined
  rw [List.isChain_iff_getElem, List.isChain_iff_getElem]
  refine forall_congr' fun i => forall_congr' fun hi => ?_
  rcases hjoined i hi with ⟨hsame, hnext⟩ | ⟨hlater, -⟩
  · exact iff_of_true (Nat.le_of_eq hnext) fun hlt => absurd hsame.symm (Nat.ne_of_lt hlt)
  · exact ⟨fun hle _ => hle, fun hresumed => hresumed hlater⟩

/-- A later session resumes from stored blocks none of which is above the last height, and the start
block is at most one above it. -/
def ResumesFrom (cfg : Producer.Config) (a b : Passed β) : Prop :=
  a.session < b.session → cfg.startBlock ≤ a.height + 1 ∧
    ∃ (store : Producer.Store) (remote : Nat → Option String),
      cfg.getStartBlock store remote = some (b.height : Int) ∧
      ∀ block ∈ store.blocks, block.number ≤ a.height

/-- A session that resumes from the store starts at most one above the last block. -/
theorem ResumesFrom.resumed {cfg : Producer.Config} {a b : Passed β} (h : ResumesFrom cfg a b) :
    Resumed a b := by
  intro hlater
  obtain ⟨hstart, store, remote, hfound, hstored⟩ := h hlater
  have hle := Producer.Config.getStartBlock_le hstart
    (fun block hmem => Nat.lt_succ_of_le (hstored block hmem)) hfound
  omega

/-- **The topic of a poller.** If no two calls of `subscribe` read the same polling id, what all
sessions pass on is one session after the other, each of them consecutive from its start block. The
branch of the topic never gets a gap exactly if no session starts more than one above the last
block, as when the start block of the configuration is at most one above it and the session resumes
from stored blocks none of which is above it. -/
theorem feed_gapless_iff {es : List (Event β)} {log : List (Passed β)}
    (h : feeding.Run Machine.Free (State.init, []) es (s, log))
    (hdistinct : (pollingIds es).Nodup) :
    (∀ a ∈ log.head?, a.start = some a.height) ∧ log.IsChain Joined ∧
      ((∀ before, before <+: log → Gapless (fun a => a.height) before) ↔ log.IsChain Resumed) ∧
      ∀ cfg, log.IsChain (ResumesFrom cfg) → log.IsChain Resumed := by
  have hfed := feeding_fed h hdistinct
  refine ⟨hfed.first, hfed.joined, ?_, fun cfg hresumes => ?_⟩
  · exact (prefixes_gapless_iff log).trans hfed.adjoins_iff
  · exact hresumes.imp fun _ _ hab => hab.resumed

/-- The second session goes back to block 6, as after a re-org, and the third one starts at 9. -/
def threeSessions : List (Event String) :=
  [.call (.subscribe 1 5), .latest 0 (.ok 7), .fetched 0 (.ok "five") [] none,
    .fetched 0 (.ok "six") [] none, .fetched 0 (.ok "seven") [] none, .call (.subscribe 2 6),
    .latest 1 (.ok 6), .fetched 1 (.ok "other six") [] none, .call (.subscribe 3 9),
    .latest 2 (.ok 9), .fetched 2 (.ok "nine") [] none]

/-- The gap is where the third session starts. -/
theorem threeSessions_gap : ∃ s log,
    feeding.Run Machine.Free (State.init, []) threeSessions (s, log) ∧
      log.map (fun a => a.height) = [5, 6, 7, 6, 9] ∧ ¬ log.IsChain Resumed ∧
      ((∀ before, before <+: log → Gapless (fun a => a.height) before) ↔ log.IsChain Resumed) := by
  obtain ⟨⟨s, log⟩, hr, hheights, hgap⟩ : ∃ p : State String × List (Passed String),
      feeding.Run Machine.Free (State.init, []) threeSessions p ∧
        p.2.map (fun a => a.height) = [5, 6, 7, 6, 9] ∧ ¬ p.2.IsChain Resumed :=
    Machine.exists_run_of_exec (by decide)
  exact ⟨s, log, hr, hheights, hgap, (feed_gapless_iff hr (by decide)).2.2.1⟩

end ChainIndexer.Polling
