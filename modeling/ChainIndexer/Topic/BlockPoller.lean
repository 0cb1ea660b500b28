import ChainIndexer.Polling.Feed
import ChainIndexer.Topic.Unbroken

/-!
# The producer with a block poller

A `BlockPollerProducer` subscribes to a block poller. Its observer produces the blocks that the
polling loops fetch, for the height they were requested for. As long as no two starts of a process
read the same polling id, only the loop of the last start passes on blocks, so the producer sees
them one after the other from its start block on, and its topic never gets a gap.
-/

namespace ChainIndexer.BlockPollerProducer

open Producer (Config)
open Topic (Unbroken)

/-- The producer and its poller, which knows of a block only its hash. -/
structure State where
  topic : Topic.State := .init
  polling : Polling.State String := .init
  /-- The polling ids that the present process has read. -/
  pollingIds : List Nat := []

/-- The first process, before its first start. -/
def State.init : State := {}

/-- What may happen next. -/
inductive Event where
  /-- `start`; the polling id is what `Date.now()` reads. -/
  | start (remote : Nat → Option String) (pollingId : Nat)
  /-- `stop` unsubscribes. -/
  | unsubscribe
  /-- The latest block is known. -/
  | latest (i : Nat) (result : Except Thrown Nat)
  /-- A polling loop wakes up. -/
  | woken (i : Nat)
  /-- A block is there. -/
  | fetched (i : Nat) (result : Except Thrown String)
  /-- Something else happens in the producer. -/
  | producer (e : Producer.Event)
  | disconnect (reached : Nat)
  | die (reached : Nat)

/-- `observer.next` produces the block. -/
def observe (cfg : Config) (topic : Topic.State) (passed : Polling.Passed String) :
    Option Topic.State :=
  (Producer.step cfg topic.producer (.emit ⟨passed.height, passed.block⟩)).map fun producer =>
    { topic with producer := producer, next := some (passed.height + 1) }

/-- An event of the poller. -/
def poll (cfg : Config) (s : State) (e : Polling.Event String) : Option State :=
  (Polling.step s.polling e).bind fun polling =>
    ((Polling.passed s.polling e).foldlM (observe cfg) s.topic).map fun topic =>
      { s with topic := topic, polling := polling }

/-- One event. -/
def step (cfg : Config) (s : State) : Event → Option State
  | .start remote pollingId =>
    (Topic.start cfg s.topic remote).bind fun topic => topic.next.map fun number =>
      { topic := topic
        polling := Polling.call s.polling (.subscribe pollingId number)
        pollingIds := s.pollingIds ++ [pollingId] }
  | .unsubscribe => some { s with polling := Polling.call s.polling .unsubscribe }
  | .latest i result => poll cfg s (.latest i result)
  | .woken i => poll cfg s (.woken i)
  | .fetched i result => poll cfg s (.fetched i result [] none)
  | .producer e => (Topic.inner cfg s.topic e).map fun topic => { s with topic := topic }
  | .disconnect reached =>
    (Topic.step cfg s.topic (.disconnect reached)).map fun topic => { s with topic := topic }
  | .die reached =>
    (Topic.step cfg s.topic (.die reached)).map fun topic => { topic := topic }

/-- The machine of all processes of the producer. -/
def machine (cfg : Config) : Machine State Event where
  step := step cfg

/-- The starts of one process read distinct polling ids, and the producer's events are orderly. -/
def Orderly (s : State) : Event → Prop
  | .start remote pollingId => pollingId ∉ s.pollingIds ∧ Topic.Orderly s.topic (.start remote)
  | .producer e => Topic.Orderly s.topic (.producer e)
  | _ => True

instance (s : State) (e : Event) : Decidable (Orderly s e) := by
  unfold Orderly
  split <;> infer_instance

variable {cfg : Config} {s t : State} {p q : Polling.State String} {number : Nat}

/-- The height after the last block of the session. -/
def ahead (p : Polling.State String) : Option Nat :=
  p.session.map fun session => session.start + session.emitted.length

/-- That a height was told changes nothing of what comes. -/
theorem ahead_told (p : Polling.State String) (loop : Polling.Loop) (latestBlockNumber : Nat) :
    ahead (Polling.told p loop latestBlockNumber) = ahead p := by
  rw [ahead, ahead, Polling.told, Option.map_map]
  refine congrArg (fun f => Option.map f p.session) (funext fun session => ?_)
  dsimp only [Function.comp]
  split <;> rfl

/-- Nor does a poll. -/
theorem ahead_poll (p : Polling.State String) (loop : Polling.Loop) (latestBlockNumber : Nat) :
    ahead (Polling.poll p loop latestBlockNumber) = ahead p := by
  unfold Polling.poll
  split <;> rfl

/-- The answer of the latest block passes nothing on. -/
theorem ahead_latest {i : Nat} {result : Except Thrown Nat}
    (h : Polling.latest p i result = some q) : ahead q = ahead p := by
  unfold Polling.latest at h
  split at h
  · obtain rfl := Option.some.inj h
    cases result with
    | error error => rfl
    | ok latestBlockNumber =>
      dsimp only
      split
      · exact ahead_told (Polling.resume p i) _ _
      · rw [ahead_poll]
        exact ahead_told (Polling.resume p i) _ _
  · cases h

private theorem ahead_woken {i : Nat} (h : Polling.woken p i = some q) : ahead q = ahead p := by
  unfold Polling.woken at h
  split at h
  · obtain rfl := Option.some.inj h
    split <;> rfl
  · cases h

/-- What the loop of the last start fetches is passed on, and nothing else. -/
theorem ahead_fetched {ids : List Nat} {i : Nat} {result : Except Thrown String}
    (hown : Polling.Own ids p) (h : Polling.fetched p i result [] none = some q) :
    Polling.passed p (.fetched i result [] none) = [] ∧ ahead q = ahead p ∨
    ∃ a, Polling.passed p (.fetched i result [] none) = [a] ∧ ahead p = some a.height ∧
      ahead q = some (a.height + 1) := by
  unfold Polling.fetched at h
  split at h
  · rename_i pollingId number next latestBlockNumber hi
    obtain rfl := Option.some.inj h
    cases result with
    | error error => exact Or.inl ⟨rfl, rfl⟩
    | ok block =>
      rw [Polling.passed, hi]
      dsimp only
      split
      · rename_i hid
        obtain ⟨session, hsession, hcarries⟩ := hown.current _ (List.mem_of_getElem? hi) hid
        have hnext : next = session.start + session.emitted.length := hcarries.next
        refine Or.inr ⟨_, rfl, ?_, ?_⟩
        · rw [ahead, hsession, hnext]
          rfl
        · rw [ahead_poll, ahead]
          simp only [Polling.emit, Polling.resume, hsession, List.foldl_nil, Option.map_some,
            List.length_append, List.length_singleton, hnext]
          rfl
      · exact Or.inl ⟨rfl, rfl⟩
  · cases h

/-- The poller is about to pass on what the producer takes to come next. -/
structure Linked (s : State) : Prop where
  distinct : s.pollingIds.Nodup
  own : Polling.Own s.pollingIds s.polling
  next : ∀ number ∈ ahead s.polling, s.topic.next = some number

theorem Linked.init : Linked State.init where
  distinct := .nil
  own := .init
  next := nofun

/-- The producer cannot tell the poller from a subscription that passes on the next block. -/
def Simulates (cfg : Config) (s t : State) : Prop :=
  Linked t ∧ (Topic.machine cfg).Reach Topic.Orderly s.topic t.topic

/-- An event of the poller passes on the next block or none. -/
theorem poll_simulates {e : Polling.Event String} (hl : Linked s) (hids : e.pollingIds = [])
    (hahead : ∀ q, Polling.step s.polling e = some q →
      Polling.passed s.polling e = [] ∧ ahead q = ahead s.polling ∨
      ∃ a, Polling.passed s.polling e = [a] ∧ ahead s.polling = some a.height ∧
        ahead q = some (a.height + 1))
    (h : poll cfg s e = some t) : Simulates cfg s t := by
  obtain ⟨q, hq, ht⟩ := Option.bind_eq_some_iff.mp h
  obtain ⟨topic, htopic, rfl⟩ := Option.map_eq_some_iff.mp ht
  have hown : Polling.Own s.pollingIds q := by
    have hstep := Polling.step_own hl.own (by rw [hids, List.append_nil]; exact hl.distinct) hq
    rwa [hids, List.append_nil] at hstep
  rcases hahead q hq with ⟨hnone, hsame⟩ | ⟨a, hpassed, hbefore, hafter⟩
  · rw [hnone] at htopic
    obtain rfl := Option.some.inj htopic
    exact ⟨⟨hl.distinct, hown, fun number hnumber => hl.next number (hsame ▸ hnumber)⟩, .refl _ _⟩
  · rw [hpassed, List.foldlM_cons] at htopic
    obtain ⟨producer, hproducer, htopic⟩ := Option.bind_eq_some_iff.mp htopic
    obtain rfl := Option.some.inj htopic
    have hnext : Topic.step cfg s.topic (.next a.block) = some producer := by
      rw [Topic.step, Topic.next, hl.next _ hbefore]
      exact hproducer
    refine ⟨⟨hl.distinct, hown, fun number hnumber => ?_⟩,
      .single (e := .next a.block) trivial hnext⟩
    obtain ⟨_, _, rfl⟩ := Option.map_eq_some_iff.mp hproducer
    exact congrArg some (Option.some.inj (hafter.symm.trans hnumber))

/-- Every event in order simulates events of the abstract producer. -/
theorem step_simulates {e : Event} (hl : Linked s) (hg : Orderly s e)
    (h : step cfg s e = some t) : Simulates cfg s t := by
  cases e with
  | start remote pollingId =>
    obtain ⟨topic, hstart, ht⟩ := Option.bind_eq_some_iff.mp h
    obtain ⟨number, hnumber, rfl⟩ := Option.map_eq_some_iff.mp ht
    have hdistinct : (s.pollingIds ++ [pollingId]).Nodup :=
      List.nodup_append.mpr ⟨hl.distinct, List.nodup_singleton _, fun a ha b hb => by
        obtain rfl := List.mem_singleton.mp hb
        rintro rfl
        exact hg.1 ha⟩
    have hown := hl.own.call (c := .subscribe pollingId number) hdistinct
    refine ⟨⟨hdistinct, hown, fun k hk => ?_⟩, .single hg.2 hstart⟩
    obtain rfl := Option.some.inj hk
    exact hnumber
  | unsubscribe =>
    obtain rfl := Option.some.inj h
    have hown := hl.own.call (c := .unsubscribe) (by
      rw [Polling.Call.pollingIds, List.append_nil]
      exact hl.distinct)
    rw [Polling.Call.pollingIds, List.append_nil] at hown
    exact ⟨⟨hl.distinct, hown, nofun⟩, .refl _ _⟩
  | latest i result =>
    exact poll_simulates (e := .latest i result) hl rfl
      (fun q hq => Or.inl ⟨rfl, ahead_latest hq⟩) h
  | woken i =>
    exact poll_simulates (e := .woken i) hl rfl (fun q hq => Or.inl ⟨rfl, ahead_woken hq⟩) h
  | fetched i result =>
    exact poll_simulates (e := .fetched i result [] none) hl rfl
      (fun q hq => ahead_fetched hl.own hq) h
  | producer e =>
    obtain ⟨topic, htopic, rfl⟩ := Option.map_eq_some_iff.mp h
    obtain ⟨producer, _, rfl⟩ := Topic.inner_eq htopic
    exact ⟨⟨hl.distinct, hl.own, hl.next⟩, .single hg htopic⟩
  | disconnect reached =>
    cases h
    exact ⟨⟨hl.distinct, hl.own, hl.next⟩, .single (e := .disconnect reached) trivial rfl⟩
  | die reached =>
    cases h
    exact ⟨⟨.nil, .init, nofun⟩, .single (e := .die reached) trivial rfl⟩

/-- So does every run. -/
theorem simulates_of_run {es : List Event} (h : (machine cfg).Run Orderly State.init es s) :
    (Topic.machine cfg).Reach Topic.Orderly .init s.topic :=
  (h.simulate State.topic (fun _ _ _ hl hg hs => step_simulates hl hg hs) Linked.init).2

/-- Hence the branch of the topic is unbroken. -/
theorem unbroken_of_run {es : List Event} (h : (machine cfg).Run Orderly State.init es s) :
    Unbroken cfg s.topic := by
  obtain ⟨_, hr⟩ := simulates_of_run h
  exact (Topic.kept_of_run hr).unbroken

/-- **A block poller producer** is a producer whose subscription passes on one block after the
other, over any number of processes, and so its topic never gets a gap. -/
theorem poller_unbroken {es : List Event} (h : (machine cfg).Run Orderly State.init es s) :
    (Topic.machine cfg).Reach Topic.Orderly .init s.topic ∧ Unbroken cfg s.topic :=
  ⟨simulates_of_run h, unbroken_of_run h⟩

/-- A block that has been passed on is produced and delivered. -/
def deliverNext : List Event :=
  [.producer (.produced 0 none), .producer (.deliveryReport none (some 0))]

/-- The producer starts again while the old loop fetches block 11, which is then dropped, and the
process dies before block 11 is stored. -/
def restarted : List Event :=
  [.producer .listen, .start (Topic.chain "0xb") 1000, .latest 0 (.ok 12),
    .fetched 0 (.ok "0xa")] ++ deliverNext ++
    [.producer (.created false), .producer (.deleted false), .unsubscribe,
    .start (Topic.chain "0xb") 1001, .fetched 0 (.ok "0xb"), .latest 0 (.ok 12),
    .fetched 0 (.ok "0xb")] ++ deliverNext ++ [.die 0, .start (Topic.chain "0xb1") 1000,
    .latest 0 (.ok 11), .fetched 0 (.ok "0xb1")] ++ deliverNext

/-- Block 11 is delivered twice, and the branch has no gap. -/
theorem restarted_unbroken : ∃ s, (machine Producer.fromTen).Run Orderly State.init restarted s ∧
    s.topic.topic = [⟨10, "0xa"⟩, ⟨11, "0xb"⟩, ⟨11, "0xb1"⟩] ∧
    Unbroken Producer.fromTen s.topic := by
  obtain ⟨s, hr, htopic⟩ : ∃ s, (machine Producer.fromTen).Run Orderly State.init restarted s ∧
      s.topic.topic = [⟨10, "0xa"⟩, ⟨11, "0xb"⟩, ⟨11, "0xb1"⟩] :=
    Machine.exists_run_of_exec (by decide)
  exact ⟨s, hr, htopic, (poller_unbroken hr).2⟩

end ChainIndexer.BlockPollerProducer
