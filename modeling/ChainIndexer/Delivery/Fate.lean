import ChainIndexer.Delivery.State

/-!
# The fate of a message

A call should be settled by the first of three events of its own message: it is refused, it is
reported on, or its timer fires. A refusal reaches no promise, a report of the default topic
reaches no listener, and a report with an error reaches all of them. Every call gets the fate
of its message exactly where these three meet calls that are settled already.
-/

namespace ChainIndexer.Delivery

variable {cfg : Config} {s u : State} {e : Event} {es : List Event} {i : Nat} {call : Call}

/-- What an event says about the message of the call at place `i`. -/
def Event.settles (cfg : Config) (i : Nat) : Event → Option Outcome
  | .sent j (some error) => if j = i then some (.rejected (sendError error)) else none
  | .reported j error report => if j = i then some (outcomeOf error report) else none
  | .timeout j =>
    if j = i then some (.rejected (KafkaError.deliveryTimedOut cfg.deliveryTimeout)) else none
  | .produceEvent _ | .sent _ none => none

/-- The first event that says anything about the message of the call at place `i` decides. -/
def fate (cfg : Config) (es : List Event) (i : Nat) : Option Outcome :=
  es.findSome? (Event.settles cfg i)

/-- Every call is settled as its own message fares, and by nothing else. -/
def Fated (cfg : Config) (es : List Event) (s : State) : Prop :=
  ∀ i, ∀ call ∈ s.calls[i]?, call.outcome = fate cfg es i

/-- A refused message belongs to a call that is settled, as does a delivered message without a
topic; and a report with an error finds every other call settled. -/
def Call.Spared (call : Call) (i : Nat) : Event → Prop
  | .sent j (some _) => j = i → call.outcome.isSome = true
  | .reported j none _ => j = i → call.topic.isSome = true ∨ call.outcome.isSome = true
  | .reported j (some _) _ => j ≠ i → call.outcome.isSome = true
  | .produceEvent _ | .sent _ none | .timeout _ => True

/-- The event spares every call. -/
def Spares (s : State) (e : Event) : Prop :=
  ∀ i < s.calls.length, ∀ call ∈ s.calls[i]?, call.Spared i e

instance (call : Call) (i : Nat) : (e : Event) → Decidable (call.Spared i e)
  | .sent j (some _) => inferInstanceAs (Decidable (j = i → _))
  | .reported j none _ => inferInstanceAs (Decidable (j = i → _ ∨ _))
  | .reported j (some _) _ => inferInstanceAs (Decidable (j ≠ i → _))
  | .produceEvent _ | .sent _ none | .timeout _ => .isTrue trivial

instance (s : State) (e : Event) : Decidable (Spares s e) :=
  inferInstanceAs (Decidable (∀ i < s.calls.length, ∀ call ∈ s.calls[i]?, call.Spared i e))

/-- A call that is not settled still listens and its timer is running. -/
def Call.Alert (call : Call) : Prop :=
  call.outcome = none → call.listening = true ∧ call.timer = true

/-- The calls follow their messages. -/
structure Followed (cfg : Config) (es : List Event) (s : State) : Prop where
  fated : Fated cfg es s
  fresh : ∀ i, s.calls.length ≤ i → fate cfg es i = none
  alert : ∀ call ∈ s.calls, call.Alert

theorem Followed.init : Followed cfg [] State.init where
  fated := by simp [Fated, State.init]
  fresh _ _ := rfl
  alert := by simp [State.init]

/-- A later event decides only what is undecided. -/
theorem fate_snoc : fate cfg (es ++ [e]) i = (fate cfg es i).or (e.settles cfg i) := by
  rw [fate, List.findSome?_append, List.findSome?_singleton]
  rfl

/-- An event that makes no call is judged call by call. -/
theorem Followed.each {P : Nat → Call → Prop} (h : Followed cfg es s)
    (hlength : u.calls.length = s.calls.length)
    (hfresh : ∀ i, s.calls.length ≤ i → e.settles cfg i = none)
    (hcalls : ∀ i call, s.calls[i]? = some call → ∃ after, u.calls[i]? = some after ∧
      (after.outcome = call.outcome.or (e.settles cfg i) ↔ P i call) ∧
      (P i call → after.Alert)) :
    (Fated cfg (es ++ [e]) u ↔ ∀ i < s.calls.length, ∀ call ∈ s.calls[i]?, P i call) ∧
      ((∀ i < s.calls.length, ∀ call ∈ s.calls[i]?, P i call) →
        Followed cfg (es ++ [e]) u) := by
  have hiff : Fated cfg (es ++ [e]) u ↔
      ∀ i < s.calls.length, ∀ call ∈ s.calls[i]?, P i call := by
    constructor
    · intro hfated i _ call hcall
      obtain ⟨after, hafter, hP, _⟩ := hcalls i call hcall
      rw [← hP, hfated i after hafter, fate_snoc, h.fated i call hcall]
    · intro hall i after hafter
      have hi : i < s.calls.length := hlength ▸ (List.getElem?_eq_some_iff.mp hafter).1
      have hcall := List.getElem?_eq_getElem hi
      obtain ⟨other, hother, hP, _⟩ := hcalls i _ hcall
      obtain rfl := Option.some.inj (hother.symm.trans hafter)
      rw [fate_snoc, ← h.fated i _ hcall]
      exact hP.mpr (hall i hi _ hcall)
  refine ⟨hiff, fun hall => ⟨hiff.mpr hall, fun i hi => ?_, fun after hafter => ?_⟩⟩
  · rw [hlength] at hi
    rw [fate_snoc, h.fresh i hi, hfresh i hi]
    rfl
  · obtain ⟨i, hi, hget⟩ := List.getElem_of_mem hafter
    have hi' : i < s.calls.length := hlength ▸ hi
    have hcall := List.getElem?_eq_getElem hi'
    obtain ⟨other, hother, _, halert⟩ := hcalls i _ hcall
    obtain rfl := Option.some.inj (hother.symm.trans (List.getElem?_eq_some_iff.mpr ⟨hi, hget⟩))
    exact halert (hall i hi' _ hcall)

/-- Only the call at place `i` moves, and the event is about its message. -/
theorem Followed.set {after : Call} (h : Followed cfg es s) (hcall : s.calls[i]? = some call)
    (hcalls : u.calls = s.calls.set i after) (hother : ∀ j ≠ i, e.settles cfg j = none)
    (hspares : ∀ j ≠ i, ∀ other : Call, other.Spared j e)
    (hown : after.outcome = call.outcome.or (e.settles cfg i) ↔ call.Spared i e)
    (halert : call.Alert → call.Spared i e → after.Alert) :
    (Fated cfg (es ++ [e]) u ↔ Spares s e) ∧ (Spares s e → Followed cfg (es ++ [e]) u) := by
  have hi := (List.getElem?_eq_some_iff.mp hcall).1
  refine h.each (by rw [hcalls, List.length_set]) (fun j hj => hother j (by omega)) ?_
  intro j other hj
  rcases eq_or_ne j i with rfl | hne
  · obtain rfl := Option.some.inj (hj.symm.trans hcall)
    exact ⟨after, by rw [hcalls, List.getElem?_set_self hi], hown,
      halert (h.alert _ (List.mem_of_getElem? hj))⟩
  · refine ⟨other, by rw [hcalls, List.getElem?_set_ne hne.symm, hj], ?_, fun _ => ?_⟩
    · rw [hother j hne, Option.or_none]
      exact iff_of_true rfl (hspares j hne other)
    · exact h.alert _ (List.mem_of_getElem? hj)

theorem settle_alert (call : Call) (outcome : Outcome) : (call.settle outcome).Alert := by
  intro h
  simp [Call.settle] at h

/-- A call that does not listen is settled. -/
theorem Call.Alert.settled (h : call.Alert) (hl : call.listening ≠ true) :
    call.outcome.isSome = true :=
  Option.isSome_iff_ne_none.mpr fun hnone => hl (h hnone).1

/-- Nothing is added to a settled promise. -/
theorem or_eq_self_iff {outcome : Option Outcome} {later : Outcome} :
    outcome = outcome.or (some later) ↔ outcome.isSome = true := by
  cases outcome with
  | none => simp
  | some first => simp

/-- A report without an error is heard by the call it is meant for, if its topic was given. -/
theorem deliveryListener_delivered {report : DeliveryReport} (halert : call.Alert)
    (htopic : report.identifier = i → report.topic = call.sentTo cfg) :
    ((deliveryListener none report i call).outcome =
        call.outcome.or (if report.identifier = i then some (outcomeOf none report) else none) ↔
      (report.identifier = i → call.topic.isSome = true ∨ call.outcome.isSome = true)) ∧
    (deliveryListener none report i call).Alert := by
  unfold deliveryListener
  split
  · rename_i hheard
    obtain ⟨_, herror | ⟨hown, htopic'⟩⟩ := hheard
    · cases herror
    · refine ⟨?_, settle_alert _ _⟩
      rw [if_pos hown, ← htopic']
      exact iff_of_true rfl fun _ => Or.inl rfl
  · rename_i hdeaf
    refine ⟨?_, halert⟩
    by_cases hown : report.identifier = i
    · rw [if_pos hown, or_eq_self_iff]
      constructor
      · exact fun hsome _ => Or.inr hsome
      · intro h
        rcases h hown with hgiven | hsome
        · obtain ⟨topic, hgiven⟩ := Option.isSome_iff_exists.mp hgiven
          refine halert.settled fun hl => hdeaf ⟨hl, Or.inr ⟨hown, ?_⟩⟩
          rw [htopic hown, Call.sentTo, hgiven]
          rfl
        · exact hsome
    · rw [if_neg hown, Option.or_none]
      exact iff_of_true rfl fun h => absurd h hown

/-- A report with an error is heard by every call that listens. -/
theorem deliveryListener_failed (error : LibrdKafkaError) {report : DeliveryReport}
    (halert : call.Alert) :
    ((deliveryListener (some error) report i call).outcome =
        call.outcome.or (if report.identifier = i then
          some (outcomeOf (some error) report) else none) ↔
      (report.identifier ≠ i → call.outcome.isSome = true)) ∧
    (deliveryListener (some error) report i call).Alert := by
  unfold deliveryListener
  split
  · refine ⟨?_, settle_alert _ _⟩
    by_cases hown : report.identifier = i
    · rw [if_pos hown]
      exact iff_of_true rfl fun h => absurd hown h
    · rw [if_neg hown, Option.or_none, eq_comm]
      exact or_eq_self_iff.trans ⟨fun h _ => h, fun h => h hown⟩
  · rename_i hdeaf
    have hsome := halert.settled fun hl => hdeaf ⟨hl, Or.inl rfl⟩
    refine ⟨iff_of_true ?_ fun _ => hsome, halert⟩
    split
    · exact or_eq_self_iff.mpr hsome
    · exact (Option.or_none).symm

/-- A report is judged call by call, after its message has been marked as reported. -/
theorem Followed.reported {error : Option LibrdKafkaError} {report : DeliveryReport}
    (h : Followed cfg es s) (hs : reported cfg s i error report = some u) :
    (Fated cfg (es ++ [.reported i error report]) u ↔ Spares s (.reported i error report)) ∧
      (Spares s (.reported i error report) →
        Followed cfg (es ++ [.reported i error report]) u) := by
  unfold Delivery.reported at hs
  split at hs
  · cases hs
  · rename_i call hcall
    split at hs
    · rename_i hmeant
      obtain ⟨_, rfl, htopic⟩ := hmeant
      obtain rfl := Option.some.inj hs
      refine h.each (by simp) (fun j hj => ?_) fun j other hj => ?_
      · have hi := (List.getElem?_eq_some_iff.mp hcall).1
        exact if_neg (by omega)
      · -- the marked call differs from the one before in nothing that the listener reads
        obtain ⟨marked, hmarked, houtcome, htopics, hsent, halert⟩ : ∃ marked : Call,
            (s.calls.set report.identifier { call with sending := .reported })[j]? =
              some marked ∧ marked.outcome = other.outcome ∧ marked.topic = other.topic ∧
              (report.identifier = j → report.topic = marked.sentTo cfg) ∧ marked.Alert := by
          have hother := h.alert _ (List.mem_of_getElem? hj)
          rcases eq_or_ne report.identifier j with hown | hne
          · subst hown
            obtain rfl := Option.some.inj (hj.symm.trans hcall)
            exact ⟨_, List.getElem?_set_self (List.getElem?_eq_some_iff.mp hcall).1, rfl, rfl,
              fun _ => htopic, hother⟩
          · exact ⟨other, by rw [List.getElem?_set_ne hne, hj], rfl, rfl,
              fun hown => absurd hown hne, hother⟩
        refine ⟨deliveryListener error report j marked, ?_, ?_⟩
        · rw [List.getElem?_mapIdx, hmarked]
          rfl
        · rw [← houtcome]
          cases error with
          | none =>
            obtain ⟨hiff, hafter⟩ := deliveryListener_delivered halert hsent
            refine ⟨hiff.trans ?_, fun _ => hafter⟩
            rw [Call.Spared, htopics, houtcome]
          | some error =>
            obtain ⟨hiff, hafter⟩ := deliveryListener_failed error halert
            refine ⟨hiff.trans ?_, fun _ => hafter⟩
            rw [Call.Spared, houtcome]
    · cases hs

/-- Refused or accepted, the message says something about its own call only. -/
theorem Followed.sent {failure : Option Thrown} (h : Followed cfg es s)
    (hs : sent s i failure = some u) :
    (Fated cfg (es ++ [.sent i failure]) u ↔ Spares s (.sent i failure)) ∧
      (Spares s (.sent i failure) → Followed cfg (es ++ [.sent i failure]) u) := by
  unfold Delivery.sent at hs
  split at hs
  · cases hs
  · rename_i call hcall
    split at hs
    · obtain rfl := Option.some.inj hs
      cases failure with
      | none =>
        exact h.set hcall rfl (fun _ _ => rfl) (fun _ _ _ => trivial)
          (iff_of_true (Option.or_none).symm trivial) fun halert _ => halert
      | some error =>
        refine h.set hcall rfl (fun j hne => if_neg hne.symm)
          (fun j hne _ hown => absurd hown.symm hne) ?_ fun _ hspared hnone => ?_
        · rw [Event.settles, if_pos rfl]
          exact or_eq_self_iff.trans ⟨fun hsome _ => hsome, fun hspared => hspared rfl⟩
        · have hsome := hspared rfl
          rw [hnone] at hsome
          cases hsome
    · cases hs

/-- A timer settles its own call. -/
theorem Followed.timeout (h : Followed cfg es s) (hs : timeout cfg s i = some u) :
    (Fated cfg (es ++ [.timeout i]) u ↔ Spares s (.timeout i)) ∧
      (Spares s (.timeout i) → Followed cfg (es ++ [.timeout i]) u) := by
  unfold Delivery.timeout at hs
  split at hs
  · cases hs
  · rename_i call hcall
    split at hs
    · obtain rfl := Option.some.inj hs
      refine h.set hcall rfl (fun j hne => if_neg hne.symm) (fun _ _ _ => trivial) ?_
        fun _ _ => settle_alert _ _
      rw [Event.settles, if_pos rfl]
      exact iff_of_true rfl trivial
    · cases hs

/-- A new call has no fate yet. -/
theorem Followed.produceEvent (h : Followed cfg es s) (topic : Option String) :
    Followed cfg (es ++ [.produceEvent topic]) (produceEvent s topic) := by
  have hfate : ∀ i, fate cfg (es ++ [.produceEvent topic]) i = fate cfg es i := by
    intro i
    rw [fate_snoc]
    exact Option.or_none
  refine ⟨fun i call hcall => ?_, fun i hi => ?_, fun call hcall => ?_⟩
  · rw [hfate]
    rcases Nat.lt_or_ge i s.calls.length with hi | hi
    · rw [Delivery.produceEvent, Option.mem_def, List.getElem?_append_left hi] at hcall
      exact h.fated i call hcall
    · rw [Delivery.produceEvent, Option.mem_def, List.getElem?_append_right hi] at hcall
      obtain rfl := List.mem_singleton.mp (List.mem_of_getElem? hcall)
      exact (h.fresh i hi).symm
  · rw [hfate]
    rw [Delivery.produceEvent, List.length_append] at hi
    exact h.fresh i (by omega)
  · rcases List.mem_append.mp hcall with hold | hnew
    · exact h.alert call hold
    · obtain rfl := List.mem_singleton.mp hnew
      exact fun _ => ⟨rfl, rfl⟩

/-- A step leaves every call with its fate exactly when it spares every call. -/
theorem Followed.step (h : Followed cfg es s) (hs : (machine cfg).step s e = some u) :
    (Fated cfg (es ++ [e]) u ↔ Spares s e) ∧
      (Spares s e → Followed cfg (es ++ [e]) u) := by
  cases e with
  | produceEvent topic =>
    obtain rfl := Option.some.inj hs
    have hnew := h.produceEvent topic
    exact ⟨iff_of_true hnew.fated fun _ _ _ _ => trivial, fun _ => hnew⟩
  | sent i failure => exact h.sent hs
  | reported i error report => exact h.reported hs
  | timeout i => exact h.timeout hs

/-- Every call is settled by the fate of its own message, at every moment of a run, exactly when
each refusal, each report and each error spares the calls. -/
theorem fated_iff (h : (machine cfg).Run Machine.Free .init es s) :
    (∀ fs t, fs <+: es → (machine cfg).Run Machine.Free .init fs t → Fated cfg fs t) ↔
      (machine cfg).Run Spares .init es s := by
  rw [h.always_iff_history (fun _ _ hf => hf.fated) (fun _ _ _ _ hf _ hs => hf.step hs)
    Followed.init, Machine.Run.free_and_iff]

/-- Messages that are sent without a topic go to `blocks`. -/
def blocksConfig : Config := ⟨"blocks", 10000⟩

/-- A message without a topic is delivered. -/
def defaultTopic : List Event :=
  [.produceEvent none, .sent 0 none, .reported 0 none ⟨"blocks", 0, 0, 7⟩]

/-- The report is there, and the promise is still pending. -/
theorem defaultTopic_pending : ∃ s, (machine blocksConfig).Run Machine.Free .init defaultTopic s ∧
    (∀ call ∈ s.calls[0]?, call.outcome = none) ∧
    fate blocksConfig defaultTopic 0 = some (.resolved ⟨"blocks", 0, 0, 7⟩) ∧
    ¬ Fated blocksConfig defaultTopic s := by
  obtain ⟨s, hr, hcall⟩ : ∃ s, (machine blocksConfig).Run Machine.Free .init defaultTopic s ∧
      s.calls[0]? = some ⟨none, .reported, true, true, none⟩ :=
    Machine.exists_run_of_exec (by decide)
  have hfate : fate blocksConfig defaultTopic 0 = some (.resolved ⟨"blocks", 0, 0, 7⟩) := rfl
  refine ⟨s, hr, fun call hc => ?_, hfate, fun hfated => ?_⟩
  · obtain rfl := Option.some.inj (hcall.symm.trans hc)
    rfl
  · cases (hfated 0 _ hcall).trans hfate

/-- Two messages with their topics: one is delivered, and then the delivery of the other fails. -/
def givenTopics : List Event :=
  [.produceEvent (some "blocks"), .sent 0 none, .produceEvent (some "receipts"), .sent 1 none,
    .reported 1 none ⟨"receipts", 1, 0, 3⟩,
    .reported 0 (some ⟨"Broker: disconnected", -195, false, "kafka"⟩) ⟨"blocks", 0, -1, -1⟩]

/-- With their topics, both calls are settled as their messages fare. -/
theorem givenTopics_fated : ∃ s, (machine blocksConfig).Run Machine.Free .init givenTopics s ∧
    s.calls.map Call.outcome =
      [some (.rejected (KafkaError.convertLibError ⟨"Broker: disconnected", -195, false, "kafka"⟩
        false)), some (.resolved ⟨"receipts", 1, 0, 3⟩)] ∧
    ∀ fs t, fs <+: givenTopics → (machine blocksConfig).Run Machine.Free .init fs t →
      Fated blocksConfig fs t := by
  obtain ⟨s, hr, houtcomes⟩ : ∃ s, (machine blocksConfig).Run Spares .init givenTopics s ∧
      s.calls.map Call.outcome = [some (.rejected (KafkaError.convertLibError
        ⟨"Broker: disconnected", -195, false, "kafka"⟩ false)),
        some (.resolved ⟨"receipts", 1, 0, 3⟩)] := Machine.exists_run_of_exec (by decide)
  have hfree := hr.mono (H := Machine.Free) fun _ _ _ => trivial
  exact ⟨s, hfree, houtcomes, (fated_iff hfree).mpr hr⟩

end ChainIndexer.Delivery
