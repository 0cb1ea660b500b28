import ChainIndexer.Workers.State

/-!
# Answers that reach their requests

A message is told apart by the sum of a time and a block number only. It settles every pending
request of the same worker with that sum, so it reaches its own request alone exactly where no
other pending request has the same sum.
-/

namespace ChainIndexer.Workers

variable {cfg : Subscription.Config} {s u : State} {e : Event} {r : Nat}

/-- No promise is settled by the message for another request. -/
def Routed (s : State) : Prop :=
  ∀ r : Nat, ∀ request ∈ s.requests[r]?, ∀ answered result,
    request.settled = some (.message answered result) → answered = r

/-- When a worker posts its message for a request, no other pending request to it was made at a
time and for a block number with the same sum. -/
def Unmistakable (s : State) : Event → Prop
  | .message r _ => ∀ own ∈ s.requests[r]?, ∀ j < s.requests.length, ∀ other ∈ s.requests[j]?,
      other.settled = none → other.worker = own.worker →
      (other.time : Int) + other.blockNumber = own.time + own.blockNumber → j = r
  | .subscription _ | .tick _ | .error .. | .exit _ => True

instance (s : State) : (e : Event) → Decidable (Unmistakable s e)
  | .message r _ => inferInstanceAs (Decidable (∀ own ∈ s.requests[r]?, ∀ j < s.requests.length,
      ∀ other ∈ s.requests[j]?, other.settled = none → other.worker = own.worker →
      (other.time : Int) + other.blockNumber = own.time + own.blockNumber → j = r))
  | .subscription _ | .tick _ | .error .. | .exit _ => .isTrue trivial

theorem Routed.init : Routed State.init := by
  intro r request hr
  cases hr

/-- A new request is pending. -/
theorem posted_settled {t : Subscription.State} {e : Subscription.Event} {request : Request}
    (h : request ∈ posted cfg s e t) : request.settled = none := by
  obtain ⟨place, hplace, rfl⟩ := List.mem_mapIdx.mp h
  rfl

/-- Requests that are made do not settle any promise. -/
theorem Routed.append {requests : List Request} (h : Routed s)
    (hu : u.requests = s.requests ++ requests)
    (hnew : ∀ request ∈ requests, request.settled = none) : Routed u := by
  intro r request hr answered result hsettled
  rw [hu, Option.mem_def] at hr
  rcases Nat.lt_or_ge r s.requests.length with hlt | hge
  · rw [List.getElem?_append_left hlt] at hr
    exact h r request hr answered result hsettled
  · rw [List.getElem?_append_right hge] at hr
    rw [hnew request (List.mem_of_getElem? hr)] at hsettled
    cases hsettled

/-- An error event of a worker is no message. -/
theorem Routed.error (h : Routed s) (worker : Worker) (error : Thrown) :
    Routed (emit s (onError worker error)) := by
  intro r request hr answered result hsettled
  obtain ⟨before, hbefore, rfl⟩ := Option.map_eq_some_iff.mp
    (List.getElem?_map.symm.trans hr)
  unfold onError at hsettled
  split at hsettled
  · cases hsettled
  · exact h r before hbefore answered result hsettled

/-- Marking a request as answered changes nothing else of any request. -/
theorem getElem?_set_answered {own other : Request} {j : Nat} (hown : s.requests[r]? = some own)
    (hj : s.requests[j]? = some other) : ∃ marked : Bool,
      (s.requests.set r { own with answered := true })[j]? =
        some { other with answered := marked } := by
  by_cases hsame : j = r
  · subst hsame
    obtain rfl := Option.some.inj (hj.symm.trans hown)
    exact ⟨true, List.getElem?_set_self (List.getElem?_eq_some_iff.mp hj).1⟩
  · exact ⟨other.answered, (List.getElem?_set_ne (Ne.symm hsame)).trans hj⟩

/-- A message settles the pending requests that it may be meant for. -/
theorem Routed.message {result : Except Thrown Block} (h : Routed s)
    (hs : message s r result = some u) : Routed u ↔ Unmistakable s (.message r result) := by
  unfold Workers.message at hs
  split at hs
  · cases hs
  · rename_i own hown
    split at hs
    · cases hs
    · rename_i worker hworker
      split at hs
      · obtain rfl := Option.some.inj hs
        constructor
        · intro hrouted first hfirst j hj other hother hpending hsame hsum
          obtain rfl := Option.some.inj (hown.symm.trans hfirst)
          obtain ⟨marked, hget⟩ := getElem?_set_answered hown hother
          have hheard : other.settled = none ∧ other.worker = some worker ∧
              other.callBackId = own.callBackId := ⟨hpending, hsame.trans hworker, hsum⟩
          refine (hrouted j { other with
            answered := marked
            settled := some (.message r result) } ?_ r result rfl).symm
          rw [Option.mem_def, emit, List.getElem?_map, hget, Option.map_some]
          exact congrArg some (if_pos hheard)
        · intro happart j request hj answered answer hsettled
          have hlt : j < s.requests.length := by
            have hlt := (List.getElem?_eq_some_iff.mp hj).1
            rwa [emit, List.length_map, List.length_set] at hlt
          have hother := List.getElem?_eq_getElem hlt
          obtain ⟨marked, hget⟩ := getElem?_set_answered hown hother
          rw [Option.mem_def, emit, List.getElem?_map, hget, Option.map_some] at hj
          obtain rfl := Option.some.inj hj
          unfold onMessage at hsettled
          split at hsettled
          · rename_i hheard
            obtain ⟨hpending, hworker', hsum⟩ := hheard
            cases hsettled
            exact (happart own hown j hlt _ hother hpending (hworker'.trans hworker.symm) hsum).symm
          · exact h j _ hother answered answer hsettled
      · cases hs

/-- A step settles promises by their own messages exactly when its message is unmistakable. -/
theorem Routed.step (h : Routed s) (hs : step cfg s e = some u) :
    Routed u ↔ Unmistakable s e := by
  cases e with
  | message r result => exact h.message hs
  | subscription e =>
    obtain ⟨_, ht⟩ := Option.ite_none_right_eq_some.mp hs
    obtain ⟨t, _, rfl⟩ := Option.map_eq_some_iff.mp ht
    exact iff_of_true (h.append rfl fun _ => posted_settled) trivial
  | tick now =>
    obtain ⟨_, ht⟩ := Option.ite_none_right_eq_some.mp hs
    obtain rfl := Option.some.inj ht
    exact iff_of_true h trivial
  | error worker error =>
    obtain ⟨_, ht⟩ := Option.ite_none_right_eq_some.mp hs
    obtain rfl := Option.some.inj ht
    exact iff_of_true (h.error worker error) trivial
  | exit workerId =>
    obtain ⟨_, ht⟩ := Option.ite_none_right_eq_some.mp hs
    obtain rfl := Option.some.inj ht
    exact iff_of_true h trivial

/-- At every moment of a run no promise has been settled by the message for another request, exactly
when every message is unmistakable. -/
theorem routed_iff {es : List Event} (h : (machine cfg).Run Machine.Free .init es s) :
    (∀ fs t, fs <+: es → (machine cfg).Run Machine.Free .init fs t → Routed t) ↔
      (machine cfg).Run Unmistakable .init es s :=
  h.always_iff_guarded (fun _ ht => ht) (fun _ _ _ ht hs => ⟨ht.step hs, (ht.step hs).mpr⟩)
    Routed.init

/-- A worker and live log events only. -/
def oneWorker : Subscription.Config := ⟨1, 0⟩

/-- Block 100 is asked for in millisecond 1000. Forty milliseconds later the subscription starts
again, and block 60 is asked for. -/
def restarted : List Event :=
  [.tick 1000, .subscription (.subscribe 100), .subscription (.finalized 0 (.ok 90)),
    .subscription (.latest 0 1000 (.ok 100)),
    .subscription (.data 0 ⟨some "0x64", some 100⟩),
    .subscription .unsubscribe, .subscription (.unsubscribed 0 (.ok ())),
    .subscription (.subscribe 60), .subscription (.finalized 0 (.ok 50)), .tick 1040,
    .subscription (.latest 0 1040 (.ok 100)),
    .subscription (.data 1 ⟨some "0x3c", some 60⟩),
    .message 0 (.ok ⟨100, "0x64", "0x63"⟩)]

/-- The promise for block 60 yields block 100. -/
theorem restarted_mistaken : ∃ s, (machine oneWorker).Run Machine.Free .init restarted s ∧
    s.requests.map (fun request => (request.blockNumber, request.settled)) =
      [(100, some (.message 0 (.ok ⟨100, "0x64", "0x63"⟩))),
        (60, some (.message 0 (.ok ⟨100, "0x64", "0x63"⟩)))] ∧
    ¬ Routed s := by
  obtain ⟨s, hr, hrequests⟩ : ∃ s, (machine oneWorker).Run Machine.Free .init restarted s ∧
      s.requests.map (fun request => (request.blockNumber, request.settled)) =
        [(100, some (.message 0 (.ok ⟨100, "0x64", "0x63"⟩))),
          (60, some (.message 0 (.ok ⟨100, "0x64", "0x63"⟩)))] :=
    Machine.exists_run_of_exec (by decide)
  refine ⟨s, hr, hrequests, fun hrouted => ?_⟩
  have hsecond : (s.requests.map fun request => (request.blockNumber, request.settled))[1]? =
      some (60, some (.message 0 (.ok ⟨100, "0x64", "0x63"⟩))) := by
    rw [hrequests]
    rfl
  rw [List.getElem?_map] at hsecond
  obtain ⟨request, hget, heq⟩ := Option.map_eq_some_iff.mp hsecond
  have hwrong := hrouted 1 request hget 0 _ (congrArg Prod.snd heq)
  cases hwrong

/-- Two blocks are asked for in one millisecond, and answered the other way round. -/
def twoLogs : List Event :=
  [.tick 1000, .subscription (.subscribe 100), .subscription (.finalized 0 (.ok 90)),
    .subscription (.latest 0 1000 (.ok 100)),
    .subscription (.data 0 ⟨some "0x64", some 100⟩),
    .subscription (.data 0 ⟨some "0x65", some 101⟩),
    .message 1 (.ok ⟨101, "0x65", "0x64"⟩), .message 0 (.ok ⟨100, "0x64", "0x63"⟩)]

/-- Each request is settled with the answer to its own message. -/
theorem twoLogs_routed : ∃ s, (machine oneWorker).Run Machine.Free .init twoLogs s ∧
    s.requests.map Request.settled = [some (.message 0 (.ok ⟨100, "0x64", "0x63"⟩)),
      some (.message 1 (.ok ⟨101, "0x65", "0x64"⟩))] ∧
    ∀ fs t, fs <+: twoLogs → (machine oneWorker).Run Machine.Free .init fs t → Routed t := by
  obtain ⟨s, hr, hsettled⟩ : ∃ s, (machine oneWorker).Run Unmistakable .init twoLogs s ∧
      s.requests.map Request.settled = [some (.message 0 (.ok ⟨100, "0x64", "0x63"⟩)),
        some (.message 1 (.ok ⟨101, "0x65", "0x64"⟩))] := Machine.exists_run_of_exec (by decide)
  have hfree := hr.mono (H := Machine.Free) fun _ _ _ => trivial
  exact ⟨s, hfree, hsettled, (routed_iff hfree).mpr hr⟩

end ChainIndexer.Workers
