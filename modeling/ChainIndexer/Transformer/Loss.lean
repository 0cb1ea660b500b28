import ChainIndexer.Consumer.Errors
import ChainIndexer.Transformer.State

/-!
# Transformed blocks that disappear

An input is committed as soon as the Kafka client has taken its block. When the delivery
report then carries an error, the producer does not look at it, and nothing connects it with
the input. So a failed delivery stays unnoticed exactly where the commit has succeeded.
-/

namespace ChainIndexer.Transformer

open Consumer (Position commitFailure reportsError)

variable {β γ δ : Type} {cfg : Config} {s t u : State β γ δ}

/-- Where a delivery has failed, the offset of the input is not committed, or an error has been
surfaced since. -/
def Heeded (s : State β γ δ) : Prop :=
  ∀ failure ∈ s.failures, failure.input ∈ s.consumer.committed → failure.surfaced < surfaced s

/-- A delivery for the input has failed, and no error has been surfaced since. -/
def Unheeded (s : State β γ δ) (input : Position) : Prop :=
  ∃ failure ∈ s.failures, failure.input = input ∧ failure.surfaced = surfaced s

/-- When a call of `onData` resolves for an input with an unheeded failure, the commit fails or
back-pressure makes `processQueue` give up. -/
def Withholds (cfg : Config) (s : State β γ δ) (commits : List (Option Thrown))
    (flow : Option Thrown) : Prop :=
  ∀ a ∈ s.consumer.processing, Unheeded s a.element.position →
    reportsError cfg.consumer a commits flow = true

/-- The outcomes of the commit and of the back-pressure after a call of `onData` that resolves:
`produceEvent` has resolved, or there was nothing to produce. -/
def Event.resolves : Event β γ δ → Option (List (Option Thrown) × Option Thrown)
  | .transformed (.ok block) commits flow => if block.data = [] then some (commits, flow) else none
  | .produced none commits flow => some (commits, flow)
  | .transformed (.error _) .. | .produced (some _) .. | .deliveryReport .. | .start
  | .proceeded .. | .consumer _ | .producerError _ => none

/-- The block of which the client reports that its delivery has failed. -/
def Event.fails (s : State β γ δ) : Event β γ δ → Option (Sent δ)
  | .deliveryReport i (some _) _ => s.sent[i]?
  | .deliveryReport _ none _ | .transformed .. | .produced .. | .start | .proceeded ..
  | .consumer _ | .producerError _ => none

/-- How the commit has ended after a call of `onData` that resolved. -/
structure Outcome where
  input : Position
  /-- What it throws for good. -/
  failure : Option Thrown
  deriving DecidableEq, Repr

/-- The outcome of an event. -/
def outcomes (cfg : Config) (s : State β γ δ) (e : Event β γ δ) : List Outcome :=
  match e.resolves, s.consumer.processing with
  | some (commits, _), some a => [⟨a.element.position, commitFailure cfg.consumer commits 0⟩]
  | _, _ => []

/-- The outcomes so far. -/
def recordOutcomes (cfg : Config) (s : State β γ δ) (e : Event β γ δ) (_ : State β γ δ)
    (before : List Outcome) : List Outcome := before ++ outcomes cfg s e

/-- A delivery fails only if every commit of its input before has failed; and when a call of
`onData` resolves for an input after its delivery has failed, the commit fails or back-pressure
makes `processQueue` give up, unless an error has been surfaced between. -/
def FailsFirst (cfg : Config) (p : State β γ δ × List Outcome) (e : Event β γ δ) : Prop :=
  (∀ message ∈ e.fails p.1, ∀ outcome ∈ p.2, outcome.input = message.input →
    outcome.failure.isSome = true) ∧
  ∀ result ∈ e.resolves, Withholds cfg p.1 result.1 result.2

instance (s : State β γ δ) (input : Position) : Decidable (Unheeded s input) :=
  inferInstanceAs (Decidable (∃ failure ∈ s.failures,
    failure.input = input ∧ failure.surfaced = surfaced s))

instance (cfg : Config) (s : State β γ δ) (commits : List (Option Thrown))
    (flow : Option Thrown) : Decidable (Withholds cfg s commits flow) :=
  inferInstanceAs (Decidable (∀ a ∈ s.consumer.processing, Unheeded s a.element.position →
    reportsError cfg.consumer a commits flow = true))

instance (cfg : Config) (p : State β γ δ × List Outcome) (e : Event β γ δ) :
    Decidable (FailsFirst cfg p e) := by
  unfold FailsFirst
  infer_instance

/-- The books of the failures: none is from the future, and the consumer processes messages for
an observer only. -/
structure Booked (s : State β γ δ) : Prop where
  heeded : Heeded s
  past : ∀ failure ∈ s.failures, failure.surfaced ≤ surfaced s
  observed : s.consumer.processing.isSome = true → s.consumer.observer = true

theorem Booked.init : Booked (State.init : State β γ δ) := ⟨nofun, nofun, nofun⟩

/-- A step that leaves the failures and the commits alone, and forgets no error. -/
structure Harmless (s t : State β γ δ) : Prop where
  failures : t.failures = s.failures
  committed : t.consumer.committed = s.consumer.committed
  surfaced : surfaced s ≤ surfaced t
  observed : (s.consumer.processing.isSome = true → s.consumer.observer = true) →
    t.consumer.processing.isSome = true → t.consumer.observer = true

/-- What is harmless keeps the books. -/
theorem Harmless.booked (h : Harmless s t) (hs : Booked s) : Booked t where
  heeded failure hf hc := by
    rw [h.failures] at hf
    rw [h.committed] at hc
    exact Nat.lt_of_lt_of_le (hs.heeded failure hf hc) h.surfaced
  past failure hf := by
    rw [h.failures] at hf
    exact Nat.le_trans (hs.past failure hf) h.surfaced
  observed := h.observed hs.observed

theorem Harmless.refl (s : State β γ δ) : Harmless s s := ⟨rfl, rfl, Nat.le_refl _, id⟩

theorem Harmless.trans (h : Harmless s t) (k : Harmless t u) : Harmless s u where
  failures := k.failures.trans h.failures
  committed := k.committed.trans h.committed
  surfaced := Nat.le_trans h.surfaced k.surfaced
  observed ho := k.observed (h.observed ho)

/-! ## One step -/

theorem onKafkaError_harmless (s : State β γ δ) (error : BaseError) :
    Harmless s (onKafkaError s error) where
  failures := rfl
  committed := rfl
  surfaced := by
    simp only [surfaced, onKafkaError, List.length_append]
    omega
  observed := id

theorem fatalError_harmless (s : State β γ δ) (error : BaseError) :
    Harmless s (fatalError s error) where
  failures := rfl
  committed := rfl
  surfaced := by
    simp only [surfaced, fatalError, List.length_append]
    omega
  observed := id

/-- The consumer moves on without a commit. -/
theorem consumed_harmless {e : Consumer.Event β γ} {consumer : Consumer.State β γ}
    (h : Consumer.step cfg.consumer s.consumer e = some consumer)
    (he : ∀ commits flow, e ≠ .settled none commits flow) :
    Harmless s (consumed cfg s consumer) := by
  have hmoved : Harmless s { s with consumer := consumer } := {
    failures := rfl
    committed := Consumer.step_committed h he
    surfaced := by
      have hle := (Consumer.step_tells h).errors
      simp only [surfaced]
      omega
    observed := fun ho => Consumer.step_observed ho h }
  unfold consumed closed
  split
  · split
    · exact hmoved.trans ⟨rfl, rfl, Nat.le_refl _, id⟩
    · exact hmoved.trans (fatalError_harmless _ _)
  · exact hmoved

private theorem proceeded_harmless {i : Nat} {failure : Option Thrown}
    (h : proceeded s i failure = some t) : Harmless s t := by
  unfold proceeded at h
  split at h
  · cases h
  · rename_i activation _
    cases h
    cases failure with
    | some error =>
      dsimp only
      split
      · have hended : Harmless s { s with starting := s.starting.eraseIdx i } :=
          ⟨rfl, rfl, Nat.le_refl _, id⟩
        exact hended.trans (fatalError_harmless _ _)
      · exact ⟨rfl, rfl, Nat.le_refl _, id⟩
    | none =>
      cases activation.phase with
      | stoppingProducer => exact ⟨rfl, rfl, Nat.le_refl _, id⟩
      | startingProducer => exact ⟨rfl, rfl, Nat.le_refl _, fun _ _ => rfl⟩
      | startingConsumer => exact ⟨rfl, rfl, Nat.le_refl _, id⟩

/-- A call of `onData` that rejects commits nothing. -/
theorem settled_harmless {error : Thrown} {commits : List (Option Thrown)}
    {flow : Option Thrown} (h : settled cfg s (some error) commits flow = some t) :
    Harmless s t := by
  obtain ⟨consumer, hconsumer, rfl⟩ := Option.map_eq_some_iff.mp h
  have hended : Harmless s { s with producing := none } := ⟨rfl, rfl, Nat.le_refl _, id⟩
  exact hended.trans (consumed_harmless (e := .settled (some error) commits flow) hconsumer
    (by simp))

/-- A call of `onData` that resolves leads to a commit unless an error is reported. -/
theorem Booked.settled {commits : List (Option Thrown)} {flow : Option Thrown} (hs : Booked s)
    (h : settled cfg s none commits flow = some t) :
    (Heeded t ↔ Withholds cfg s commits flow) ∧ (Withholds cfg s commits flow → Booked t) := by
  obtain ⟨consumer, hconsumer, rfl⟩ := Option.map_eq_some_iff.mp h
  have htells := Consumer.step_tells (e := .settled none commits flow) hconsumer
  have hobserved := Consumer.step_observed (e := .settled none commits flow) hs.observed hconsumer
  have hclosed : ¬ s.consumer.closed < consumer.closed := by
    rw [Consumer.step_closed (e := .settled none commits flow) hconsumer (by simp) (by simp)]
    exact Nat.lt_irrefl _
  rw [consumed, if_neg hclosed]
  obtain ⟨a, ha⟩ : ∃ a, s.consumer.processing = some a := by
    cases ha : s.consumer.processing with
    | none => simp [Consumer.settled, ha] at hconsumer
    | some a => exact ⟨a, rfl⟩
  have hcommitted := Consumer.settled_committed ha hconsumer
  have herrors := Consumer.settled_errors ha (hs.observed (by simp [ha])) hconsumer
  have hpast : ∀ failure ∈ s.failures, failure.surfaced ≤
      surfaced { s with producing := none, consumer := consumer } := by
    intro failure hf
    have hle := hs.past failure hf
    have hmore := htells.errors
    simp only [surfaced] at hle ⊢
    omega
  have hbooked (hheeded : Heeded { s with producing := none, consumer := consumer }) :
      Booked { s with producing := none, consumer := consumer } := ⟨hheeded, hpast, hobserved⟩
  cases hreports : reportsError cfg.consumer a commits flow with
  | true =>
    have hmore := herrors.mpr hreports
    have hheeded : Heeded { s with producing := none, consumer := consumer } := by
      intro failure hf _
      have hle := hs.past failure hf
      simp only [surfaced] at hle ⊢
      omega
    refine ⟨⟨fun _ b hb _ => ?_, fun _ => hheeded⟩, fun _ => hbooked hheeded⟩
    obtain rfl := Option.some.inj (ha.symm.trans hb)
    exact hreports
  | false =>
    have hsame : surfaced { s with producing := none, consumer := consumer } = surfaced s := by
      simp only [hreports, Bool.false_eq_true, iff_false] at herrors
      have hle := htells.errors
      simp only [surfaced]
      omega
    rw [reportsError, Bool.or_eq_false_iff, Option.isSome_eq_false_iff] at hreports
    rw [if_pos hreports.1] at hcommitted
    have hiff : Heeded { s with producing := none, consumer := consumer } ↔
        Withholds cfg s commits flow := by
      simp only [Heeded, hsame, hcommitted]
      constructor
      · rintro hheeded b hb ⟨failure, hf, hinput, hnow⟩
        obtain rfl := Option.some.inj (ha.symm.trans hb)
        have hlt := hheeded failure hf (by simp [hinput])
        omega
      · intro hwithholds failure hf hc
        rcases List.mem_append.mp hc with hc | hc
        · exact hs.heeded failure hf hc
        · refine Nat.lt_of_le_of_ne (hs.past failure hf) fun hnow => ?_
          have hreported := hwithholds a ha ⟨failure, hf, List.mem_singleton.mp hc, hnow⟩
          rw [reportsError, Bool.or_eq_true] at hreported
          simp [hreports.2, Option.isNone_iff_eq_none.mp hreports.1] at hreported
    exact ⟨hiff, fun hwithholds => hbooked (hiff.mpr hwithholds)⟩

private theorem onDeliveryReport_eq (s : State β γ δ) (input : Position) (report : Bool) :
    ∃ delivered, onDeliveryReport s input report = { s with delivered := delivered } := by
  unfold onDeliveryReport
  split
  · exact ⟨_, rfl⟩
  · exact ⟨_, rfl⟩

/-- A report only adds the failure that it carries. -/
theorem deliveryReport_eq {i : Nat} {error : Option LibrdKafkaError} {report : Bool}
    (h : deliveryReport s i error report = some t) : ∃ message, s.sent[i]? = some message ∧
      t.consumer = s.consumer ∧ surfaced t = surfaced s ∧
      t.failures = reported s message.input error := by
  unfold deliveryReport at h
  split at h
  · cases h
  · rename_i message hmessage
    cases h
    refine ⟨message, hmessage, ?_⟩
    split
    · obtain ⟨_, hdelivered⟩ := onDeliveryReport_eq { s with
        sent := s.sent.eraseIdx i, failures := reported s message.input error } message.input report
      rw [hdelivered]
      exact ⟨rfl, rfl, rfl⟩
    · exact ⟨rfl, rfl, rfl⟩

/-- A delivery that fails is heeded where its input is not committed. -/
theorem Booked.deliveryReport {i : Nat} {error : LibrdKafkaError} {report : Bool} (hs : Booked s)
    (h : deliveryReport s i (some error) report = some t) :
    (Heeded t ↔ ∀ message ∈ s.sent[i]?, message.input ∉ s.consumer.committed) ∧
      ((∀ message ∈ s.sent[i]?, message.input ∉ s.consumer.committed) → Booked t) := by
  obtain ⟨message, hmessage, hconsumer, hsame, hfailures⟩ := deliveryReport_eq h
  have hiff : Heeded t ↔ ∀ message ∈ s.sent[i]?, message.input ∉ s.consumer.committed := by
    simp only [Heeded, hsame, hconsumer, hfailures, hmessage, reported]
    constructor
    · intro hheeded other hother hc
      obtain rfl := Option.some.inj hother
      exact Nat.lt_irrefl _ (hheeded ⟨message.input, surfaced s⟩ (by simp) hc)
    · intro hfree failure hf hc
      rcases List.mem_append.mp hf with hf | hf
      · exact hs.heeded failure hf hc
      · rw [List.mem_singleton.mp hf] at hc
        exact absurd hc (hfree message rfl)
  refine ⟨hiff, fun hfree => ⟨hiff.mpr hfree, ?_, ?_⟩⟩
  · rw [hsame, hfailures, reported]
    intro failure hf
    rcases List.mem_append.mp hf with hf | hf
    · exact hs.past failure hf
    · exact Nat.le_of_eq (by rw [List.mem_singleton.mp hf])
  · rw [hconsumer]
    exact hs.observed

/-- What a step can do to the commits and the failures. -/
inductive Effect (cfg : Config) (s : State β γ δ) : Event β γ δ → State β γ δ → Prop
  /-- It does nothing to them. -/
  | harmless {e t} : e.resolves = none → e.fails s = none → Harmless s t → Effect cfg s e t
  /-- A call of `onData` resolves, and its block may have been sent. -/
  | resolve {e t} (sent : List (Sent δ)) {commits : List (Option Thrown)}
    {flow : Option Thrown} : e.resolves = some (commits, flow) → e.fails s = none →
    settled cfg { s with sent := sent } none commits flow = some t → Effect cfg s e t
  /-- A delivery fails. -/
  | fail {i error report t} : deliveryReport s i (some error) report = some t →
    Effect cfg s (.deliveryReport i (some error) report) t

/-- Every event has one of these effects. -/
theorem step_effect {e : Event β γ δ} (h : step cfg s e = some t) : Effect cfg s e t := by
  cases e with
  | start =>
    cases h
    exact .harmless rfl rfl ⟨rfl, rfl, Nat.le_refl _, id⟩
  | proceeded i failure => exact .harmless rfl rfl (proceeded_harmless h)
  | consumer e =>
    simp only [Transformer.step] at h
    split at h
    · rename_i hexternal
      obtain ⟨consumer, hconsumer, rfl⟩ := Option.map_eq_some_iff.mp h
      refine .harmless rfl rfl (consumed_harmless hconsumer ?_)
      rintro commits flow rfl
      cases hexternal
    · cases h
  | transformed result commits flow =>
    simp only [Transformer.step, transformed] at h
    split at h
    · cases h
    · exact .harmless rfl rfl (settled_harmless h)
    · rename_i block _
      split at h
      · rename_i hdata
        have hnonempty : block.data ≠ [] := List.length_pos_iff.mp hdata
        split at h
        · cases h
          exact .harmless (if_neg hnonempty) rfl ⟨rfl, rfl, Nat.le_refl _, id⟩
        · cases h
      · rename_i hdata
        have hempty : block.data = [] := by simpa using hdata
        exact .resolve s.sent (if_pos hempty) rfl h
  | produced failure commits flow =>
    simp only [Transformer.step, produced] at h
    split at h
    · rename_i block a _ _
      cases failure with
      | some error =>
        exact .harmless rfl rfl ((onKafkaError_harmless s _).trans (settled_harmless h))
      | none => exact .resolve _ rfl rfl h
    · cases h
  | deliveryReport i error report =>
    cases error with
    | some error => exact .fail h
    | none =>
      obtain ⟨message, _, hconsumer, hsame, hfailures⟩ := deliveryReport_eq h
      refine .harmless rfl rfl ⟨hfailures, by rw [hconsumer], Nat.le_of_eq hsame.symm, ?_⟩
      rw [hconsumer]
      exact id
  | producerError error =>
    cases h
    exact .harmless rfl rfl (onKafkaError_harmless s _)

/-- A call of `onData` that resolves has the one outcome. -/
theorem settled_outcomes {e : Event β γ δ} {commits : List (Option Thrown)}
    {flow : Option Thrown} (he : e.resolves = some (commits, flow)) {sent : List (Sent δ)}
    (h : settled cfg { s with sent := sent } none commits flow = some t) :
    t.consumer.committed = s.consumer.committed ++
      ((outcomes cfg s e).filter fun outcome => outcome.failure.isNone).map Outcome.input := by
  obtain ⟨consumer, hconsumer, rfl⟩ := Option.map_eq_some_iff.mp h
  have hclosed : ¬ s.consumer.closed < consumer.closed := by
    rw [Consumer.step_closed (e := .settled none commits flow) hconsumer (by simp) (by simp)]
    exact Nat.lt_irrefl _
  obtain ⟨a, ha⟩ : ∃ a, s.consumer.processing = some a := by
    cases ha : s.consumer.processing with
    | none => simp [Consumer.settled, ha] at hconsumer
    | some a => exact ⟨a, rfl⟩
  have hcommitted := Consumer.settled_committed ha hconsumer
  rw [consumed, if_neg hclosed, outcomes, he, ha]
  dsimp only
  rw [hcommitted]
  cases commitFailure cfg.consumer commits 0 with
  | none => rfl
  | some error => simp

/-- The committed inputs are those of the outcomes without a failure. -/
def Accounted (s : State β γ δ) (before : List Outcome) : Prop :=
  s.consumer.committed =
    (before.filter fun outcome => outcome.failure.isNone).map Outcome.input

/-- Every event keeps the outcomes accounted for. -/
theorem step_accounted {e : Event β γ δ} {before : List Outcome} (hs : Accounted s before)
    (h : step cfg s e = some t) : Accounted t (recordOutcomes cfg s e t before) := by
  unfold Accounted at hs ⊢
  rw [recordOutcomes, List.filter_append, List.map_append, ← hs]
  cases step_effect h with
  | harmless hresolves _ hharmless =>
    rw [hharmless.committed, outcomes, hresolves]
    exact (List.append_nil _).symm
  | resolve sent hresolves _ hsettled => exact settled_outcomes hresolves hsettled
  | fail hreport =>
    obtain ⟨_, _, hconsumer, _, _⟩ := deliveryReport_eq hreport
    rw [hconsumer]
    exact (List.append_nil _).symm

/-- An input is not committed exactly if every commit of it has failed. -/
theorem Accounted.not_mem_committed {before : List Outcome} (hs : Accounted s before)
    (input : Position) : input ∉ s.consumer.committed ↔
      ∀ outcome ∈ before, outcome.input = input → outcome.failure.isSome = true := by
  rw [hs, List.mem_map]
  simp only [List.mem_filter, not_exists, not_and]
  constructor
  · intro hnone outcome hmem hinput
    by_contra hfailure
    rw [Bool.not_eq_true, Option.isSome_eq_false_iff] at hfailure
    exact hnone outcome ⟨hmem, hfailure⟩ hinput
  · rintro hall outcome ⟨hmem, hfailure⟩ hinput
    have hsome := hall outcome hmem hinput
    rw [Option.isNone_iff_eq_none] at hfailure
    rw [hfailure] at hsome
    cases hsome

/-- A step keeps every failure heeded exactly when it commits none, and none fails of which a commit
has succeeded. -/
theorem Booked.step {e : Event β γ δ} {before : List Outcome} (hs : Booked s)
    (ha : Accounted s before) (h : step cfg s e = some t) :
    (Heeded t ↔ FailsFirst cfg (s, before) e) ∧ (FailsFirst cfg (s, before) e → Booked t) := by
  unfold FailsFirst
  simp only [← ha.not_mem_committed]
  cases step_effect h with
  | harmless hresolves hfails hharmless =>
    have hbooked := hharmless.booked hs
    simp [hresolves, hfails, hbooked, hbooked.heeded]
  | @resolve _ _ sent commits flow hresolves hfails hsettled =>
    have hsent : Booked { s with sent := sent } := ⟨hs.heeded, hs.past, hs.observed⟩
    have hboth : (Heeded t ↔ Withholds cfg s commits flow) ∧
        (Withholds cfg s commits flow → Booked t) := hsent.settled hsettled
    rw [hresolves, hfails]
    simpa using hboth
  | fail hreport =>
    have hboth := Booked.deliveryReport hs hreport
    simpa [Event.resolves, Event.fails] using hboth

/-- In every run, every failed delivery is heeded exactly when deliveries fail only for inputs of
which every commit before has failed, and no commit of one succeeds after that before an error is
surfaced. -/
theorem failures_heeded_iff {es : List (Event β γ δ)}
    (h : (machine cfg).Run Machine.Free State.init es s) :
    (∀ fs t, fs <+: es → (machine cfg).Run Machine.Free State.init fs t → Heeded t) ↔
      ∃ before, ((machine cfg).observe (recordOutcomes cfg)).Run (FailsFirst cfg)
        (State.init, []) es (s, before) := by
  obtain ⟨before, hr⟩ := h.observe (recordOutcomes cfg) []
  have hstep : ∀ (p : State β γ δ × List Outcome) (e : Event β γ δ)
      (q : State β γ δ × List Outcome), Booked p.1 ∧ Accounted p.1 p.2 → Machine.Free p.1 e →
      ((machine cfg).observe (recordOutcomes cfg)).step p e = some q →
      (Heeded q.1 ↔ FailsFirst cfg p e) ∧
        (FailsFirst cfg p e → Booked q.1 ∧ Accounted q.1 q.2) := by
    intro p e q hp _ hs
    obtain ⟨hs, hrecord⟩ := Machine.observe_step.mp hs
    obtain ⟨hiff, hbooked⟩ := hp.1.step hp.2 hs
    refine ⟨hiff, fun hg => ⟨hbooked hg, ?_⟩⟩
    rw [← hrecord]
    exact step_accounted hp.2 hs
  have hiff := hr.always_iff (J := fun p => Heeded p.1) (fun _ hp => hp.1.heeded) hstep
    ⟨Booked.init, rfl⟩
  constructor
  · intro hall
    have hguarded := hiff.mp fun fs q hfs hq => hall fs q.1 hfs hq.of_observe
    exact ⟨before, hguarded.mono fun _ _ hg => hg.2⟩
  · rintro ⟨other, hguarded⟩ fs t hfs ht
    obtain ⟨q, hq⟩ := ht.observe (recordOutcomes cfg) []
    have hboth := Machine.Run.and_iff.mpr
      ⟨hr, (hguarded.deterministic hr) ▸ hguarded⟩
    exact hiff.mpr hboth fs (t, q) hfs hq

/-- A transformer that restarts its consumer. -/
def restarting : Config where
  maxBufferLength := 100
  maxRetries := 0
  startOffset _ := 0
  restart := true

/-- One message is transformed into a block with data, which the client of the producer takes. -/
def taken : List (Event Unit Unit Unit) :=
  [.start, .proceeded 0 none, .consumer (.connected true), .proceeded 0 none,
    .consumer (.data ⟨⟨"blocks", 0, 7⟩, some ()⟩), .consumer (.deserialized 0 (.ok (some ())) none),
    .transformed (.ok ⟨7, [()]⟩) [] none, .produced none [] none]

/-- The delivery of the block times out, and its input has been committed. -/
def timedOut : List (Event Unit Unit Unit) :=
  taken ++ [.deliveryReport 0 (some ⟨"Local: Message timed out", -192, false, "local"⟩) true]

/-- The message has been committed when the report of its failure comes, and nobody hears of it. -/
theorem timedOut_unheeded : ∃ s, (machine restarting).Run Machine.Free State.init timedOut s ∧
    s.consumer.committed = [⟨"blocks", 0, 7⟩] ∧ s.failures.map (·.input) = [⟨"blocks", 0, 7⟩] ∧
    s.producerErrors = [] ∧ s.fatalErrors = [] ∧ s.consumer.errors = [] ∧ ¬ Heeded s := by
  obtain ⟨s, hr, hcommitted, hinput, hfailures, hproducer, hfatal, herrors⟩ : ∃ s,
      (machine restarting).Run Machine.Free State.init timedOut s ∧
      s.consumer.committed = [⟨"blocks", 0, 7⟩] ∧ s.failures.map (·.input) = [⟨"blocks", 0, 7⟩] ∧
      s.failures = [⟨⟨"blocks", 0, 7⟩, 0⟩] ∧ s.producerErrors = [] ∧ s.fatalErrors = [] ∧
      s.consumer.errors = [] := Machine.exists_run_of_exec (by decide)
  refine ⟨s, hr, hcommitted, hinput, hproducer, hfatal, herrors, fun hheeded => ?_⟩
  have hlt := hheeded ⟨⟨"blocks", 0, 7⟩, 0⟩ (by simp [hfailures]) (by simp [hcommitted])
  simp [surfaced, hproducer, hfatal, herrors] at hlt

/-- The client is disconnected when the input is to be committed, and then the delivery fails. -/
def uncommitted : List (Event Unit Unit Unit) :=
  taken.dropLast ++ [
    .produced none [some (.librdkafka ⟨"disconnected", -172, false, "kafka"⟩)] none,
    .deliveryReport 0 (some ⟨"Local: Message timed out", -192, false, "local"⟩) true]

/-- The message has not been committed, and the consumer reports the failure. -/
theorem uncommitted_heeded : ∃ s, (machine restarting).Run Machine.Free State.init uncommitted s ∧
    s.failures = [⟨⟨"blocks", 0, 7⟩, 1⟩] ∧ s.consumer.errors.length = 1 ∧
    ∀ fs t, fs <+: uncommitted → (machine restarting).Run Machine.Free State.init fs t →
      Heeded t := by
  obtain ⟨⟨s, before⟩, hr, hfailures, herrors⟩ : ∃ p,
      ((machine restarting).observe (recordOutcomes restarting)).Run
        (fun p e => Machine.Free p.1 e ∧ FailsFirst restarting p e) (State.init, []) uncommitted p ∧
      p.1.failures = [⟨⟨"blocks", 0, 7⟩, 1⟩] ∧ p.1.consumer.errors.length = 1 :=
    Machine.exists_run_of_exec (by decide)
  have hfree := (hr.mono fun _ _ hg => hg.1).of_observe
  exact ⟨s, hfree, hfailures, herrors,
    (failures_heeded_iff hfree).mpr ⟨before, hr.mono fun _ _ hg => hg.2⟩⟩

end ChainIndexer.Transformer
