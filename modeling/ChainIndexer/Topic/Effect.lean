import ChainIndexer.Topic.Resumption

/-!
# What an event can do to the topic

What has been sent, what is being produced and what the subscription passes on next comes to the
topic in this order, unless a block fails or the client goes. An orderly event delivers some of the
numbers that come, adds one to them, or is a start, which begins them anew.
-/

namespace ChainIndexer.Topic

open Producer (ProducedBlock Store Config queued)

variable {cfg : Config} {s t : State} {p q : Producer.State} {top : Nat}

/-- The numbers that the topic gets next if no block fails and the client stays connected. -/
def coming (s : State) : List Nat :=
  if s.flowing then
    (s.producer.sent ++ s.producer.producing).map (·.number) ++ s.next.toList
  else s.producer.sent.map (·.number)

/-- The numbers in the topic, and those to come. -/
def numbers (s : State) : List Nat := s.topic.map (·.number) ++ coming s

/-- Where the topic ends, or comes to an end. -/
def ends (s : State) : List Nat := (s.topic.map (·.number)).getLast?.toList ++ coming s

/-- While blocks flow, the next one comes after those that are produced. -/
theorem coming_flowing (h : s.flowing = true) : coming s =
    (s.producer.sent ++ s.producer.producing).map (·.number) ++ s.next.toList := if_pos h

/-- Otherwise only what the client has accepted comes. -/
theorem coming_stopped (h : s.flowing = false) : coming s = s.producer.sent.map (·.number) :=
  if_neg (by rw [h]; exact Bool.false_ne_true)

/-- What the client has accepted comes first. -/
theorem sent_prefix_coming (s : State) : s.producer.sent.map (·.number) <+: coming s := by
  cases h : s.flowing with
  | true =>
    rw [coming_flowing h, List.map_append, List.append_assoc]
    exact List.prefix_append _ _
  | false => exact coming_stopped h ▸ List.prefix_refl _

/-- What an insertion does to the store. -/
def Inserts (cfg : Config) (p q : Producer.State) : Prop :=
  q.store = p.store ∨ (∃ details ∈ queued p, p.store.create details = some q.store) ∨
    ∃ details ∈ queued p, q.store = p.store.deleteMany cfg.maxReOrgDepth details

/-- Every event of the producer inserts in one of these ways. -/
theorem inserts_of_step {e : Producer.Event} (h : Producer.step cfg p e = some q) :
    Inserts cfg p q := by
  cases Producer.step_effect h with
  | idle _ hsame _ => exact Or.inl hsame.store
  | forget | fail _ | send _ | unheard _ => exact Or.inl rfl
  | report _ => exact Or.inl (Producer.emitDelivered_sameRecord cfg _ _ _ _).store
  | attempt _ _ => exact Or.inl (Producer.retry_sameRecord p _).store
  | create hi hc =>
    exact Or.inr (Or.inl ⟨_, Producer.mem_queued.mpr (Or.inr ⟨_, hi, rfl⟩), hc⟩)
  | delete hi =>
    refine Or.inr (Or.inr ⟨_, Producer.mem_queued.mpr (Or.inr ⟨_, hi, rfl⟩), ?_⟩)
    exact (Producer.runQueue_sameRecord cfg _).store

/-- An insertion stores nothing but what was queued. -/
theorem Inserts.mem {block : ProducedBlock} (h : Inserts cfg p q) (hb : block ∈ q.store.blocks) :
    block ∈ p.store.blocks ∨ block ∈ queued p := by
  rcases h with hsame | ⟨details, hd, hc⟩ | ⟨details, hd, hdelete⟩
  · exact Or.inl (hsame ▸ hb)
  · rcases (Store.mem_create hc).mp hb with hold | rfl
    · exact Or.inl hold
    · exact Or.inr hd
  · rw [hdelete] at hb
    exact Or.inl (Store.mem_deleteMany.mp hb).1

/-- An insertion of what is not above a number leaves the stale blocks above it, or none. -/
theorem Inserts.stale {replaced : List ProducedBlock} (h : Inserts cfg p q)
    (hqueued : ∀ block ∈ queued p, block.number ≤ top) (hstale : Stale cfg replaced p.store top) :
    Stale cfg replaced q.store top := by
  rcases h with hsame | ⟨details, hd, hc⟩ | ⟨details, hd, hdelete⟩
  · exact hsame ▸ hstale
  · exact hstale.create hc (hqueued details hd)
  · exact hdelete ▸ Stale.deleteMany (hqueued details hd)

/-- The loop of the insertions produces nothing. -/
theorem runQueue_producing (cfg : Config) (p : Producer.State) :
    (Producer.runQueue cfg p).producing = p.producing := by
  obtain ⟨_, hr⟩ | ⟨skipped, details, rest, _, hr⟩ := Producer.runQueue_cases cfg p <;> rw [hr]

private theorem retry_producing (p : Producer.State) (insertion : Producer.Insertion) :
    (Producer.retry p insertion).producing = p.producing := by
  unfold Producer.retry
  split <;> rfl

private theorem emitDelivered_producing (cfg : Config) (p : Producer.State) (block : ProducedBlock)
    (partition : Int) (listeners : Nat) :
    (Producer.emitDelivered cfg p block partition listeners).producing = p.producing := by
  induction listeners with
  | zero => rfl
  | succ listeners ih =>
    rw [← ih, Producer.emitDelivered, Producer.onDelivered]
    split
    · rfl
    · dsimp only
      split
      · rfl
      · exact runQueue_producing cfg _

/-- Some of the numbers to come are delivered, and the others stay or are given up. -/
structure Delivers (cfg : Config) (s t : State) (delivered : List ProducedBlock) : Prop where
  topic : t.topic = s.topic ++ delivered
  comes : delivered.map (·.number) ++ coming t <+: coming s
  queues : ∀ block ∈ queued t.producer, block ∈ queued s.producer ∨ block ∈ delivered
  inserts : Inserts cfg s.producer t.producer
  replaced : t.replaced = s.replaced

/-- All that an event can do to the topic. -/
inductive Moves (cfg : Config) (s : State) : Event → State → Prop
  | delivers {e t delivered} : Delivers cfg s t delivered → Moves cfg s e t
  | passes {e t} (number : Nat) : (coming s).getLast? = some number →
      coming t = coming s ++ [number + 1] → t.topic = s.topic →
      queued t.producer = queued s.producer → t.producer.store = s.producer.store →
      t.replaced = s.replaced → Moves cfg s e t
  | starts {remote t} {number : Nat} : Drained s.producer → Settled s remote →
      cfg.getStartBlock s.producer.store remote = some (number : Int) → coming t = [number] →
      t.topic = s.topic → t.producer = s.producer →
      t.replaced = s.replaced ++ replacedBlocks s.producer.store remote →
      Moves cfg s (.start remote) t

/-- Where the topic stays and nothing is queued, an insertion may go on. -/
theorem Moves.still {e : Event} (htopic : t.topic = s.topic) (hcoming : coming t <+: coming s)
    (hqueued : queued t.producer ⊆ queued s.producer) (hinserts : Inserts cfg s.producer t.producer)
    (hreplaced : t.replaced = s.replaced) : Moves cfg s e t := by
  have hnothing : Delivers cfg s t [] :=
    ⟨htopic.trans (List.append_nil _).symm, hcoming, fun _ hb => Or.inl (hqueued hb), hinserts,
      hreplaced⟩
  exact .delivers hnothing

/-- A client that goes delivers some of the blocks without a report, and gives up the others. -/
theorem Moves.cut {e : Event} {reached : Nat}
    (htopic : t.topic = s.topic ++ s.producer.sent.take reached) (hflowing : t.flowing = false)
    (hsent : t.producer.sent = []) (hqueued : queued t.producer ⊆ queued s.producer)
    (hstore : t.producer.store = s.producer.store) (hreplaced : t.replaced = s.replaced) :
    Moves cfg s e t := by
  refine .delivers ⟨htopic, ?_, fun _ hb => Or.inl (hqueued hb), Or.inl hstore, hreplaced⟩
  rw [coming_stopped hflowing, hsent, List.map_nil, List.append_nil, List.map_take]
  exact (List.take_prefix _ _).trans (sent_prefix_coming s)

/-- What is sent, produced and passed on next is all that comes. -/
theorem coming_congr (hflowing : t.flowing = s.flowing) (hnext : t.next = s.next)
    (hsent : t.producer.sent = s.producer.sent)
    (hproducing : t.producer.producing = s.producer.producing) : coming t = coming s := by
  unfold coming
  rw [hflowing, hnext, hsent, hproducing]

/-- A report delivers the first of the sent blocks. -/
theorem moves_report {report : Option Int}
    (h : Producer.step cfg s.producer (.deliveryReport none report) = some p) :
    Moves cfg s (.producer (.deliveryReport none report))
      (after s (.deliveryReport none report) p) := by
  obtain ⟨block, hsent, hproducing⟩ : ∃ block, s.producer.sent = block :: p.sent ∧
      p.producing = s.producer.producing := by
    cases Producer.step_effect h with
    | idle hreports _ _ | attempt hreports _ => exact absurd trivial hreports
    | unheard hsent => exact ⟨_, hsent, rfl⟩
    | @report _ partition block sent hsent =>
      refine ⟨block, ?_, emitDelivered_producing cfg _ _ _ _⟩
      rw [(Producer.emitDelivered_sameRecord cfg _ _ _ _).sent]
      exact hsent
  have hack : Producer.acknowledges s.producer (.deliveryReport none report) = [block] := by
    rw [Producer.acknowledges, hsent]
    rfl
  have hcoming : coming s = block.number :: coming { s with producer := p } := by
    unfold coming
    rw [hsent, ← hproducing]
    split <;> rfl
  have hrest : coming (after s (.deliveryReport none report) p) =
      coming { s with producer := p } := coming_congr (Bool.and_true _) rfl rfl rfl
  have hdelivers : Delivers cfg s (after s (.deliveryReport none report) p) [block] := by
    refine ⟨congrArg (s.topic ++ ·) hack, ?_, fun other ho => ?_, inserts_of_step h, rfl⟩
    · rw [hcoming, hrest]
      exact List.prefix_refl _
    · rcases Producer.step_queued h ho with hold | ⟨_, _, sent, _, hjoins, _⟩
      · exact Or.inl hold
      · rw [hsent] at hjoins
        exact Or.inr (List.mem_singleton.mpr (List.cons.inj hjoins).1.symm)
  exact .delivers hdelivers

/-- An event without a report queues nothing. -/
theorem queued_subset {e : Producer.Event} (h : Producer.step cfg s.producer e = some p)
    (hreports : ¬ e.Reports) : queued p ⊆ queued s.producer := by
  intro block hb
  rcases Producer.step_queued h hb with hold | ⟨_, _, _, rfl, _⟩
  · exact hold
  · exact absurd trivial hreports

/-- An event without a report delivers nothing. -/
theorem moves_inner {e : Producer.Event} (h : Producer.step cfg s.producer e = some p)
    (hreports : ¬ e.Reports) (hcoming : coming (after s e p) <+: coming s) :
    Moves cfg s (.producer e) (after s e p) := by
  refine .still ?_ hcoming (queued_subset h hreports) (inserts_of_step h) rfl
  rw [after, Producer.acknowledges_eq_nil hreports, List.append_nil]

/-- Nor does it change what comes, if nothing is sent and nothing fails. -/
theorem moves_kept {e : Producer.Event} (h : Producer.step cfg s.producer e = some p)
    (hreports : ¬ e.Reports) (hfails : fails e = false) (hsent : p.sent = s.producer.sent)
    (hproducing : p.producing = s.producer.producing) :
    Moves cfg s (.producer e) (after s e p) := by
  refine moves_inner h hreports ?_
  have hflowing : (after s e p).flowing = s.flowing := by
    rw [after, hfails]
    exact Bool.and_true _
  exact coming_congr hflowing rfl hsent hproducing ▸ List.prefix_refl _

/-- The first block of the activations is sent behind the sent ones. -/
theorem moves_sent {block : ProducedBlock} (hflowing : s.flowing = true)
    (hblock : s.producer.producing[0]? = some block)
    (h : Producer.step cfg s.producer (.produced 0 none) = some p) :
    Moves cfg s (.producer (.produced 0 none)) (after s (.produced 0 none) p) := by
  refine moves_inner h id ?_
  obtain rfl := Option.some.inj ((congrArg (Option.map _) hblock).symm.trans h)
  cases hproducing : s.producer.producing with
  | nil =>
    rw [hproducing] at hblock
    cases hblock
  | cons first rest =>
    rw [hproducing] at hblock
    obtain rfl := Option.some.inj hblock
    rw [coming_flowing hflowing, coming_flowing (by rw [after, hflowing]; rfl), hproducing]
    simp [after]

/-- A block that fails stops what is behind it. -/
theorem moves_failed {i : Nat} {error : Thrown}
    (h : Producer.step cfg s.producer (.produced i (some error)) = some p) :
    Moves cfg s (.producer (.produced i (some error))) (after s (.produced i (some error)) p) := by
  refine moves_inner h id ?_
  obtain ⟨block, _, rfl⟩ := Option.map_eq_some_iff.mp h
  rw [coming_stopped (Bool.and_false _)]
  exact sent_prefix_coming s

/-- The calls of the database change neither what is sent nor what is produced. -/
theorem insertion_keeps {e : Producer.Event} (h : Producer.step cfg p e = some q)
    (he : (∃ failed, e = .created failed) ∨ ∃ failed, e = .deleted failed) :
    q.sent = p.sent ∧ q.producing = p.producing := by
  have hretry : ∀ insertion, (Producer.retry p insertion).sent = p.sent ∧
      (Producer.retry p insertion).producing = p.producing :=
    fun insertion => ⟨(Producer.retry_sameRecord p insertion).sent, retry_producing p insertion⟩
  rcases he with ⟨failed, rfl⟩ | ⟨failed, rfl⟩
  · simp only [Producer.step, Producer.created] at h
    split at h
    · obtain rfl := Option.some.inj h
      split
      · exact hretry _
      · exact ⟨rfl, rfl⟩
    · cases h
  · simp only [Producer.step, Producer.deleted] at h
    split at h
    · obtain rfl := Option.some.inj h
      split
      · exact hretry _
      · exact ⟨(Producer.runQueue_sameRecord cfg _).sent, runQueue_producing cfg _⟩
    · cases h

/-- An inner event is one of the producer. -/
theorem inner_eq {e : Producer.Event} (h : inner cfg s e = some t) :
    ∃ p, Producer.step cfg s.producer e = some p ∧ after s e p = t := by
  cases e with
  | emit | disconnect => cases h
  | listen | unlisten | produced | deliveryReport | created | deleted =>
    exact Option.map_eq_some_iff.mp h

private theorem moves_producer {e : Producer.Event} (hg : Orderly s (.producer e))
    (h : inner cfg s e = some t) : Moves cfg s (.producer e) t := by
  obtain ⟨p, hp, rfl⟩ := inner_eq h
  cases e with
  | emit | disconnect => cases h
  | listen | unlisten =>
    cases hp
    exact moves_kept rfl id rfl rfl rfl
  | produced i failure =>
    cases failure with
    | none =>
      obtain ⟨rfl, hflowing⟩ := hg
      obtain ⟨block, hblock, _⟩ := Option.map_eq_some_iff.mp hp
      exact moves_sent hflowing hblock hp
    | some error => exact moves_failed hp
  | deliveryReport error report =>
    obtain ⟨rfl, _⟩ := hg
    exact moves_report hp
  | created failed =>
    obtain ⟨hsent, hproducing⟩ := insertion_keeps hp (Or.inl ⟨failed, rfl⟩)
    exact moves_kept hp id rfl hsent hproducing
  | deleted failed =>
    obtain ⟨hsent, hproducing⟩ := insertion_keeps hp (Or.inr ⟨failed, rfl⟩)
    exact moves_kept hp id rfl hsent hproducing

private theorem moves_next {hash : String} (h : next cfg s hash = some t) :
    Moves cfg s (.next hash) t := by
  obtain ⟨number, hnumber, hp⟩ := Option.bind_eq_some_iff.mp h
  obtain ⟨p, hp, rfl⟩ := Option.map_eq_some_iff.mp hp
  cases hp
  cases hflowing : s.flowing with
  | false =>
    refine .still rfl ?_ (List.Subset.refl _) (Or.inl rfl) rfl
    simp [coming, hflowing]
  | true =>
    have hcoming := coming_flowing hflowing
    rw [hnumber] at hcoming
    refine .passes number ?_ ?_ rfl rfl rfl rfl
    · rw [hcoming, Option.toList_some, List.getLast?_concat]
    · rw [hcoming]
      simp [coming]

private theorem moves_start {remote : Nat → Option String} (hg : Orderly s (.start remote))
    (h : start cfg s remote = some t) : Moves cfg s (.start remote) t := by
  unfold start at h
  split at h
  · rename_i number hnumber
    obtain rfl := Option.some.inj h
    obtain ⟨⟨hproducing, hsent, _⟩, _⟩ := id hg
    refine .starts hg.1 hg.2 hnumber ?_ rfl rfl rfl
    rw [coming_flowing rfl]
    simp [hproducing, hsent]
  · cases h
  · cases h

/-- Every orderly event moves the topic in one of these ways. -/
theorem moves_of_step {e : Event} (hg : Orderly s e) (h : step cfg s e = some t) :
    Moves cfg s e t := by
  cases e with
  | start remote => exact moves_start hg h
  | next hash => exact moves_next h
  | producer e => exact moves_producer hg h
  | disconnect reached =>
    cases h
    exact .cut rfl rfl rfl (List.Subset.refl _) rfl rfl
  | die reached =>
    cases h
    exact .cut rfl rfl rfl (List.nil_subset _) rfl rfl

end ChainIndexer.Topic
