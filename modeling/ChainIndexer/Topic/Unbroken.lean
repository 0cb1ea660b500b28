import ChainIndexer.Core.Gapless
import ChainIndexer.Topic.Effect

/-!
# The topic never gets a gap

However often the process dies, what it leaves in the store is in the topic, and the next start is
at most one above the last block of the topic. So the branch that the topic leaves of itself has all
numbers from the start block on.
-/

namespace ChainIndexer.Topic

open Producer (ProducedBlock Store Config queued held)

variable {cfg : Config} {s t : State} {number top : Nat}

/-- The topic has no gap, none comes next, and it has what the producer holds. Nothing is queued
above the end of the topic, and what is stored above it is stale. -/
structure Kept (cfg : Config) (s : State) : Prop where
  gapless : (numbers s).IsChain fun a b => b ≤ a + 1
  rising : (coming s).IsChain fun a b => b = a + 1
  low : ∀ number ∈ numbers s, cfg.startBlock ≤ number
  first : ∀ number ∈ (numbers s).head?, number = cfg.startBlock
  holds : ∀ block ∈ held s.producer, block ∈ s.topic
  below : ∀ top ∈ ends s, ∀ block ∈ queued s.producer, block.number ≤ top
  stale : ∀ top ∈ ends s, Stale cfg s.replaced s.producer.store top

theorem Kept.init : Kept cfg State.init where
  gapless := .nil
  rising := .nil
  low := nofun
  first := nofun
  holds := nofun
  below := nofun
  stale := nofun

/-- Numbers that rise one by one are not above what they end with, nor above what follows. -/
theorem le_of_rising {xs ys : List Nat} (h : (xs ++ ys).IsChain fun a b => b = a + 1)
    (hnumber : number ∈ xs) (htop : top ∈ xs.getLast?.toList ++ ys) : number ≤ top := by
  have hlt : (xs ++ ys).IsChain (· < ·) := h.imp fun a b hab => by omega
  obtain ⟨hxs, _, hcross⟩ := List.pairwise_append.mp hlt.pairwise
  rcases List.mem_append.mp htop with hlast | hys
  · obtain ⟨init, rfl⟩ := List.getLast?_eq_some_iff.mp (Option.mem_toList.mp hlast)
    rcases List.mem_append.mp hnumber with hinit | hsame
    · have hbefore := (List.pairwise_append.mp hxs).2.2 number hinit top (List.mem_singleton_self _)
      omega
    · exact Nat.le_of_eq (List.mem_singleton.mp hsame)
  · have hbefore := hcross number hnumber top hys
    omega

/-- What is delivered was to come, so that the topic ends where it was to end. -/
theorem Delivers.ends_subset {delivered : List ProducedBlock} (h : Delivers cfg s t delivered) :
    ends t ⊆ ends s := by
  have hcomes := h.comes.subset
  intro top htop
  unfold ends at htop ⊢
  rw [h.topic, List.map_append] at htop
  rcases List.mem_append.mp htop with hlast | hcoming
  · rw [Option.mem_toList, List.getLast?_append] at hlast
    cases hd : (delivered.map (·.number)).getLast? with
    | none =>
      rw [hd, Option.none_or] at hlast
      exact List.mem_append_left _ (Option.mem_toList.mpr hlast)
    | some other =>
      rw [hd, Option.some_or] at hlast
      obtain rfl := Option.some.inj hlast
      exact List.mem_append_right _ (hcomes (List.mem_append_left _ (List.mem_of_getLast? hd)))
  · exact List.mem_append_right _ (hcomes (List.mem_append_right _ hcoming))

/-- What is delivered was to come. -/
theorem Delivers.numbers_begin {delivered : List ProducedBlock}
    (h : Delivers cfg s t delivered) : numbers t <+: numbers s := by
  unfold numbers
  rw [h.topic, List.map_append, List.append_assoc]
  exact (List.prefix_append_right_inj _).mpr h.comes

/-- A delivery keeps this. -/
theorem Kept.delivers {delivered : List ProducedBlock} (hk : Kept cfg s)
    (h : Delivers cfg s t delivered) : Kept cfg t where
  gapless := List.IsChain.prefix hk.gapless h.numbers_begin
  rising := by
    have hrising := List.IsChain.prefix hk.rising h.comes
    exact hrising.suffix (List.suffix_append _ _)
  low := fun number hnumber => hk.low number (h.numbers_begin.subset hnumber)
  first := by
    intro number hnumber
    obtain ⟨rest, hrest⟩ := h.numbers_begin
    refine hk.first number ?_
    rw [← hrest, List.head?_append, Option.mem_def.mp hnumber]
    rfl
  holds := by
    intro block hb
    rw [h.topic]
    have hbefore : block ∈ held s.producer ∨ block ∈ delivered := by
      rcases List.mem_append.mp hb with hqueued | hstored
      · exact (h.queues block hqueued).imp_left (List.mem_append_left _)
      · exact Or.inl (List.mem_append.mpr (h.inserts.mem hstored).symm)
    rcases hbefore with hheld | hdelivered
    · exact List.mem_append_left _ (hk.holds block hheld)
    · exact List.mem_append_right _ hdelivered
  below := by
    intro top htop block hb
    rcases h.queues block hb with hold | hdelivered
    · exact hk.below top (h.ends_subset htop) block hold
    · have hmem : block.number ∈ delivered.map (·.number) := List.mem_map_of_mem hdelivered
      have hrising := List.IsChain.prefix hk.rising h.comes
      refine le_of_rising hrising hmem ?_
      unfold ends at htop
      rw [h.topic, List.map_append, List.getLast?_append_of_ne_nil _ (List.ne_nil_of_mem hmem)]
        at htop
      exact htop
  stale := by
    intro top htop
    rw [h.replaced]
    have hbefore := h.ends_subset htop
    exact h.inserts.stale (hk.below top hbefore) (hk.stale top hbefore)

/-- A block that is passed on keeps this. -/
theorem Kept.passes (hk : Kept cfg s) (hlast : (coming s).getLast? = some number)
    (hcoming : coming t = coming s ++ [number + 1]) (htopic : t.topic = s.topic)
    (hqueued : queued t.producer = queued s.producer)
    (hstore : t.producer.store = s.producer.store) (hreplaced : t.replaced = s.replaced) :
    Kept cfg t := by
  have hnumbers : numbers t = numbers s ++ [number + 1] := by
    rw [numbers, numbers, htopic, hcoming, List.append_assoc]
  have hends : ends t = ends s ++ [number + 1] := by
    rw [ends, ends, htopic, hcoming, List.append_assoc]
  have hend : (numbers s).getLast? = some number := by
    rw [numbers, List.getLast?_append, hlast, Option.some_or]
  have hcomes : number ∈ coming s := List.mem_of_getLast? hlast
  refine {
    gapless := ?gapless
    rising := ?rising
    low := fun k hmem => ?low
    first := fun k hhead => ?first
    holds := fun block hb => ?holds
    below := fun top htop block hb => ?below
    stale := fun top htop => ?stale }
  case gapless =>
    rw [hnumbers, List.isChain_append]
    refine ⟨hk.gapless, .singleton _, fun a ha b hb => ?_⟩
    obtain rfl := Option.some.inj (hend.symm.trans ha)
    obtain rfl := Option.some.inj hb
    exact Nat.le_refl _
  case rising =>
    rw [hcoming, List.isChain_append]
    refine ⟨hk.rising, .singleton _, fun a ha b hb => ?_⟩
    obtain rfl := Option.some.inj (hlast.symm.trans ha)
    exact (Option.some.inj hb).symm
  case low =>
    rw [hnumbers] at hmem
    rcases List.mem_append.mp hmem with hold | hnew
    · exact hk.low k hold
    · rw [List.mem_singleton.mp hnew]
      exact Nat.le_succ_of_le (hk.low number (List.mem_append_right _ hcomes))
  case first =>
    rw [hnumbers, List.head?_append_of_ne_nil _ (List.ne_nil_of_mem (List.mem_of_getLast? hend))]
      at hhead
    exact hk.first k hhead
  case holds =>
    rw [held, hqueued, hstore] at hb
    rw [htopic]
    exact hk.holds block hb
  case below =>
    rw [hqueued] at hb
    rw [hends] at htop
    rcases List.mem_append.mp htop with hold | hnew
    · exact hk.below top hold block hb
    · rw [List.mem_singleton.mp hnew]
      exact Nat.le_succ_of_le (hk.below number (List.mem_append_right _ hcomes) block hb)
  case stale =>
    rw [hstore, hreplaced]
    rw [hends] at htop
    rcases List.mem_append.mp htop with hold | hnew
    · exact hk.stale top hold
    · rw [List.mem_singleton.mp hnew]
      exact (hk.stale number (List.mem_append_right _ hcomes)).mono (Nat.le_succ _)

/-- What is known of the next start block. -/
structure Resumes (cfg : Config) (s : State) (remote : Nat → Option String) (number : Nat) :
    Prop where
  low : cfg.startBlock ≤ number
  first : s.topic = [] → number = cfg.startBlock
  adjoins : ∀ last ∈ s.topic.getLast?, number ≤ last.number + 1
  stale : Stale cfg (replacedBlocks s.producer.store remote) s.producer.store number

/-- On an empty store the producer starts at the start block. -/
theorem getStartBlock_empty {store : Store} {remote : Nat → Option String}
    (h : store.blocks = []) : cfg.getStartBlock store remote = some (cfg.startBlock : Int) := by
  have hget : store.get none = none := by
    rw [Store.get, h]
    rfl
  rw [Config.getStartBlock, hget, Option.map_none, Producer.Config.walk_missing hget]
  rfl

/-- The next start is not below the start block, and at most one above the last block. -/
theorem Kept.resumes {remote : Nat → Option String} {start : Int} (hk : Kept cfg s)
    (hsettled : Settled s remote)
    (h : cfg.getStartBlock s.producer.store remote = some start) :
    ∃ number : Nat, start = number ∧ Resumes cfg s remote number := by
  have hlowest : ∀ block ∈ s.producer.store.blocks, cfg.startBlock ≤ block.number := by
    intro block hb
    have hmem := hk.holds block (List.mem_append_right _ hb)
    exact hk.low _ (List.mem_append_left _ (List.mem_map_of_mem hmem))
  have hends : ∀ last ∈ s.topic.getLast?, last.number ∈ ends s := by
    intro last hlast
    refine List.mem_append_left _ (Option.mem_toList.mpr ?_)
    rw [List.getLast?_map, Option.mem_def.mp hlast]
    rfl
  rcases hsettled.anchored with hempty | ⟨anchor, hb, hpos, hmatch⟩
  · rw [getStartBlock_empty hempty] at h
    refine ⟨cfg.startBlock, (Option.some.inj h).symm, Nat.le_refl _, fun _ => rfl,
      fun last hlast => ?_, fun block hmem => ?_⟩
    · have hmem : last ∈ s.topic := List.mem_of_getLast? hlast
      exact Nat.le_succ_of_le (hk.low _ (List.mem_append_left _ (List.mem_map_of_mem hmem)))
    · rw [hempty] at hmem
      cases hmem
  · obtain ⟨last, hlast⟩ := Store.exists_isLast (List.ne_nil_of_mem hb)
    obtain ⟨number, rfl, hresumption⟩ :=
      getStartBlock_resumption hsettled.known hlast hb hpos hmatch h
    refine ⟨number, rfl, hresumption.low _ hlowest, fun hnone => ?_, fun top htop => ?_,
      hresumption.stale hlast⟩
    · have hmem := hk.holds anchor (List.mem_append_right _ hb)
      rw [hnone] at hmem
      cases hmem
    · exact hresumption.le hlast (hk.stale _ (hends top htop)) hsettled.gone

/-- A start keeps this. -/
theorem Kept.starts {remote : Nat → Option String} (hk : Kept cfg s)
    (hdrained : Drained s.producer) (hresumes : Resumes cfg s remote number)
    (hcoming : coming t = [number]) (htopic : t.topic = s.topic)
    (hproducer : t.producer = s.producer)
    (hreplaced : t.replaced = s.replaced ++ replacedBlocks s.producer.store remote) :
    Kept cfg t := by
  have hqueued : queued s.producer = [] := by
    rw [queued, hdrained.2.2.1, hdrained.2.2.2]
    rfl
  have hnumbers : numbers t = s.topic.map (·.number) ++ [number] := by
    rw [numbers, htopic, hcoming]
  refine {
    gapless := ?gapless
    rising := hcoming ▸ .singleton _
    low := fun k hmem => ?low
    first := fun k hhead => ?first
    holds := fun block hb => ?holds
    below := fun top _ block hb => ?below
    stale := fun top htop => ?stale }
  case gapless =>
    rw [hnumbers, List.isChain_append]
    have hgapless := List.IsChain.prefix hk.gapless (List.prefix_append _ _)
    refine ⟨hgapless, .singleton _, fun a ha b hb => ?_⟩
    obtain rfl := Option.some.inj hb
    rw [List.getLast?_map, Option.mem_def, Option.map_eq_some_iff] at ha
    obtain ⟨last, hlast, rfl⟩ := ha
    exact hresumes.adjoins last hlast
  case low =>
    rw [hnumbers] at hmem
    rcases List.mem_append.mp hmem with hold | hnew
    · exact hk.low k (List.mem_append_left _ hold)
    · rw [List.mem_singleton.mp hnew]
      exact hresumes.low
  case first =>
    rw [hnumbers, List.head?_append] at hhead
    cases hfirst : s.topic with
    | nil =>
      rw [hfirst] at hhead
      obtain rfl := Option.some.inj hhead
      exact hresumes.first hfirst
    | cons first rest =>
      rw [hfirst] at hhead
      refine hk.first k ?_
      rw [numbers, hfirst]
      exact hhead
  case holds =>
    rw [hproducer] at hb
    rw [htopic]
    exact hk.holds block hb
  case below =>
    rw [hproducer, hqueued] at hb
    cases hb
  case stale =>
    rw [hproducer, hreplaced]
    rw [ends, htopic, hcoming] at htop
    rcases List.mem_append.mp htop with hlast | hnew
    · exact (hk.stale top (List.mem_append_left _ hlast)).more (List.subset_append_left _ _)
    · rw [List.mem_singleton.mp hnew]
      exact hresumes.stale.more (List.subset_append_right _ _)

/-- Every event in order keeps this. -/
theorem Kept.step {e : Event} (hk : Kept cfg s) (hg : Orderly s e) (h : step cfg s e = some t) :
    Kept cfg t := by
  cases moves_of_step hg h with
  | delivers hdelivers => exact hk.delivers hdelivers
  | passes number hlast hcoming htopic hqueued hstore hreplaced =>
    exact hk.passes hlast hcoming htopic hqueued hstore hreplaced
  | starts hdrained hsettled hstart hcoming htopic hproducer hreplaced =>
    obtain ⟨number, hnumber, hresumes⟩ := hk.resumes hsettled hstart
    obtain rfl := Int.ofNat.inj hnumber
    exact hk.starts hdrained hresumes hcoming htopic hproducer hreplaced

/-- So does every run. -/
theorem kept_of_run {es : List Event} (h : (machine cfg).Run Orderly State.init es s) :
    Kept cfg s :=
  h.invariant (fun _ _ _ hk hg hs => hk.step hg hs) Kept.init

/-- The topic has no gap, it has what the producer holds, and no start leaves one. -/
structure Unbroken (cfg : Config) (s : State) : Prop where
  /-- The branch of each beginning of the topic has all numbers from the start block on. -/
  gapless : ∀ before, before <+: s.topic → (branch (·.number) before).map (·.number) =
    List.range' cfg.startBlock (branch (·.number) before).length
  holds : ∀ block ∈ held s.producer, block ∈ s.topic
  resumes : ∀ remote start, Settled s remote →
    cfg.getStartBlock s.producer.store remote = some start →
      cfg.startBlock ≤ start ∧ ∀ last ∈ s.topic.getLast?, start ≤ last.number + 1

/-- What is kept gives the statement on the topic. -/
theorem Kept.unbroken (hk : Kept cfg s) : Unbroken cfg s where
  gapless := by
    intro before hbefore
    have hbegins : before.map (·.number) <+: numbers s :=
      (hbefore.map _).trans (List.prefix_append _ _)
    refine map_branch_of_adjoins ?_ (fun a ha => hk.first _ ?_) fun a ha => hk.low _ ?_
    · have hgapless := List.IsChain.prefix hk.gapless hbegins
      exact (List.isChain_map fun block : ProducedBlock => block.number).mp hgapless
    · obtain ⟨rest, hrest⟩ := hbegins
      rw [← hrest, List.head?_append, List.head?_map, Option.mem_def.mp ha]
      rfl
    · exact hbegins.subset (List.mem_map_of_mem ha)
  holds := hk.holds
  resumes := by
    intro remote start hsettled hstart
    obtain ⟨number, rfl, hresumes⟩ := hk.resumes hsettled hstart
    refine ⟨Int.ofNat_le.mpr hresumes.low, fun last hlast => ?_⟩
    have hadjoins := hresumes.adjoins last hlast
    omega

/-- **The topic never gets a gap**, however often the client disconnects and the process dies: its
branch has all numbers from the start block on, what the producer holds is in it, and the next start
is not below the start block and at most one above the last block. -/
theorem topic_unbroken {es : List Event} (h : (machine cfg).Run Orderly State.init es s) :
    Unbroken cfg s :=
  (kept_of_run h).unbroken

/-- The next block is passed on, produced and delivered. -/
def produceNext (hash : String) : List Event :=
  [.next hash, .producer (.produced 0 none), .producer (.deliveryReport none (some 0))]

/-- The block being inserted is stored. -/
def insertNext : List Event := [.producer (.created false), .producer (.deleted false)]

/-- A chain with this hash at every height above block 10. -/
def chain (hash : String) (number : Nat) : Option String :=
  some (if number = 10 then "0xa" else hash)

/-- The process dies while block 12 is on its way, and again before the block that has replaced
block 11 is stored. -/
def twoDeaths : List Event :=
  [.producer .listen, .start (chain "0xb")] ++ produceNext "0xa" ++ insertNext ++
    produceNext "0xb" ++ insertNext ++ [.next "0xb", .producer (.produced 0 none), .die 1,
    .start (chain "0xb1"), .producer .listen] ++ produceNext "0xb1" ++
    [.producer (.created false), .die 0, .start (chain "0xb1")] ++ produceNext "0xb1"

/-- Block 11 is delivered three times, and the branch has no gap. -/
theorem twoDeaths_unbroken : ∃ s, (machine Producer.fromTen).Run Orderly State.init twoDeaths s ∧
    s.topic.map (·.number) = [10, 11, 12, 11, 11] ∧
    (branch (·.number) s.topic).map (·.number) = [10, 11] := by
  obtain ⟨s, hr, htopic, hlength⟩ : ∃ s,
      (machine Producer.fromTen).Run Orderly State.init twoDeaths s ∧
      s.topic.map (·.number) = [10, 11, 12, 11, 11] ∧ (branch (·.number) s.topic).length = 2 :=
    Machine.exists_run_of_exec (by decide)
  refine ⟨s, hr, htopic, ?_⟩
  rw [(topic_unbroken hr).gapless s.topic (List.prefix_refl _), hlength]
  rfl

/-- Blocks 11 and 12 leave the chain, and after a death they are on it again. -/
def returned : List Event :=
  [.producer .listen, .start (chain "0xb")] ++ produceNext "0xa" ++ insertNext ++
    produceNext "0xb" ++ insertNext ++ produceNext "0xb" ++ insertNext ++
    [.die 0, .start (chain "0xb1")] ++ produceNext "0xa" ++ [.die 0, .start (chain "0xb")] ++
    produceNext "0xb"

/-- The store has kept them, and the producer starts above block 12 with block 10 as the last one
of the topic. -/
theorem returned_gap : ∃ s, (machine Producer.fromTen).Run Machine.Free State.init returned s ∧
    s.topic.map (·.number) = [10, 11, 12, 10, 13] ∧
    (branch (·.number) s.topic).map (·.number) = [10, 13] :=
  Machine.exists_run_of_exec (by decide)

end ChainIndexer.Topic
