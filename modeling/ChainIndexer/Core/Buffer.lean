import ChainIndexer.Core.Machine

/-!
# A buffer with one reader

Items arrive, wait until they are decoded, enter a queue, and are taken from its
front by one reader, who may give up and who removes the front when an item is
done. The queue may be cleared at any time, also while the reader holds an item.
No order is imposed on any of this: the results say which orders of the moves
keep the arrival order and leave no item behind.
-/

namespace ChainIndexer

universe u

/-- The lists an item passes through, and the item in the reader's hand. -/
structure Buffer (α : Type u) where
  arrived : List α := []
  waiting : List α := []
  entered : List α := []
  queue : List α := []
  hand : Option α := none
  /-- Items in the order they were taken in hand, one entry each time. -/
  taken : List α := []
  resolved : List α := []
  done : List α := []
  lost : List α := []

namespace Buffer

variable {α : Type u}

/-- The moves of items. A waiting item is named by its place among the waiting ones. -/
inductive Act (α : Type u) where
  | arrive (a : α)
  | reject (i : Nat)
  | enter (i : Nat)
  | clear
  | take
  | release
  | resolve (a : α)
  /-- The item in hand is done and the front is removed, after a clearing if `cleared`. -/
  | finish (cleared : Bool)

/-- The effect of one move. -/
def act (b : Buffer α) : Act α → Option (Buffer α)
  | .arrive a => some { b with arrived := b.arrived ++ [a], waiting := b.waiting ++ [a] }
  | .reject i => b.waiting[i]?.map fun a =>
      { b with waiting := b.waiting.eraseIdx i, lost := b.lost ++ [a] }
  | .enter i => b.waiting[i]?.map fun a =>
      { b with
        waiting := b.waiting.eraseIdx i, entered := b.entered ++ [a], queue := b.queue ++ [a] }
  | .clear => some { b with queue := [], lost := b.lost ++ b.queue }
  | .take => b.queue.head?.map fun a => { b with hand := some a, taken := b.taken ++ [a] }
  | .release => some { b with hand := none }
  | .resolve a => some { b with resolved := b.resolved ++ [a] }
  | .finish cleared => b.hand.map fun a =>
      { b with
        hand := none
        done := b.done ++ [a]
        queue := if cleared then [] else b.queue.tail
        lost := if cleared then b.lost ++ b.queue else b.lost }

/-- The machine of the moves. -/
def machine (α : Type u) : Machine (Buffer α) (Act α) where
  step := act

/-- A guard that restricts only arrivals, entries and finishes. -/
structure Lenient (G : Buffer α → Act α → Prop) : Prop where
  reject : ∀ b i, G b (.reject i)
  clear : ∀ b, G b .clear
  take : ∀ b, G b .take
  release : ∀ b, G b .release
  resolve : ∀ b a, G b (.resolve a)

/-! ## The reader follows the order of entry -/

/-- The entered items fall into the ones behind the reader, the one it is at, and the ones
before it; the one it is at may have been cleared from the queue. -/
structure Chain (b : Buffer α) (past : List α) (front : Option α) (rest : List α) : Prop where
  entered : (past ++ (front.toList ++ rest)).Sublist b.entered
  queue : b.queue = front.toList ++ rest ∨ b.queue = rest
  hand : ∀ a, b.hand = some a → front = some a
  done : b.done.Sublist past
  taken : ∀ x ∈ b.taken, x ∈ past ++ front.toList

/-- Taking the next item moves the reader on. -/
theorem Chain.advance {b : Buffer α} {past rest : List α} {front : Option α} {a : α}
    (h : Chain b past front (a :: rest)) (hq : b.queue = a :: rest) :
    Chain { b with hand := some a, taken := b.taken ++ [a] } (past ++ front.toList) (some a)
      rest where
  entered := by simpa using h.entered
  queue := Or.inl hq
  hand _ hx := hx
  done := h.done.trans (List.sublist_append_left _ _)
  taken x hx := by
    rcases List.mem_append.mp hx with hx | hx
    · exact List.mem_append_left _ (h.taken x hx)
    · exact List.mem_append_right _ (by simpa using hx)

/-- Taking the item the reader is at changes nothing. -/
theorem Chain.again {b : Buffer α} {past rest : List α} {a : α}
    (h : Chain b past (some a) rest) (hq : b.queue = a :: rest) :
    Chain { b with hand := some a, taken := b.taken ++ [a] } past (some a) rest where
  entered := h.entered
  queue := Or.inl hq
  hand _ hx := hx
  done := h.done
  taken x hx := by
    rcases List.mem_append.mp hx with hx | hx
    · exact h.taken x hx
    · exact List.mem_append_right _ (by simpa using hx)

/-- Finishing the item in hand leaves it behind the reader. -/
theorem Chain.finish {b : Buffer α} {past rest : List α} {a : α} (h : Chain b past (some a) rest)
    (cleared : Bool) : ∃ rest', Chain { b with
      hand := none
      done := b.done ++ [a]
      queue := if cleared then [] else b.queue.tail
      lost := if cleared then b.lost ++ b.queue else b.lost } (past ++ [a]) none rest' := by
  have hentered : ∀ rest', rest'.Sublist rest →
      (past ++ [a] ++ (Option.none.toList ++ rest')).Sublist b.entered := by
    intro rest' hrest
    refine List.Sublist.trans ?_ h.entered
    simpa using hrest.cons_cons a
  have hdone : (b.done ++ [a]).Sublist (past ++ [a]) := h.done.append_right [a]
  have htaken : ∀ x ∈ b.taken, x ∈ past ++ [a] ++ Option.none.toList := by
    simpa using h.taken
  cases cleared
  · rcases h.queue with hq | hq
    · exact ⟨rest, hentered rest (List.Sublist.refl _), Or.inl (by simp [hq]), nofun, hdone, htaken⟩
    · exact ⟨rest.tail, hentered rest.tail (List.tail_sublist _), Or.inl (by simp [hq]), nofun,
        hdone, htaken⟩
  · exact ⟨[], hentered [] (List.nil_sublist _), Or.inl rfl, nofun, hdone, htaken⟩

/-- Every move keeps the reader on a chain of entered items. -/
theorem Chain.act {b c : Buffer α} {past rest : List α} {front : Option α} {e : Act α}
    (h : Chain b past front rest) (hs : b.act e = some c) :
    ∃ past' front' rest', Chain c past' front' rest' := by
  cases e with
  | arrive a | resolve a =>
    cases hs
    exact ⟨past, front, rest, h.entered, h.queue, h.hand, h.done, h.taken⟩
  | reject i =>
    obtain ⟨a, _, rfl⟩ := Option.map_eq_some_iff.mp hs
    exact ⟨past, front, rest, h.entered, h.queue, h.hand, h.done, h.taken⟩
  | enter i =>
    obtain ⟨a, _, rfl⟩ := Option.map_eq_some_iff.mp hs
    refine ⟨past, front, rest ++ [a], ?_, ?_, h.hand, h.done, h.taken⟩
    · simpa using h.entered.append_right [a]
    · exact h.queue.imp (fun hq => by simp [hq]) (fun hq => by simp [hq])
  | clear =>
    cases hs
    refine ⟨past, front, [], ?_, Or.inr rfl, h.hand, h.done, h.taken⟩
    exact List.Sublist.trans (by simp) h.entered
  | take =>
    obtain ⟨a, ha, rfl⟩ := Option.map_eq_some_iff.mp hs
    obtain ⟨queue, hqueue⟩ := List.head?_eq_some_iff.mp ha
    rcases h.queue with hq | hq
    · cases front with
      | none =>
        obtain rfl : rest = a :: queue := hq.symm.trans hqueue
        exact ⟨_, _, _, h.advance hqueue⟩
      | some x =>
        obtain ⟨rfl, rfl⟩ : x = a ∧ rest = queue := by simpa [hqueue] using hq.symm
        exact ⟨_, _, _, h.again hqueue⟩
    · obtain rfl : rest = a :: queue := hq.symm.trans hqueue
      exact ⟨_, _, _, h.advance hqueue⟩
  | release =>
    cases hs
    exact ⟨past, front, rest, h.entered, h.queue, nofun, h.done, h.taken⟩
  | finish cleared =>
    obtain ⟨a, ha, rfl⟩ := Option.map_eq_some_iff.mp hs
    obtain rfl := h.hand a ha
    obtain ⟨rest', hrest⟩ := h.finish cleared
    exact ⟨_, _, rest', hrest⟩

/-- One item was taken again or before another that entered after it. -/
def InTurn (entered : List α) (x y : α) : Prop := x = y ∨ [x, y].Sublist entered

/-- The reader is on a chain, and takes items in the order of entry. -/
structure Orderly (b : Buffer α) : Prop where
  chain : ∃ past front rest, Chain b past front rest
  taken : b.taken.Pairwise (InTurn b.entered)

/-- Further entries change nothing about it. -/
theorem InTurn.mono {entered entered' : List α} (hsub : entered.Sublist entered') {x y : α}
    (h : InTurn entered x y) : InTurn entered' x y :=
  h.imp_right fun hxy => hxy.trans hsub

theorem Orderly.empty : Orderly ({} : Buffer α) where
  chain := ⟨[], none, [], by simp, Or.inl rfl, nofun, by simp, nofun⟩
  taken := List.Pairwise.nil

/-- Nothing already taken overtakes the item the reader is at. -/
theorem Chain.inTurn {b : Buffer α} {past rest : List α} {a : α}
    (h : Chain b past (some a) rest) {x : α} (hx : x ∈ b.taken) : InTurn b.entered x a := by
  rcases List.mem_append.mp (h.taken x hx) with hpast | hfront
  · right
    have hxa : [x, a].Sublist (past ++ [a]) :=
      (List.singleton_sublist.mpr hpast).append_right [a]
    have hpre : (past ++ [a]).Sublist (past ++ ([a] ++ rest)) := by simp
    exact (hxa.trans hpre).trans h.entered
  · exact Or.inl (by simpa using hfront)

/-- Every move keeps the reader in turn. -/
theorem Orderly.act {b c : Buffer α} {e : Act α} (h : Orderly b) (hs : b.act e = some c) :
    Orderly c := by
  obtain ⟨past, front, rest, hchain⟩ := h.chain
  have hnext := hchain.act hs
  refine ⟨hnext, ?_⟩
  cases e with
  | arrive a | resolve a | clear | release =>
    cases hs
    exact h.taken
  | reject i | finish cleared =>
    obtain ⟨a, _, rfl⟩ := Option.map_eq_some_iff.mp hs
    exact h.taken
  | enter i =>
    obtain ⟨a, _, rfl⟩ := Option.map_eq_some_iff.mp hs
    exact h.taken.imp fun hxy => hxy.mono (List.sublist_append_left _ _)
  | take =>
    obtain ⟨a, _, rfl⟩ := Option.map_eq_some_iff.mp hs
    obtain ⟨past', front', rest', hchain'⟩ := hnext
    obtain rfl := hchain'.hand a rfl
    refine List.pairwise_append.mpr ⟨h.taken, List.pairwise_singleton _ a, ?_⟩
    intro x hx y hy
    rw [List.mem_singleton] at hy
    subst hy
    exact hchain'.inTurn (List.mem_append_left _ hx)

/-- Along every run items are taken and done in the order in which they entered. -/
theorem Orderly.of_reach {G : Buffer α → Act α → Prop} {b : Buffer α}
    (h : (machine α).Reach G {} b) : Orderly b :=
  h.invariant (fun _ _ _ hi _ hs => hi.act hs) Orderly.empty

/-- Items are done in the order of entry. -/
theorem Orderly.done_sublist {b : Buffer α} (h : Orderly b) : b.done.Sublist b.entered := by
  obtain ⟨past, front, rest, hchain⟩ := h.chain
  exact (hchain.done.trans (List.sublist_append_left _ _)).trans hchain.entered

/-! ## Entry in the order of arrival -/

section Kind

variable (p : α → Prop) [DecidablePred p]

/-- An item of the kind enters only when no earlier one of its kind is still waiting. -/
def InOrder (b : Buffer α) : Act α → Prop
  | .enter i => ∀ a, b.waiting[i]? = some a → p a → ∀ x ∈ b.waiting.take i, ¬ p x
  | _ => True

omit [DecidablePred p] in
theorem InOrder.lenient : Lenient (InOrder p) :=
  ⟨fun _ _ => trivial, fun _ => trivial, fun _ => trivial, fun _ => trivial, fun _ _ => trivial⟩

/-- The items of one kind that entered or wait, in the order of their arrival. -/
def Sorted (b : Buffer α) : Prop :=
  (b.entered.filter (p ·) ++ b.waiting.filter (p ·)).Sublist (b.arrived.filter (p ·))

variable {p}

/-- A list around one of its places. -/
theorem eq_take_append_of_getElem? {l : List α} {i : Nat} {a : α} (h : l[i]? = some a) :
    l = l.take i ++ a :: l.drop (i + 1) := by
  obtain ⟨hi, rfl⟩ := List.getElem?_eq_some_iff.mp h
  rw [← List.drop_eq_getElem_cons hi, List.take_append_drop]

/-- Removing one place of a list removes at most the item that stood there. -/
theorem eq_or_mem_eraseIdx {l : List α} {i : Nat} {a d : α} (h : l[i]? = some a) (hd : d ∈ l) :
    d = a ∨ d ∈ l.eraseIdx i := by
  rw [eq_take_append_of_getElem? h] at hd
  rw [List.eraseIdx_eq_take_drop_succ]
  simp only [List.mem_append, List.mem_cons] at hd ⊢
  tauto

/-- Every move but an early entry keeps one kind in the order of arrival. -/
theorem Sorted.act {b c : Buffer α} {e : Act α} (h : Sorted p b) (hg : InOrder p b e)
    (hs : b.act e = some c) : Sorted p c := by
  cases e with
  | arrive a =>
    cases hs
    simpa [Sorted] using h.append_right ([a].filter (p ·))
  | resolve a | clear | release =>
    cases hs
    exact h
  | finish cleared | take =>
    obtain ⟨a, _, rfl⟩ := Option.map_eq_some_iff.mp hs
    exact h
  | reject i =>
    obtain ⟨a, _, rfl⟩ := Option.map_eq_some_iff.mp hs
    exact (((List.eraseIdx_sublist _ _).filter _).append_left _).trans h
  | enter i =>
    obtain ⟨a, ha, rfl⟩ := Option.map_eq_some_iff.mp hs
    have hsplit := eq_take_append_of_getElem? ha
    have hsame : (b.entered ++ [a]).filter (p ·) ++ (b.waiting.eraseIdx i).filter (p ·) =
        b.entered.filter (p ·) ++ b.waiting.filter (p ·) := by
      rw [List.eraseIdx_eq_take_drop_succ]
      conv_rhs => rw [hsplit]
      by_cases hpa : p a
      · have hnone : (b.waiting.take i).filter (p ·) = [] := by
          simpa [List.filter_eq_nil_iff] using hg a ha hpa
        simp [hnone, hpa]
      · simp [hpa]
    unfold Sorted
    rw [hsame]
    exact h

/-- Without early entries one kind enters in the order of its arrival. -/
theorem Sorted.of_reach {b : Buffer α} (h : (machine α).Reach (InOrder p) {} b) : Sorted p b :=
  h.invariant (fun _ _ _ hi hg hs => hi.act hg hs) (by simp [Sorted])

end Kind

/-! ## No item left behind -/

section Before

variable (L : α → α → Prop)

/-- Items arrive in order and enter in order, none enters after an earlier one was lost
unresolved, and a resolved item is removed from the queue unless the queue is empty. -/
def Careful (b : Buffer α) : Act α → Prop
  | .arrive a => ∀ x ∈ b.arrived, ¬ L a x
  | .enter i => ∀ a, b.waiting[i]? = some a →
      (∀ x ∈ b.waiting.take i, ¬ L x a) ∧ ∀ x ∈ b.lost, L x a → x ∈ b.resolved
  | .finish _ => ∀ a, b.hand = some a → a ∈ b.resolved ∧ ∀ x, b.queue.head? = some x → x = a
  | _ => True

theorem Careful.lenient : Lenient (Careful L) :=
  ⟨fun _ _ => trivial, fun _ => trivial, fun _ => trivial, fun _ => trivial, fun _ _ => trivial⟩

/-- Everything before the item has been resolved. -/
def Cleared (b : Buffer α) (c : α) : Prop :=
  c ∈ b.arrived ∧ ∀ d ∈ b.arrived, L d c → d ∈ b.resolved

/-- Every unresolved item waits, is queued or is lost, and none before an item in hand or done
is unresolved. -/
structure Kept (b : Buffer α) : Prop where
  waiting_subset : b.waiting.Sublist b.arrived
  arrived : b.arrived.Pairwise fun x y => ¬ L y x
  cover : ∀ d ∈ b.arrived, d ∈ b.resolved ∨ d ∈ b.queue ∨ d ∈ b.waiting ∨ d ∈ b.lost
  queue_subset : ∀ c ∈ b.queue, c ∈ b.arrived
  queue : b.queue.Pairwise fun x y => ¬ L y x
  queue_waiting : ∀ c ∈ b.queue, ∀ d ∈ b.waiting, ¬ L d c
  queued : ∀ c ∈ b.queue, ∀ d ∈ b.arrived, L d c → d ∈ b.resolved ∨ d ∈ b.queue
  hand : ∀ a, b.hand = some a → Cleared L b a
  done : ∀ c ∈ b.done, Cleared L b c

variable {L}

theorem Kept.empty : Kept L ({} : Buffer α) :=
  ⟨by simp, .nil, nofun, nofun, .nil, nofun, nofun, nofun, nofun⟩

/-- A new item that is before no other leaves the cleared ones cleared. -/
theorem Cleared.arrive {b : Buffer α} {a c : α} (h : Cleared L b c)
    (ha : ∀ x ∈ b.arrived, ¬ L a x) :
    Cleared L { b with arrived := b.arrived ++ [a], waiting := b.waiting ++ [a] } c := by
  refine ⟨List.mem_append_left _ h.1, fun d hd hdc => ?_⟩
  rcases List.mem_append.mp hd with hd | hd
  · exact h.2 d hd hdc
  · rw [List.mem_singleton] at hd
    exact absurd hdc (hd ▸ ha c h.1)

/-- Further resolutions keep an item cleared. -/
theorem Cleared.resolve {b : Buffer α} {a c : α} (h : Cleared L b c) :
    Cleared L { b with resolved := b.resolved ++ [a] } c :=
  ⟨h.1, fun d hd hdc => List.mem_append_left _ (h.2 d hd hdc)⟩

/-- An item that arrives last waits behind everything. -/
theorem Kept.arrive {b : Buffer α} {a : α} (h : Kept L b)
    (ha : ∀ x ∈ b.arrived, ¬ L a x) :
    Kept L { b with arrived := b.arrived ++ [a], waiting := b.waiting ++ [a] } where
  waiting_subset := h.waiting_subset.append_right [a]
  arrived := by
    refine List.pairwise_append.mpr ⟨h.arrived, List.pairwise_singleton _ a, ?_⟩
    simpa using ha
  cover d hd := by
    rcases List.mem_append.mp hd with hd | hd
    · rcases h.cover d hd with hr | hq | hw | hl
      · exact Or.inl hr
      · exact Or.inr (Or.inl hq)
      · exact Or.inr (Or.inr (Or.inl (List.mem_append_left _ hw)))
      · exact Or.inr (Or.inr (Or.inr hl))
    · exact Or.inr (Or.inr (Or.inl (List.mem_append_right _ hd)))
  queue_subset c hc := List.mem_append_left _ (h.queue_subset c hc)
  queue := h.queue
  queue_waiting c hc d hd := by
    rcases List.mem_append.mp hd with hd | hd
    · exact h.queue_waiting c hc d hd
    · rw [List.mem_singleton] at hd
      exact hd ▸ ha c (h.queue_subset c hc)
  queued c hc d hd hdc := by
    rcases List.mem_append.mp hd with hd | hd
    · exact h.queued c hc d hd hdc
    · rw [List.mem_singleton] at hd
      exact absurd hdc (hd ▸ ha c (h.queue_subset c hc))
  hand c hc := (h.hand c hc).arrive ha
  done c hc := (h.done c hc).arrive ha

/-- An item that is rejected is lost. -/
theorem Kept.reject {b : Buffer α} {i : Nat} {a : α} (h : Kept L b)
    (ha : b.waiting[i]? = some a) :
    Kept L { b with waiting := b.waiting.eraseIdx i, lost := b.lost ++ [a] } where
  waiting_subset := (List.eraseIdx_sublist _ _).trans h.waiting_subset
  arrived := h.arrived
  cover d hd := by
    rcases h.cover d hd with hr | hq | hw | hl
    · exact Or.inl hr
    · exact Or.inr (Or.inl hq)
    · rcases eq_or_mem_eraseIdx ha hw with rfl | hw
      · exact Or.inr (Or.inr (Or.inr (List.mem_append_right _ (List.mem_singleton_self _))))
      · exact Or.inr (Or.inr (Or.inl hw))
    · exact Or.inr (Or.inr (Or.inr (List.mem_append_left _ hl)))
  queue_subset := h.queue_subset
  queue := h.queue
  queue_waiting c hc d hd := h.queue_waiting c hc d (List.mem_of_mem_eraseIdx hd)
  queued := h.queued
  hand := h.hand
  done := h.done

/-- Where no earlier waiting item is before an item, no waiting one is: the later ones arrived
later. -/
theorem Kept.first_waiting {b : Buffer α} {i : Nat} {a : α} (h : Kept L b) (hirr : ¬ L a a)
    (ha : b.waiting[i]? = some a) (hfirst : ∀ x ∈ b.waiting.take i, ¬ L x a) :
    ∀ d ∈ b.waiting, ¬ L d a := by
  intro d hd
  have hpair := h.arrived.sublist h.waiting_subset
  rw [eq_take_append_of_getElem? ha] at hd hpair
  rcases List.mem_append.mp hd with hd | hd
  · exact hfirst d hd
  · rcases List.mem_cons.mp hd with rfl | hd
    · exact hirr
    · exact (List.pairwise_cons.mp (List.pairwise_append.mp hpair).2.1).1 d hd

/-- An item that enters in order stands behind those queued. -/
theorem Kept.enter {b : Buffer α} {i : Nat} {a : α} (h : Kept L b) (hirr : ¬ L a a)
    (ha : b.waiting[i]? = some a) (hfirst : ∀ x ∈ b.waiting.take i, ¬ L x a)
    (hlost : ∀ x ∈ b.lost, L x a → x ∈ b.resolved) :
    Kept L { b with
      waiting := b.waiting.eraseIdx i, entered := b.entered ++ [a], queue := b.queue ++ [a] } := by
  have hmem : a ∈ b.waiting := List.mem_of_getElem? ha
  have hrest := h.first_waiting hirr ha hfirst
  exact {
    waiting_subset := (List.eraseIdx_sublist _ _).trans h.waiting_subset
    arrived := h.arrived
    cover := by
      intro d hd
      have hd' := h.cover d hd
      have hw : d ∈ b.waiting → _ := eq_or_mem_eraseIdx ha
      simp only [List.mem_append, List.mem_singleton]
      tauto
    queue_subset := by
      intro c hc
      rcases List.mem_append.mp hc with hc | hc
      · exact h.queue_subset c hc
      · rw [List.mem_singleton.mp hc]
        exact h.waiting_subset.subset hmem
    queue := by
      refine List.pairwise_append.mpr ⟨h.queue, List.pairwise_singleton _ a, ?_⟩
      intro x hx y hy
      rw [List.mem_singleton.mp hy]
      exact h.queue_waiting x hx a hmem
    queue_waiting := by
      intro c hc d hd
      have hd' := List.mem_of_mem_eraseIdx hd
      rcases List.mem_append.mp hc with hc | hc
      · exact h.queue_waiting c hc d hd'
      · rw [List.mem_singleton.mp hc]
        exact hrest d hd'
    queued := by
      intro c hc d hd hdc
      rcases List.mem_append.mp hc with hc | hc
      · exact (h.queued c hc d hd hdc).imp_right (List.mem_append_left _)
      · rw [List.mem_singleton.mp hc] at hdc
        rcases h.cover d hd with hr | hq | hw | hl
        · exact Or.inl hr
        · exact Or.inr (List.mem_append_left _ hq)
        · exact absurd hdc (hrest d hw)
        · exact Or.inl (hlost d hl hdc)
    hand := h.hand
    done := h.done }

/-- At the front of the queue stands an item before which everything is resolved. -/
theorem Kept.cleared_head {b : Buffer α} {a : α} (h : Kept L b) (hirr : ¬ L a a)
    (ha : b.queue.head? = some a) : Cleared L b a := by
  obtain ⟨queue, hqueue⟩ := List.head?_eq_some_iff.mp ha
  have hmem : a ∈ b.queue := List.mem_of_mem_head? ha
  refine ⟨h.queue_subset a hmem, fun d hd hda => ?_⟩
  rcases h.queued a hmem d hd hda with hr | hq
  · exact hr
  · have hpair := h.queue
    rw [hqueue] at hq hpair
    rcases List.mem_cons.mp hq with rfl | hq
    · exact absurd hda hirr
    · exact absurd hda ((List.pairwise_cons.mp hpair).1 d hq)

/-- The queue may be cleared at any time. -/
theorem Kept.clear {b : Buffer α} (h : Kept L b) :
    Kept L { b with queue := [], lost := b.lost ++ b.queue } where
  waiting_subset := h.waiting_subset
  arrived := h.arrived
  cover d hd := by
    have hd' := h.cover d hd
    simp only [List.mem_append, List.not_mem_nil]
    tauto
  queue_subset := nofun
  queue := .nil
  queue_waiting := nofun
  queued := nofun
  hand := h.hand
  done := h.done

/-- Removing a resolved front leaves no unresolved item behind. -/
theorem Kept.tail {b : Buffer α} (h : Kept L b)
    (hres : ∀ x, b.queue.head? = some x → x ∈ b.resolved) :
    Kept L { b with queue := b.queue.tail } := by
  cases hqueue : b.queue with
  | nil =>
    have hsame : { b with queue := [] } = b := by
      cases b
      cases hqueue
      rfl
    exact hsame ▸ h
  | cons x queue =>
    have hx : x ∈ b.resolved := hres x (by simp [hqueue])
    have hsub : ∀ c ∈ queue, c ∈ b.queue := by
      intro c hc
      simp [hqueue, hc]
    have hcase : ∀ d ∈ b.queue, d ∈ b.resolved ∨ d ∈ queue := by
      intro d hd
      rw [hqueue] at hd
      rcases List.mem_cons.mp hd with rfl | hd
      · exact Or.inl hx
      · exact Or.inr hd
    exact {
      waiting_subset := h.waiting_subset
      arrived := h.arrived
      cover := by
        intro d hd
        have hd' := h.cover d hd
        have hq := hcase d
        simp only [List.tail_cons]
        tauto
      queue_subset := fun c hc => h.queue_subset c (hsub c hc)
      queue := by
        have hpair := h.queue
        rw [hqueue] at hpair
        exact (List.pairwise_cons.mp hpair).2
      queue_waiting := fun c hc => h.queue_waiting c (hsub c hc)
      queued := by
        intro c hc d hd hdc
        rcases h.queued c (hsub c hc) d hd hdc with hr | hq
        · exact Or.inl hr
        · exact hcase d hq
      hand := h.hand
      done := h.done }

/-- The reader may hold a cleared item or none, and be done with cleared ones. -/
theorem Kept.hold {b : Buffer α} (h : Kept L b) {hand : Option α} {taken done : List α}
    (hhand : ∀ a, hand = some a → Cleared L b a) (hdone : ∀ c ∈ done, Cleared L b c) :
    Kept L { b with hand := hand, taken := taken, done := done } :=
  ⟨h.waiting_subset, h.arrived, h.cover, h.queue_subset, h.queue, h.queue_waiting, h.queued,
    hhand, hdone⟩

/-- A resolution takes an item out of consideration. -/
theorem Kept.resolve {b : Buffer α} (h : Kept L b) (a : α) :
    Kept L { b with resolved := b.resolved ++ [a] } where
  waiting_subset := h.waiting_subset
  arrived := h.arrived
  cover d hd := (h.cover d hd).imp_left (List.mem_append_left _)
  queue_subset := h.queue_subset
  queue := h.queue
  queue_waiting := h.queue_waiting
  queued c hc d hd hdc := (h.queued c hc d hd hdc).imp_left (List.mem_append_left _)
  hand c hc := (h.hand c hc).resolve
  done c hc := (h.done c hc).resolve

/-- Every careful move keeps the items accounted for. -/
theorem Kept.act {b c : Buffer α} {e : Act α} (hirr : ∀ a, ¬ L a a) (h : Kept L b)
    (hg : Careful L b e) (hs : b.act e = some c) : Kept L c := by
  cases e with
  | arrive a =>
    cases hs
    exact h.arrive hg
  | reject i =>
    obtain ⟨a, ha, rfl⟩ := Option.map_eq_some_iff.mp hs
    exact h.reject ha
  | enter i =>
    obtain ⟨a, ha, rfl⟩ := Option.map_eq_some_iff.mp hs
    obtain ⟨hfirst, hlost⟩ := hg a ha
    exact h.enter (hirr a) ha hfirst hlost
  | clear =>
    cases hs
    exact h.clear
  | take =>
    obtain ⟨a, ha, rfl⟩ := Option.map_eq_some_iff.mp hs
    refine h.hold (fun x hx => ?_) h.done
    obtain rfl : a = x := Option.some.inj hx
    exact h.cleared_head (hirr a) ha
  | release =>
    cases hs
    exact h.hold nofun h.done
  | resolve a =>
    cases hs
    exact h.resolve a
  | finish cleared =>
    obtain ⟨a, ha, rfl⟩ := Option.map_eq_some_iff.mp hs
    obtain ⟨hres, hfront⟩ := hg a ha
    have hdone : ∀ x ∈ b.done ++ [a], Cleared L b x := by
      intro x hx
      rcases List.mem_append.mp hx with hx | hx
      · exact h.done x hx
      · rw [List.mem_singleton.mp hx]
        exact h.hand a ha
    cases cleared
    · exact (h.tail fun x hx => hfront x hx ▸ hres).hold nofun hdone
    · exact h.clear.hold nofun hdone

/-- Along every careful run nothing before a done item is left unresolved. -/
theorem Kept.of_reach {b : Buffer α} (hirr : ∀ a, ¬ L a a)
    (h : (machine α).Reach (Careful L) {} b) : Kept L b :=
  h.invariant (fun _ _ _ hi hg hs => hi.act hirr hg hs) Kept.empty

end Before

end Buffer

end ChainIndexer
