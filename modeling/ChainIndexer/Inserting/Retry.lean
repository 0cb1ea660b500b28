import ChainIndexer.Inserting.State

/-!
# Retrying an insertion

`add` makes two calls without a transaction. A failed `create` leaves the store as it
was, and the next attempt starts afresh. A failed `deleteMany` leaves the block behind,
and the unique index refuses every later attempt to create it.
-/

namespace ChainIndexer.Inserting

open Producer (ProducedBlock Store Config Insertion Phase)

variable {maxReOrgDepth : Nat} {details : ProducedBlock} {store : Store}

/-- Which calls of an attempt fail, other than for a duplicate. -/
structure Attempt where
  create : Bool
  deleteMany : Bool
  deriving DecidableEq, Repr

/-- `add`, with what the database does to its calls: whether it returns, and the store. -/
def attempt (maxReOrgDepth : Nat) (details : ProducedBlock) (fails : Attempt) (store : Store) :
    Bool × Store :=
  match if fails.create then none else store.create details with
  | none => (false, store)
  | some created =>
    if fails.deleteMany then (false, created)
    else (true, created.deleteMany maxReOrgDepth details)

/-- `addBlockToMongo` with the retries that are left: whether it returns, and the store. -/
def addBlockToMongo (maxReOrgDepth : Nat) (details : ProducedBlock) :
    Nat → (Nat → Attempt) → Store → Bool × Store
  | 0, attempts, store => attempt maxReOrgDepth details (attempts 0) store
  | retries + 1, attempts, store =>
    match attempt maxReOrgDepth details (attempts 0) store with
    | (true, result) => (true, result)
    | (false, result) =>
      addBlockToMongo maxReOrgDepth details retries (fun k => attempts (k + 1)) result

/-- The retries of a call from outside: `retryCount` goes up to four. -/
def maxRetryCount : Nat := 4

/-- An attempt meets a failure of the database; a duplicate is none. -/
def Meets (details : ProducedBlock) (fails : Attempt) (store : Store) : Prop :=
  fails.create = true ∨ ¬ store.Has details.number ∧ fails.deleteMany = true

instance (fails : Attempt) : Decidable (Meets details fails store) :=
  inferInstanceAs (Decidable (_ ∨ _))

/-- How many attempts meet a failure. -/
def failures (maxReOrgDepth : Nat) (details : ProducedBlock) :
    Nat → (Nat → Attempt) → Store → Nat
  | 0, attempts, store => if Meets details (attempts 0) store then 1 else 0
  | retries + 1, attempts, store =>
    (if Meets details (attempts 0) store then 1 else 0) +
      match attempt maxReOrgDepth details (attempts 0) store with
      | (true, _) => 0
      | (false, result) =>
        failures maxReOrgDepth details retries (fun k => attempts (k + 1)) result

/-- `addBlockToMongo` has done what it does without a failure. -/
structure Converged (maxReOrgDepth : Nat) (details : ProducedBlock) (store : Store)
    (result : Bool × Store) : Prop where
  returns : result.1 = true
  same : result = attempt maxReOrgDepth details ⟨false, false⟩ store
  present : details ∈ result.2.blocks
  pruned : ∀ block ∈ result.2.blocks,
    details.number ≤ block.number + maxReOrgDepth ∧ block.number ≤ details.number

/-- The first attempt whose `create` does not fail has a `deleteMany` that does not fail. -/
def DeletesFirst (retries : Nat) (attempts : Nat → Attempt) : Prop :=
  ∀ k ≤ retries, (∀ i < k, (attempts i).create = true) → (attempts k).create = false →
    (attempts k).deleteMany = false

/-- Without the write, the attempt changes nothing. -/
theorem attempt_create_fails {fails : Attempt} (h : fails.create = true) :
    attempt maxReOrgDepth details fails store = (false, store) := by
  rw [attempt, if_pos h]

/-- A stored number refuses every attempt. -/
theorem attempt_duplicate {fails : Attempt} (h : store.Has details.number) :
    attempt maxReOrgDepth details fails store = (false, store) := by
  unfold attempt
  rw [Store.create_eq_none_iff.mpr h, ite_self]

/-- A new number is created, and the rest depends on the second call. -/
theorem attempt_creates (maxReOrgDepth : Nat) (fails : Attempt) (hnew : ¬ store.Has details.number)
    (h : fails.create = false) : ∃ created, store.create details = some created ∧
      attempt maxReOrgDepth details fails store =
        if fails.deleteMany then (false, created)
        else (true, created.deleteMany maxReOrgDepth details) := by
  obtain ⟨created, hcreate⟩ := Option.ne_none_iff_exists'.mp (mt Store.create_eq_none_iff.mp hnew)
  refine ⟨created, hcreate, ?_⟩
  rw [attempt, if_neg (by simp [h]), hcreate]

private theorem has_of_create {created : Store} (h : store.create details = some created) :
    created.Has details.number :=
  ⟨details, (Store.mem_create h).mpr (Or.inr rfl), rfl⟩

/-- Once the number is stored, all the attempts are used up. -/
theorem addBlockToMongo_duplicate (h : store.Has details.number) (retries : Nat)
    (attempts : Nat → Attempt) :
    addBlockToMongo maxReOrgDepth details retries attempts store = (false, store) := by
  induction retries generalizing attempts with
  | zero => exact attempt_duplicate h
  | succ retries ih =>
    rw [addBlockToMongo, attempt_duplicate h]
    exact ih _

private theorem deletesFirst_fails {retries : Nat} {attempts : Nat → Attempt}
    (h : (attempts 0).create = true) :
    DeletesFirst (retries + 1) attempts ↔ DeletesFirst retries fun k => attempts (k + 1) := by
  constructor
  · intro hfirst k hk hbefore hcreate
    refine hfirst (k + 1) (Nat.succ_le_succ hk) (fun i hi => ?_) hcreate
    rcases i with _ | i
    · exact h
    · exact hbefore i (Nat.lt_of_succ_lt_succ hi)
  · intro hfirst k hk hbefore hcreate
    rcases k with _ | k
    · rw [h] at hcreate
      cases hcreate
    · exact hfirst k (Nat.le_of_succ_le_succ hk)
        (fun i hi => hbefore (i + 1) (Nat.succ_lt_succ hi)) hcreate

/-- An attempt that writes deletes first if its deletion works. -/
theorem deletesFirst_creates {retries : Nat} {attempts : Nat → Attempt}
    (h : (attempts 0).create = false) :
    DeletesFirst retries attempts ↔ (attempts 0).deleteMany = false := by
  constructor
  · intro hfirst
    exact hfirst 0 (Nat.zero_le _) nofun h
  · intro hdeletes k hk hbefore _
    rcases k with _ | k
    · exact hdeletes
    · have hfails := hbefore 0 (Nat.succ_pos k)
      rw [h] at hfails
      cases hfails

/-- With an attempt left that meets no failure, all depends on the first `deleteMany`. -/
theorem addBlockToMongo_eq_iff (hnew : ¬ store.Has details.number) {retries : Nat}
    {attempts : Nat → Attempt}
    (hfew : failures maxReOrgDepth details retries attempts store ≤ retries) :
    addBlockToMongo maxReOrgDepth details retries attempts store =
        attempt maxReOrgDepth details ⟨false, false⟩ store ↔
      DeletesFirst retries attempts := by
  obtain ⟨created, hcreate, hfree⟩ :=
    attempt_creates maxReOrgDepth ⟨false, false⟩ hnew rfl
  rw [if_neg Bool.false_ne_true] at hfree
  induction retries generalizing attempts with
  | zero =>
    rw [failures] at hfew
    split at hfew
    · omega
    · rename_i hmeets
      obtain ⟨hcreates, hdeletes⟩ := not_or.mp hmeets
      rw [Bool.not_eq_true] at hcreates
      have hdeletes' : (attempts 0).deleteMany = false := by
        rw [← Bool.not_eq_true]
        exact fun hfails => hdeletes ⟨hnew, hfails⟩
      have heq : attempts 0 = ⟨false, false⟩ := by
        change Attempt.mk (attempts 0).create (attempts 0).deleteMany = _
        rw [hcreates, hdeletes']
      rw [deletesFirst_creates hcreates]
      exact iff_of_true (by rw [addBlockToMongo, heq]) hdeletes'
  | succ retries ih =>
    rw [failures] at hfew
    rw [addBlockToMongo]
    cases hcreates : (attempts 0).create with
    | true =>
      have hmeets : Meets details (attempts 0) store := Or.inl hcreates
      rw [attempt_create_fails hcreates, if_pos hmeets] at hfew
      rw [attempt_create_fails hcreates, deletesFirst_fails hcreates]
      dsimp only at hfew ⊢
      exact ih (by omega)
    | false =>
      obtain ⟨other, hother, hattempt⟩ :=
        attempt_creates maxReOrgDepth _ hnew hcreates
      obtain rfl := Option.some.inj (hother.symm.trans hcreate)
      rw [deletesFirst_creates hcreates]
      cases hdeletes : (attempts 0).deleteMany with
      | true =>
        rw [hdeletes, if_pos rfl] at hattempt
        rw [hattempt, hfree]
        refine iff_of_false ?_ fun hdeleted => by cases hdeleted
        dsimp only
        rw [addBlockToMongo_duplicate (has_of_create hcreate)]
        exact fun heq => Bool.false_ne_true (congrArg Prod.fst heq)
      | false =>
        rw [hdeletes, if_neg Bool.false_ne_true] at hattempt
        rw [hattempt, hfree]
        exact iff_of_true rfl rfl

/-- What an insertion without a failure leaves. -/
theorem attempt_converged (hnew : ¬ store.Has details.number) :
    Converged maxReOrgDepth details store
      (attempt maxReOrgDepth details ⟨false, false⟩ store) := by
  obtain ⟨created, hcreate, hfree⟩ :=
    attempt_creates maxReOrgDepth ⟨false, false⟩ hnew rfl
  rw [if_neg Bool.false_ne_true] at hfree
  constructor
  · rw [hfree]
  · rfl
  · rw [hfree]
    refine Store.mem_deleteMany.mpr ⟨(Store.mem_create hcreate).mpr (Or.inr rfl), ?_⟩
    rw [Store.Deletes]
    omega
  · intro block hblock
    rw [hfree] at hblock
    obtain ⟨_, hkeep⟩ := Store.mem_deleteMany.mp hblock
    rw [Store.Deletes] at hkeep
    omega

/-- With at most four attempts that meet a failure, inserting a new number ends as without a
failure exactly where no `deleteMany` fails after a `create`. -/
theorem converges_iff {attempts : Nat → Attempt} (hnew : ¬ store.Has details.number)
    (hfew : failures maxReOrgDepth details maxRetryCount attempts store ≤ 4) :
    Converged maxReOrgDepth details store
        (addBlockToMongo maxReOrgDepth details maxRetryCount attempts store) ↔
      DeletesFirst maxRetryCount attempts := by
  rw [← addBlockToMongo_eq_iff hnew hfew]
  constructor
  · exact Converged.same
  · intro heq
    rw [heq]
    exact attempt_converged hnew

/-- The only activation goes on with the result of its `addBlockToMongo`. -/
def returned (cfg : Config) (s : State) (result : Bool × Store) : State :=
  if result.1 then runQueue cfg { s with store := result.2 } 0
  else { s with store := result.2, mongoInsertInProcess := false, activations := [] }

/-- The head of the loop forgets the call it was suspended in. -/
theorem runQueue_only (cfg : Config) (s : State) (insertion other : Insertion) :
    runQueue cfg { s with activations := [insertion] } 0 =
      runQueue cfg { s with activations := [other] } 0 := by
  unfold runQueue
  dsimp only
  split <;> rfl

private theorem returned_only (cfg : Config) (s : State) (insertion other : Insertion)
    (result : Bool × Store) :
    returned cfg { s with activations := [insertion] } result =
      returned cfg { s with activations := [other] } result := by
  unfold returned
  split
  · exact runQueue_only cfg { s with store := result.2 } insertion other
  · rfl

/-- An attempt in the machine: the activation goes on, or the attempt is over. -/
theorem attempt_reach (cfg : Config) (details : ProducedBlock) (s : State) (retryCount : Nat)
    (fails : Attempt) :
    (machine cfg).Reach Machine.Free { s with activations := [⟨details, retryCount, .create⟩] }
      (match attempt cfg.maxReOrgDepth details fails s.store with
      | (true, result) => runQueue cfg { s with
          store := result, activations := [⟨details, retryCount, .create⟩] } 0
      | (false, result) => retry { s with
          store := result, activations := [⟨details, retryCount, .create⟩] } 0
          ⟨details, retryCount, .create⟩) := by
  unfold attempt
  cases hc : if fails.create then none else s.store.create details with
  | none =>
    refine .single (e := .created 0 fails.create) trivial ?_
    simp only [machine, step, created, List.getElem?_cons_zero, hc]
  | some store =>
    refine .trans (t := { s with
        store := store, activations := [⟨details, retryCount, .deleteMany⟩] })
      (.single (e := .created 0 fails.create) trivial ?_)
      (.single (e := .deleted 0 fails.deleteMany) trivial ?_)
    · simp only [machine, step, created, List.getElem?_cons_zero, hc, List.set_cons_zero]
    · cases hd : fails.deleteMany with
      | true => rfl
      | false =>
        refine congrArg some ?_
        rw [if_neg Bool.false_ne_true]
        exact runQueue_only cfg { s with store := store.deleteMany cfg.maxReOrgDepth details } _ _

/-- The machine, with one activation, does what `addBlockToMongo` does. -/
theorem addBlockToMongo_reach (cfg : Config) (s : State) {retries retryCount : Nat}
    (attempts : Nat → Attempt) (hcount : retryCount + retries = maxRetryCount) :
    (machine cfg).Reach Machine.Free { s with activations := [⟨details, retryCount, .create⟩] }
      (returned cfg { s with activations := [⟨details, retryCount, .create⟩] }
        (addBlockToMongo cfg.maxReOrgDepth details retries attempts s.store)) := by
  induction retries generalizing retryCount attempts s with
  | zero =>
    have hlast := attempt_reach cfg details s retryCount (attempts 0)
    rw [addBlockToMongo]
    generalize attempt cfg.maxReOrgDepth details (attempts 0) s.store = result at hlast ⊢
    obtain ⟨returns, store⟩ := result
    cases returns with
    | true => exact hlast
    | false =>
      have hover : ¬ retryCount < 4 := by
        rw [maxRetryCount] at hcount
        omega
      simpa [retry, hover, returned] using hlast
  | succ retries ih =>
    have hfirst := attempt_reach cfg details s retryCount (attempts 0)
    rw [addBlockToMongo]
    generalize attempt cfg.maxReOrgDepth details (attempts 0) s.store = result at hfirst ⊢
    obtain ⟨returns, store⟩ := result
    cases returns with
    | true => exact hfirst
    | false =>
      have hleft : retryCount < 4 := by
        rw [maxRetryCount] at hcount
        omega
      have hagain : retry { s with
            store := store, activations := [⟨details, retryCount, .create⟩] } 0
            ⟨details, retryCount, .create⟩ = { s with
          store := store, activations := [⟨details, retryCount + 1, .create⟩] } := if_pos hleft
      dsimp only at hfirst ⊢
      rw [hagain] at hfirst
      refine hfirst.trans ?_
      have hmore : retryCount + 1 + retries = maxRetryCount := by omega
      have hrest := ih { s with store := store } (fun k => attempts (k + 1)) hmore
      exact returned_only cfg { s with store := store } _ _ _ ▸ hrest

/-- Block 5 is stored. -/
def storedFive : Store := ⟨[⟨5, "0x5"⟩], by decide⟩

/-- Only the first `deleteMany` fails. -/
def deleteFails (k : Nat) : Attempt := ⟨false, decide (k = 0)⟩

/-- One failure uses up all the attempts, and block 5 stays. -/
theorem deleteFails_stuck :
    failures 2 ⟨10, "0xa"⟩ maxRetryCount deleteFails storedFive = 1 ∧
      (addBlockToMongo 2 ⟨10, "0xa"⟩ maxRetryCount deleteFails storedFive).1 = false ∧
      (addBlockToMongo 2 ⟨10, "0xa"⟩ maxRetryCount deleteFails storedFive).2.blocks =
        [⟨5, "0x5"⟩, ⟨10, "0xa"⟩] ∧
      ¬ Converged 2 ⟨10, "0xa"⟩ storedFive
        (addBlockToMongo 2 ⟨10, "0xa"⟩ maxRetryCount deleteFails storedFive) := by
  refine ⟨by decide, by decide, by decide, fun h => ?_⟩
  exact absurd h.returns (by decide)

/-- The first four calls of `create` fail. -/
def createFails (k : Nat) : Attempt := ⟨decide (k < 4), false⟩

/-- After these failures the block is stored all the same. -/
theorem createFails_converged :
    Converged 2 ⟨10, "0xa"⟩ storedFive
      (addBlockToMongo 2 ⟨10, "0xa"⟩ maxRetryCount createFails storedFive) :=
  (converges_iff (by decide) (by decide)).mpr fun _ _ _ _ => rfl

end ChainIndexer.Inserting
