import ChainIndexer.Queue.State

/-!
# The queue is a list

The keys of the entries always run from the head to the tail, so the methods answer as a
first-in first-out list does, and nothing is stored that is not in the list.
-/

namespace ChainIndexer.Queue

universe u

variable {α : Type u} {q : Queue α} {l : List α}

/-! ## The list -/

/-- The first item of a list, or `null`. -/
def firstOf : List α → Fetched α
  | [] => .null
  | a :: _ => .item a

@[simp] theorem firstOf_cons (a : α) (l : List α) : firstOf (a :: l) = .item a := rfl

/-- A list with the methods of the queue; the items skipped by `shiftByN` are dropped with the one
it returns. -/
def listCall : Transducer (List α) (Operation α) (Result α)
  | l, .enqueue item => (.void, l ++ [item])
  | l, .shift => (.fetched (firstOf l), l.tail)
  | l, .shiftByN position =>
    if l.length < position then (.fetched .null, l)
    else (.fetched (firstOf (l.drop (position.toNat - 1))), l.drop position.toNat)
  | l, .front => (.fetched (firstOf l), l)
  | l, .isEmpty => (.boolean l.isEmpty, l)
  | l, .getLength => (.number l.length, l)
  | _, .clear => (.number 0, [])

/-- A position is asked for from one on. -/
def Operation.Positive : Operation α → Prop
  | .shiftByN position => 1 ≤ position
  | .enqueue _ | .shift | .front | .isEmpty | .getLength | .clear => True

instance : (operation : Operation α) → Decidable operation.Positive
  | .shiftByN position => inferInstanceAs (Decidable (1 ≤ position))
  | .enqueue _ | .shift | .front | .isEmpty | .getLength | .clear => .isTrue trivial

/-! ## Consecutive keys -/

/-- The items of a list under consecutive keys. -/
def entriesFrom (head : Int) : List α → List (Int × α)
  | [] => []
  | a :: l => (head, a) :: entriesFrom (head + 1) l

/-- The consecutive numbers from this one on. -/
def keysFrom (head : Int) : Nat → List Int
  | 0 => []
  | count + 1 => head :: keysFrom (head + 1) count

/-- The keys are those from the head on. -/
theorem mem_keysFrom {head key : Int} {count : Nat} :
    key ∈ keysFrom head count ↔ head ≤ key ∧ key < head + count := by
  induction count generalizing head with
  | zero =>
    simp only [keysFrom, List.not_mem_nil, false_iff]
    omega
  | succ count ih =>
    rw [keysFrom, List.mem_cons, ih]
    omega

/-- Each entry has its key. -/
@[simp] theorem map_fst_entriesFrom (head : Int) (l : List α) :
    (entriesFrom head l).map Prod.fst = keysFrom head l.length := by
  induction l generalizing head with
  | nil => rfl
  | cons a l ih => simp [entriesFrom, keysFrom, ih]

private theorem entriesFrom_snoc (head : Int) (l : List α) (a : α) :
    entriesFrom head (l ++ [a]) = entriesFrom head l ++ [(head + l.length, a)] := by
  induction l generalizing head with
  | nil => simp [entriesFrom]
  | cons b l ih =>
    have hlast : head + 1 + (l.length : Int) = head + ((b :: l).length : Int) := by
      rw [List.length_cons]
      omega
    simp [entriesFrom, ih, hlast]

/-- No key is below the head. -/
theorem le_of_mem_entriesFrom {head : Int} {entry : Int × α} (h : entry ∈ entriesFrom head l) :
    head ≤ entry.1 := by
  have hkey : entry.1 ∈ keysFrom head l.length := by
    rw [← map_fst_entriesFrom]
    exact List.mem_map_of_mem h
  exact (mem_keysFrom.mp hkey).1

/-- Without its first keys, a list of consecutive entries starts later. -/
theorem filter_entriesFrom (head : Int) (n : Nat) (l : List α) :
    (entriesFrom head l).filter (fun entry => !decide (entry.1 ≤ head + n - 1)) =
      entriesFrom (head + n) (l.drop n) := by
  induction n generalizing head l with
  | zero =>
    have hkeep :
        ∀ entry ∈ entriesFrom head l, (!decide (entry.1 ≤ head + (0 : Nat) - 1)) = true := by
      intro entry hentry
      have hle := le_of_mem_entriesFrom hentry
      simp only [Bool.not_eq_true', decide_eq_false_iff_not]
      omega
    rw [List.filter_eq_self.mpr hkeep, List.drop_zero, Int.natCast_zero, Int.add_zero]
  | succ n ih =>
    cases l with
    | nil => rfl
    | cons a l =>
      have hshift : head + ((n + 1 : Nat) : Int) = head + 1 + n := by omega
      have hfirst : head ≤ head + 1 + n - 1 := by omega
      rw [hshift, entriesFrom, List.filter_cons_of_neg (by simpa using hfirst), ih,
        List.drop_succ_cons]

/-- The entry in a place. -/
theorem find?_entriesFrom (head : Int) (n : Nat) (l : List α) :
    ((entriesFrom head l).find? fun entry => entry.1 = head + n).map Prod.snd = l[n]? := by
  induction l generalizing head n with
  | nil => rfl
  | cons a l ih =>
    cases n with
    | zero => simp [entriesFrom]
    | succ n =>
      have hshift : head + ((n + 1 : Nat) : Int) = head + 1 + n := by omega
      have hfirst : ¬ head = head + 1 + n := by omega
      rw [hshift, entriesFrom, List.find?_cons_of_neg (by simpa using hfirst), ih]
      rfl

/-! ## What the queue holds -/

/-- The entries are the items of a list, under the keys from the head to the tail. -/
structure Holds (q : Queue α) (l : List α) : Prop where
  entries : q.items.entries = entriesFrom q.head l
  tail : q.tail = q.head + l.length

theorem Holds.new : Holds (Queue.new : Queue α) [] := ⟨rfl, rfl⟩

/-- The keys are those from the head on, one for each item. -/
theorem Holds.keys (h : Holds q l) : q.items.keys = keysFrom q.head l.length := by
  rw [Record.keys, h.entries, map_fst_entriesFrom]

/-- The length is that of the list. -/
theorem Holds.getLength (h : Holds q l) : q.getLength = l.length := by
  rw [Queue.getLength, h.tail]
  omega

/-- It is empty if the list is. -/
theorem Holds.isEmpty (h : Holds q l) : q.isEmpty = l.isEmpty := by
  rw [Queue.isEmpty, h.getLength]
  cases l with
  | nil => rfl
  | cons a l => simp; omega

/-- The item in a place. -/
theorem Holds.fetch (h : Holds q l) {n : Nat} {a : α} (ha : l[n]? = some a) :
    q.fetch (q.head + n) = .item a := by
  rw [Queue.fetch, Record.get, h.entries, find?_entriesFrom, ha]

/-- An item is enqueued at the end of the list. -/
theorem Holds.enqueue (h : Holds q l) (a : α) : Holds (q.enqueue a) (l ++ [a]) := by
  have hnew : q.tail ∉ q.items.keys := by
    rw [h.keys, mem_keysFrom, h.tail]
    omega
  constructor
  · rw [Queue.enqueue, Record.entries_set hnew, h.entries, entriesFrom_snoc, h.tail]
  · simp only [Queue.enqueue, h.tail, List.length_append, List.length_singleton]
    omega

/-- An empty queue gives `null` and stays as it is. -/
theorem Holds.shift_nil (h : Holds q []) : q.shift = (.null, q) := by
  have hempty : q.isEmpty = true := h.isEmpty
  rw [Queue.shift, if_pos hempty]

/-- `shift` takes the first item. -/
theorem Holds.shift_cons {a : α} (h : Holds q (a :: l)) :
    q.shift.1 = .item a ∧ Holds q.shift.2 l := by
  have hnonempty : ¬ q.isEmpty = true := by simp [h.isEmpty]
  rw [Queue.shift, if_neg hnonempty]
  refine ⟨by simpa using h.fetch (n := 0) rfl, ?_, ?_⟩
  · have hkeep : ∀ entry ∈ entriesFrom (q.head + 1) l, decide (entry.1 ≠ q.head) = true := by
      intro entry hentry
      have hle := le_of_mem_entriesFrom hentry
      rw [decide_eq_true_eq]
      omega
    rw [Record.entries_delete, h.entries, entriesFrom, List.filter_cons_of_neg (by simp),
      List.filter_eq_self.mpr hkeep]
  · simp only [h.tail, List.length_cons]
    omega

/-- `shiftByN` takes the item in its place, and drops what is before it. -/
theorem Holds.shiftByN (h : Holds q l) {n : Nat} (hn : n < l.length) :
    (q.shiftByN (n + 1)).1 = .item l[n] ∧ Holds (q.shiftByN (n + 1)).2 (l.drop (n + 1)) := by
  have hlong : ¬ (q.getLength < n + 1 ∧ ((n : Int) + 1) ≠ 0) := by
    rw [h.getLength]
    omega
  have hplace : q.head + ((n : Int) + 1) - 1 = q.head + n := by omega
  rw [Queue.shiftByN, if_neg hlong]
  refine ⟨?_, ?_, ?_⟩
  · simpa only [hplace] using h.fetch (List.getElem?_eq_getElem hn)
  · have hfilter := filter_entriesFrom q.head (n + 1) l
    have hnext : q.head + ((n + 1 : Nat) : Int) = q.head + n + 1 := by omega
    have hlast : q.head + ((n + 1 : Nat) : Int) - 1 = q.head + n := by omega
    rw [hlast, hnext] at hfilter
    simp only [Record.foldl_delete_keys, Record.entries_keep, h.entries, hfilter, hplace]
  · simp only [h.tail, List.length_drop, hplace]
    omega

/-- So does one that is shorter than asked for. -/
theorem Holds.shiftByN_short (h : Holds q l) {position : Int} (hshort : l.length < position) :
    q.shiftByN position = (.null, q) := by
  rw [Queue.shiftByN, if_pos]
  rw [h.getLength]
  omega

private theorem firstOf_drop {n : Nat} (hn : n < l.length) : firstOf (l.drop n) = .item l[n] := by
  rw [List.drop_eq_getElem_cons hn, firstOf_cons]

/-- Every method of the queue answers as the list does. -/
theorem call_simulates :
    Transducer.Simulates (call (α := α)) listCall Holds Operation.Positive := by
  intro q l operation h hpositive
  cases operation with
  | enqueue item => exact ⟨rfl, h.enqueue item⟩
  | shift =>
    cases l with
    | nil =>
      simp only [call, listCall, h.shift_nil]
      exact ⟨rfl, h⟩
    | cons a l =>
      obtain ⟨hitem, hrest⟩ := h.shift_cons
      exact ⟨congrArg Result.fetched hitem, hrest⟩
  | shiftByN position =>
    by_cases hshort : (l.length : Int) < position
    · simp only [call, listCall, h.shiftByN_short hshort, if_pos hshort]
      exact ⟨rfl, h⟩
    · obtain ⟨n, rfl⟩ : ∃ n : Nat, position = n + 1 := ⟨position.toNat - 1, by
        have hpositive : 1 ≤ position := hpositive
        omega⟩
      have hn : n < l.length := by omega
      obtain ⟨hitem, hrest⟩ := h.shiftByN hn
      have hplace : ((n : Int) + 1).toNat = n + 1 := by omega
      simp only [call, listCall, if_neg hshort, hplace, Nat.add_sub_cancel, firstOf_drop hn]
      exact ⟨congrArg Result.fetched hitem, hrest⟩
  | front =>
    refine ⟨congrArg Result.fetched ?_, h⟩
    rw [Queue.front, h.isEmpty]
    cases l with
    | nil => rfl
    | cons a l =>
      have hhead := h.fetch (n := 0) (a := a) rfl
      simpa using hhead
  | isEmpty => exact ⟨congrArg Result.boolean h.isEmpty, h⟩
  | getLength => exact ⟨congrArg Result.number h.getLength, h⟩
  | clear => exact ⟨rfl, rfl, rfl⟩

/-! ## Many shifts -/

/-- Successive calls of `shift`, with what the last of them returns. -/
def shifts (q : Queue α) : Nat → Fetched α × Queue α
  | 0 => (.null, q)
  | n + 1 => (q.shifts n).2.shift

/-- What a queue holds and its head make the queue. -/
theorem Holds.ext {r : Queue α} (hq : Holds q l) (hr : Holds r l) (hhead : q.head = r.head) :
    q = r := by
  have hitems : q.items = r.items := by
    ext1
    rw [hq.entries, hr.entries, hhead]
  have htail : q.tail = r.tail := by rw [hq.tail, hr.tail, hhead]
  cases q
  cases r
  simp_all

/-- A shift moves the head by one. -/
theorem Holds.shift_head {a : α} (h : Holds q (a :: l)) : q.shift.2.head = q.head + 1 := by
  have hnonempty : ¬ q.isEmpty = true := by simp [h.isEmpty]
  rw [Queue.shift, if_neg hnonempty]

/-- Several shifts drop as many items. -/
theorem Holds.shifts (h : Holds q l) {n : Nat} (hn : n ≤ l.length) :
    Holds (q.shifts n).2 (l.drop n) ∧ (q.shifts n).2.head = q.head + n := by
  induction n with
  | zero => exact ⟨h, (Int.add_zero _).symm⟩
  | succ n ih =>
    obtain ⟨hholds, hhead⟩ := ih (Nat.le_of_succ_le hn)
    rw [List.drop_eq_getElem_cons hn] at hholds
    refine ⟨hholds.shift_cons.2, ?_⟩
    rw [Queue.shifts, hholds.shift_head, hhead]
    omega

/-- `shiftByN` is as many shifts, as long as the list lasts. -/
theorem Holds.shiftByN_eq_shifts (h : Holds q l) {n : Nat} (hn : n < l.length) :
    q.shiftByN (n + 1) = q.shifts (n + 1) := by
  obtain ⟨hitem, hholds⟩ := h.shiftByN hn
  obtain ⟨hbefore, -⟩ := h.shifts (Nat.le_of_lt hn)
  rw [List.drop_eq_getElem_cons hn] at hbefore
  obtain ⟨hrest, hhead⟩ := h.shifts hn
  have hlong : ¬ (q.getLength < n + 1 ∧ ((n : Int) + 1) ≠ 0) := by
    rw [h.getLength]
    omega
  apply Prod.ext
  · rw [hitem, Queue.shifts, hbefore.shift_cons.1]
  · apply hholds.ext hrest
    rw [hhead, Queue.shiftByN, if_neg hlong]
    dsimp only
    omega

/-- Every sequence of calls is answered as the list answers it. Afterwards the keys that are set
are those from the head up to the tail, and `shiftByN` is as many shifts. -/
theorem refines_list (operations : List (Operation α))
    (hpositive : ∀ operation ∈ operations, operation.Positive) :
    (call.runs new operations).1 = (listCall.runs [] operations).1 ∧
      (∀ key, key ∈ (call.runs new operations).2.items.keys ↔
        (call.runs new operations).2.head ≤ key ∧ key < (call.runs new operations).2.tail) ∧
      ∀ n : Nat, 1 ≤ n → n ≤ (call.runs new operations).2.getLength →
        (call.runs new operations).2.shiftByN n = (call.runs new operations).2.shifts n := by
  obtain ⟨hanswers, hholds⟩ := call_simulates.runs (Holds.new (α := α)) hpositive
  refine ⟨hanswers, fun key => ?_, fun n hone hlength => ?_⟩
  · rw [hholds.keys, mem_keysFrom, hholds.tail]
  · obtain ⟨m, rfl⟩ := Nat.exists_eq_add_of_le' hone
    rw [hholds.getLength] at hlength
    apply hholds.shiftByN_eq_shifts
    omega

/-- Five items, of which one is shifted and then two more are skipped to. -/
theorem refines_list_five :
    (∀ operation ∈ [Operation.enqueue 1, .enqueue 2, .enqueue 3, .enqueue 4, .enqueue 5, .shift,
      .shiftByN 2], operation.Positive) ∧
    ((call.runs new [Operation.enqueue 1, .enqueue 2, .enqueue 3, .enqueue 4, .enqueue 5, .shift,
      .shiftByN 2]).1 = [.void, .void, .void, .void, .void, .fetched (.item 1),
        .fetched (.item 3)] ∧
      (call.runs new [Operation.enqueue 1, .enqueue 2, .enqueue 3, .enqueue 4, .enqueue 5, .shift,
        .shiftByN 2]).2.shiftByN 2 =
      (call.runs new [Operation.enqueue 1, .enqueue 2, .enqueue 3, .enqueue 4, .enqueue 5, .shift,
        .shiftByN 2]).2.shifts 2) := by
  have hpositive : ∀ operation ∈ [Operation.enqueue 1, .enqueue 2, .enqueue 3, .enqueue 4,
      .enqueue 5, .shift, .shiftByN 2], operation.Positive := by decide
  obtain ⟨hanswers, -, hshifts⟩ := refines_list _ hpositive
  refine ⟨hpositive, hanswers.trans (by decide), hshifts 2 (by decide) (by decide)⟩

end ChainIndexer.Queue
