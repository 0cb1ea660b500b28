import Mathlib.Data.List.Nodup

/-!
# Entries under integer keys

A record maps integers to values. Its entries are kept in the order in which their keys were
first set, each key once.
-/

namespace ChainIndexer

universe u

/-- A finite map from integers, each key at most once. -/
structure Record (α : Type u) where
  entries : List (Int × α)
  unique : (entries.map Prod.fst).Nodup

namespace Record

variable {α : Type u} {r : Record α} {key : Int} {a : α}

/-- No entries. -/
def empty : Record α := ⟨[], List.nodup_nil⟩

/-- The keys that are set. -/
def keys (r : Record α) : List Int := r.entries.map Prod.fst

/-- The value under a key. -/
def get (r : Record α) (key : Int) : Option α :=
  (r.entries.find? fun entry => entry.1 = key).map Prod.snd

/-- Keep the entries whose keys pass a test. -/
def keep (r : Record α) (test : Int → Bool) : Record α where
  entries := r.entries.filter fun entry => test entry.1
  unique := r.unique.sublist (List.filter_sublist.map _)

/-- Remove a key. -/
def delete (r : Record α) (key : Int) : Record α := r.keep fun other => other ≠ key

/-- Set the value under a key. -/
def set (r : Record α) (key : Int) (a : α) : Record α where
  entries :=
    if key ∈ r.keys then r.entries.map fun entry => if entry.1 = key then (key, a) else entry
    else r.entries ++ [(key, a)]
  unique := by
    split
    · have hsame : (r.entries.map fun entry => if entry.1 = key then (key, a) else entry).map
          Prod.fst = r.entries.map Prod.fst := by
        rw [List.map_map]
        apply List.map_congr_left
        intro entry _
        by_cases heq : entry.1 = key
        · simp [heq]
        · simp [heq]
      rw [hsame]
      exact r.unique
    · rename_i hnew
      rw [List.map_append, List.map_singleton]
      apply List.Nodup.append r.unique (List.nodup_singleton key)
      rw [List.disjoint_singleton]
      exact hnew

@[ext] theorem ext {r s : Record α} (h : r.entries = s.entries) : r = s := by
  cases r
  cases s
  simp_all

@[simp] theorem entries_empty : (empty : Record α).entries = [] := rfl

@[simp] theorem entries_keep (r : Record α) (test : Int → Bool) :
    (r.keep test).entries = r.entries.filter fun entry => test entry.1 := rfl

@[simp] theorem entries_delete (r : Record α) (key : Int) :
    (r.delete key).entries = r.entries.filter fun entry => entry.1 ≠ key := rfl

/-- A new key is set at the end. -/
theorem entries_set (h : key ∉ r.keys) (a : α) : (r.set key a).entries = r.entries ++ [(key, a)] :=
  if_neg h

/-- Keeping twice is keeping what passes both tests. -/
theorem keep_keep (r : Record α) (first second : Int → Bool) :
    (r.keep first).keep second = r.keep fun key => first key && second key := by
  ext1
  simp [List.filter_filter, Bool.and_comm]

/-- Removing the listed keys that pass a test keeps the others. -/
theorem foldl_delete (test : Int → Bool) (keys : List Int) (r : Record α) :
    (keys.foldl (fun r key => if test key then r.delete key else r) r) =
      r.keep fun key => !(test key && decide (key ∈ keys)) := by
  induction keys generalizing r with
  | nil =>
    ext1
    simp
  | cons key keys ih =>
    rw [List.foldl_cons, ih]
    by_cases htest : test key
    · rw [if_pos htest, delete, keep_keep]
      congr 1
      ext other
      by_cases heq : other = key
      · simp [heq, htest]
      · simp [heq]
    · rw [if_neg htest]
      congr 1
      ext other
      by_cases heq : other = key
      · simp [heq, htest]
      · simp [heq]

/-- Scanning all the keys of a record removes what passes the test. -/
theorem foldl_delete_keys (test : Int → Bool) (r : Record α) :
    (r.keys.foldl (fun r key => if test key then r.delete key else r) r) =
      r.keep fun key => !test key := by
  rw [foldl_delete]
  ext1
  apply List.filter_congr
  intro entry hentry
  have hkey : entry.1 ∈ r.keys := List.mem_map_of_mem hentry
  simp [hkey]

end Record

end ChainIndexer
