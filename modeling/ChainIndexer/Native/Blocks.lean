import Mathlib.Data.List.Basic

/-!
# Blocks of a chain

The subscriptions read three fields of a block: its number, its hash and the hash
of its parent. Hashes are hexadecimal, so lower case changes only ASCII letters.
-/

namespace ChainIndexer

/-- The fields of `IBlock` that a subscription reads. -/
structure Block where
  number : Nat
  hash : String
  parentHash : String
  deriving DecidableEq, Repr

/-- `toLowerCase()` of a hexadecimal hash. -/
def toLowerCase (hash : String) : String := String.ofList (hash.toList.map Char.toLower)

/-- Only the empty string has an empty lower case. -/
@[simp] theorem toLowerCase_eq_empty {hash : String} : toLowerCase hash = "" ↔ hash = "" := by
  unfold toLowerCase
  rw [String.ofList_eq_empty_iff, List.map_eq_nil_iff, String.toList_eq_nil_iff]

end ChainIndexer
