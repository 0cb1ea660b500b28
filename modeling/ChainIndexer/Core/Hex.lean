import Mathlib.Data.List.Basic

/-!
# Numbers in hexadecimal

A number is written with the prefix `0x` and as few lower-case digits as possible. Reading also
takes capital digits and leading zeros.
-/

namespace ChainIndexer

/-- The value of a digit. -/
def hexDigit (c : Char) : Option Nat :=
  if '0' ≤ c ∧ c ≤ '9' then some (c.toNat - '0'.toNat)
  else if 'a' ≤ c ∧ c ≤ 'f' then some (c.toNat - 'a'.toNat + 10)
  else if 'A' ≤ c ∧ c ≤ 'F' then some (c.toNat - 'A'.toNat + 10)
  else none

/-- The value of the digits that follow this number. -/
def hexDigits (n : Nat) (digits : List Char) : Option Nat :=
  digits.foldlM (fun n c => (hexDigit c).map fun d => 16 * n + d) n

/-- The number that a text with the prefix stands for. -/
def hexValue (text : String) : Option Nat :=
  match text.toList with
  | '0' :: 'x' :: digit :: digits => hexDigits 0 (digit :: digits)
  | _ => none

/-- The shortest text of a number. -/
def quantity (n : Nat) : String := String.ofList ('0' :: 'x' :: Nat.toDigits 16 n)

/-- A digit is read back. -/
theorem hexDigit_digitChar {d : Nat} (hd : d < 16) : hexDigit d.digitChar = some d := by
  have hall : ∀ d : Fin 16, hexDigit (Nat.digitChar d) = some d.val := by decide
  exact hall ⟨d, hd⟩

/-- Digits are read from the left. -/
theorem hexDigits_append (n : Nat) (first second : List Char) :
    hexDigits n (first ++ second) = (hexDigits n first).bind fun m => hexDigits m second := by
  rw [hexDigits, List.foldlM_append]
  rfl

theorem hexDigits_digitChar (n : Nat) {d : Nat} (hd : d < 16) :
    hexDigits n [d.digitChar] = some (16 * n + d) := by
  rw [hexDigits, List.foldlM_cons, hexDigit_digitChar hd]
  rfl

/-- Written digits are read back. -/
theorem hexDigits_toDigits (n : Nat) : hexDigits 0 (Nat.toDigits 16 n) = some n := by
  induction n using Nat.strongRecOn with
  | ind n ih =>
    by_cases hn : n < 16
    · rw [Nat.toDigits_of_lt_base hn, hexDigits_digitChar 0 hn, Nat.mul_zero, Nat.zero_add]
    · have hle : 16 ≤ n := Nat.le_of_not_lt hn
      have hless : n / 16 < n := by omega
      rw [Nat.toDigits_of_base_le (by decide) hle, hexDigits_append, ih _ hless, Option.bind_some,
        hexDigits_digitChar _ (Nat.mod_lt _ (by decide)), Nat.div_add_mod]

/-- Decimal digits read as hexadecimal ones stand for a larger number, unless there is only one. -/
theorem hexDigits_toDigits_ten (n : Nat) :
    ∃ m, hexDigits 0 (Nat.toDigits 10 n) = some m ∧ n ≤ m ∧ (10 ≤ n → n < m) := by
  induction n using Nat.strongRecOn with
  | ind n ih =>
    by_cases hn : n < 10
    · refine ⟨n, ?_, Nat.le_refl n, fun hle => absurd hle (Nat.not_le.mpr hn)⟩
      rw [Nat.toDigits_of_lt_base hn, hexDigits_digitChar 0 (Nat.lt_trans hn (by decide)),
        Nat.mul_zero, Nat.zero_add]
    · have hle : 10 ≤ n := Nat.le_of_not_lt hn
      have hless : n / 10 < n := by omega
      obtain ⟨m, hm, hbelow, -⟩ := ih _ hless
      have hdigit : n % 10 < 16 := Nat.lt_trans (Nat.mod_lt n (by decide)) (by decide)
      refine ⟨16 * m + n % 10, ?_, by omega, fun _ => by omega⟩
      rw [Nat.toDigits_of_base_le (by decide) hle, hexDigits_append, hm, Option.bind_some,
        hexDigits_digitChar m hdigit]

/-- A text with the prefix and this many digits. -/
def isHexOf (length : Nat) (text : String) : Bool :=
  match text.toList with
  | '0' :: 'x' :: digits => digits.length == length && digits.all fun c => (hexDigit c).isSome
  | _ => false

/-- A written number is read back. -/
theorem hexValue_quantity (n : Nat) : hexValue (quantity n) = some n := by
  rw [hexValue, quantity, String.toList_ofList]
  cases hdigits : Nat.toDigits 16 n with
  | nil => exact absurd hdigits Nat.toDigits_ne_nil
  | cons digit digits =>
    have hread := hexDigits_toDigits n
    rw [hdigits] at hread
    exact hread

/-- No number is written as an empty text. -/
theorem ne_empty_of_hexValue {text : String} {n : Nat} (h : hexValue text = some n) :
    text ≠ "" := by
  rintro rfl
  cases h

end ChainIndexer
