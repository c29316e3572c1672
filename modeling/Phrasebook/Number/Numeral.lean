import Phrasebook.Bytes

/-!
# Decimal numerals

The numeral of a whole number: its decimal digits from the highest to the lowest, without leading zeros, and `0` for zero. A
negative number has a minus sign before the numeral of its magnitude.
-/

namespace Phrasebook

/-- The decimal numeral of a natural number. -/
def numeral (n : Nat) : Bytes := (Nat.toDigits 10 n).map Char.toUInt8

/-- The decimal numeral of a whole number. -/
def signedNumeral : Int → Bytes
  | .ofNat n => numeral n
  | .negSucc n => 45 :: numeral (n + 1)

theorem numeral_ne_nil (n : Nat) : numeral n ≠ [] := by
  simp [numeral, Nat.toDigits_ne_nil]

/-- A number below `10 ^ k`, for a positive `k`, has at most `k` digits, and only such a number has. -/
theorem length_numeral_le_iff {n k : Nat} (h : 0 < k) : (numeral n).length ≤ k ↔ n < Nat.pow 10 k := by
  rw [numeral, List.length_map, Nat.length_toDigits_le_iff (by decide) h]
  rfl

end Phrasebook
