import Phrasebook.Number.Numeral
import Mathlib.Data.List.Induction
import Mathlib.Tactic.Ring

/-!
# What numerals are

`IsNumeral` says what the numeral of a natural number is, without saying how it is found: digits that read as the number, at least one of
them, and no zero before others. There is one such text for every number, and it is the one that is written (`isNumeral_iff`).
-/

namespace Phrasebook

/-- A decimal digit. -/
def IsDigit (b : UInt8) : Prop := 48 ≤ b ∧ b ≤ 57

/-- The number that digits read as, the highest of them first. -/
def digitsValue (s : Bytes) : Nat := s.foldl (fun n b => 10 * n + (b.toNat - 48)) 0

/-- The numeral of a natural number. -/
structure IsNumeral (n : Nat) (s : Bytes) : Prop where
  digits : ∀ b ∈ s, IsDigit b
  value : digitsValue s = n
  ne_nil : s ≠ []
  leading : s.head? = some 48 → s = [48]

/-! ## Reading digits -/

theorem head?_concat {s : Bytes} (h : s ≠ []) (b : UInt8) : (s ++ [b]).head? = s.head? := by
  cases s with
  | nil => exact absurd rfl h
  | cons => rfl

theorem digitsValue_concat (s : Bytes) (b : UInt8) : digitsValue (s ++ [b]) = 10 * digitsValue s + (b.toNat - 48) := by
  simp [digitsValue, List.foldl_append]

theorem IsDigit.toNat_sub_lt {b : UInt8} (h : IsDigit b) : b.toNat - 48 < 10 := by
  have h57 : b.toNat ≤ 57 := UInt8.le_iff_toNat_le.mp h.2
  omega

theorem IsDigit.eq_ofNat {b : UInt8} (h : IsDigit b) : b = UInt8.ofNat (48 + (b.toNat - 48)) := by
  have h48 : 48 ≤ b.toNat := UInt8.le_iff_toNat_le.mp h.1
  rw [Nat.add_sub_cancel' h48, UInt8.ofNat_toNat]

/-- Digits that read as zero are zeros. -/
theorem eq_replicate_of_digitsValue_eq_zero {s : Bytes} (h : ∀ b ∈ s, IsDigit b) (hzero : digitsValue s = 0) :
    s = List.replicate s.length 48 := by
  induction s using List.reverseRecOn with
  | nil => rfl
  | append_singleton s b ih =>
    obtain ⟨hs, hb⟩ := List.forall_mem_append.mp h
    rw [digitsValue_concat] at hzero
    have hlast : b = 48 := by
      rw [(hb b (List.mem_singleton_self b)).eq_ofNat, show b.toNat - 48 = 0 by omega]
      rfl
    rw [List.length_append, List.length_singleton, List.replicate_succ', ← ih hs (by omega), hlast]

/-- Zeros read as zero. -/
theorem digitsValue_replicate (k : Nat) : digitsValue (List.replicate k 48) = 0 := by
  induction k with
  | zero => rfl
  | succ k ih =>
    rw [List.replicate_succ', digitsValue_concat, ih]
    rfl

/-! ## Writing numerals -/

theorem numeral_of_lt_ten {d : Nat} (h : d < 10) : numeral d = [UInt8.ofNat (48 + d)] := by
  have hall : ∀ d < 10, numeral d = [UInt8.ofNat (48 + d)] := by decide
  exact hall d h

/-- The last digit of a number stands behind the numeral of the others. -/
theorem numeral_concat {n d : Nat} (hn : 0 < n) (hd : d < 10) : numeral (10 * n + d) = numeral n ++ [UInt8.ofNat (48 + d)] := by
  rw [← numeral_of_lt_ten hd, numeral, ← Nat.toDigits_append_toDigits (by decide) hn hd, List.map_append]
  rfl

/-- A number times a power of ten has as many zeros behind its numeral. -/
theorem numeral_mul_pow {n : Nat} (hn : 0 < n) (k : Nat) : numeral (n * 10 ^ k) = numeral n ++ List.replicate k 48 := by
  induction k with
  | zero => simp
  | succ k ih =>
    have hpos : 0 < n * 10 ^ k := Nat.mul_pos hn (Nat.pow_pos (by decide))
    rw [show n * 10 ^ (k + 1) = 10 * (n * 10 ^ k) + 0 by ring, numeral_concat hpos (by decide), ih, List.append_assoc,
      List.replicate_succ']
    rfl

/-- The numeral that is written is one. -/
theorem isNumeral_numeral (n : Nat) : IsNumeral n (numeral n) := by
  induction n using Nat.strongRecOn with
  | ind n ih =>
    have hdigit : ∀ d < 10, IsDigit (UInt8.ofNat (48 + d)) ∧ (UInt8.ofNat (48 + d)).toNat - 48 = d := by
      unfold IsDigit
      decide
    by_cases hn : n < 10
    · rw [numeral_of_lt_ten hn]
      exact {
        digits := by simpa using (hdigit n hn).1
        value := by simpa [digitsValue] using (hdigit n hn).2
        ne_nil := List.cons_ne_nil _ _
        leading := by simp }
    · have hlt : n % 10 < 10 := Nat.mod_lt n (by decide)
      obtain ⟨hdigits, hvalue, hne, hleading⟩ := ih (n / 10) (by omega)
      have hsplit : numeral n = numeral (n / 10) ++ [UInt8.ofNat (48 + n % 10)] := by
        rw [← numeral_concat (by omega) hlt, Nat.div_add_mod]
      rw [hsplit]
      refine ⟨?_, ?_, by simp, ?_⟩
      · exact List.forall_mem_append.mpr ⟨hdigits, by simpa using (hdigit _ hlt).1⟩
      · rw [digitsValue_concat, hvalue, (hdigit _ hlt).2, Nat.div_add_mod]
      · rw [head?_concat hne]
        intro hhead
        rw [hleading hhead] at hvalue
        have : n / 10 = 0 := hvalue.symm
        omega

/-- No other text is the numeral of a number. -/
theorem IsNumeral.eq_numeral {n : Nat} {s : Bytes} (h : IsNumeral n s) : s = numeral n := by
  obtain ⟨hdigits, hvalue, hne, hleading⟩ := h
  induction s using List.reverseRecOn generalizing n with
  | nil => exact absurd rfl hne
  | append_singleton s b ih =>
    obtain ⟨hs, hb⟩ := List.forall_mem_append.mp hdigits
    have hb : IsDigit b := hb b (List.mem_singleton_self b)
    rw [digitsValue_concat] at hvalue
    rw [← hvalue]
    by_cases hnil : s = []
    · subst hnil
      rw [show digitsValue [] = 0 from rfl, Nat.mul_zero, Nat.zero_add, numeral_of_lt_ten hb.toNat_sub_lt, ← hb.eq_ofNat]
      rfl
    · -- A zero at the start would be the only digit, and there is another one behind it.
      have hhead : s.head? ≠ some 48 := by
        intro hzero
        have hlength := congrArg List.length (hleading ((head?_concat hnil b).trans hzero))
        exact hnil (List.eq_nil_of_length_eq_zero (by simpa using hlength))
      have hpos : 0 < digitsValue s := by
        rw [Nat.pos_iff_ne_zero]
        intro hzero
        rw [eq_replicate_of_digitsValue_eq_zero hs hzero] at hhead
        simp [List.head?_replicate, hnil] at hhead
      rw [numeral_concat hpos hb.toNat_sub_lt, ← hb.eq_ofNat, ← ih hs rfl hnil fun hzero => absurd hzero hhead]

/-- The numeral of a number is the one that is written. -/
theorem isNumeral_iff {n : Nat} {s : Bytes} : IsNumeral n s ↔ s = numeral n :=
  ⟨IsNumeral.eq_numeral, fun h => h ▸ isNumeral_numeral n⟩

theorem numeral_injective : Function.Injective numeral := by
  intro n n' h
  rw [← (isNumeral_numeral n).value, h, (isNumeral_numeral n').value]

end Phrasebook
