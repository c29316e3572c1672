import Phrasebook.Proofs.Number.GeneralForm
import Mathlib.Data.Int.Cast.Lemmas

/-!
# The text of a whole real value

The text of a real value that is a whole number of at most 15 digits is found in a way of its own, as the numeral of the word of 64 bits
that is left of the value without a fraction. It is the text that the general form would give (`Binary64.wholeText`): the only number of
the format for which the two differ is zero with a minus sign.
-/

namespace Phrasebook

/-! ## Exact values -/

/-- The numerator over the denominator is the number itself. -/
theorem dyadic_div (m : ℕ) (e : ℤ) : ((dyadic m e).1 : ℚ) / (dyadic m e).2 = m * 2 ^ e := by
  unfold dyadic
  split
  · rename_i he
    obtain ⟨k, rfl⟩ := Int.eq_ofNat_of_zero_le he
    simp
  · rename_i he
    obtain ⟨k, hk⟩ := Int.eq_ofNat_of_zero_le (show 0 ≤ -e by omega)
    obtain rfl : e = -(k : ℤ) := by omega
    simp [div_eq_mul_inv]

theorem whole?_eq_some_iff_natCast {m n : ℕ} {e : ℤ} : whole? m e = some n ↔ (m : ℚ) * 2 ^ e = n := by
  have hden : ((dyadic m e).2 : ℚ) ≠ 0 := Nat.cast_ne_zero.mpr (dyadic_snd_pos m e).ne'
  rw [whole?_eq_some_iff, ← dyadic_div, div_eq_iff hden]
  exact_mod_cast Iff.rfl

/-- The numeral of a whole number is that of its magnitude, with a minus sign if it is negative. -/
theorem signedNumeral_eq (n : ℤ) : signedNumeral n = signed (decide (n < 0)) (numeral n.natAbs) := by
  cases n with
  | ofNat n => rfl
  | negSucc n =>
    rw [decide_eq_true (Int.negSucc_lt_zero n)]
    rfl

theorem numeral_ne_minus_cons (n : ℕ) (s : Bytes) : numeral n ≠ 45 :: s := by
  intro h
  have hdigit : IsDigit 45 := (isNumeral_numeral n).digits 45 (h ▸ List.mem_cons_self)
  exact absurd hdigit.1 (by decide)

/-- Different whole numbers have different numerals. -/
theorem signedNumeral_injective : Function.Injective signedNumeral := by
  intro n n' h
  cases n with
  | ofNat n =>
    cases n' with
    | ofNat n' => exact congrArg Int.ofNat (numeral_injective h)
    | negSucc n' => exact absurd h (numeral_ne_minus_cons n _)
  | negSucc n =>
    cases n' with
    | ofNat n' => exact absurd h.symm (numeral_ne_minus_cons n' _)
    | negSucc n' =>
      have hsucc : n + 1 = n' + 1 := numeral_injective (List.cons.inj h).2
      rw [Nat.succ.inj hsucc]

namespace Binary64

/-- The rational number that a number of the format is; what is infinite or no number is none. -/
def value? (x : Binary64) : Option ℚ :=
  match x.reading with
  | .finite negative m e => some ((if negative then -1 else 1) * (m * 2 ^ e))
  | _ => none

/-- Zero with a minus sign. -/
def negativeZero : Binary64 := ⟨0x8000000000000000⟩

/-- The word of 64 bits that is left of a number without its fraction. -/
def truncated (q : ℚ) : Int64 := Int64.ofInt (q.num.tdiv q.den)

/-- The general form, to a precision, of a number of the format. -/
def HasGeneralForm (x : Binary64) (precision : ℕ) (s : Bytes) : Prop :=
  ∃ q, x.value? = some q ∧ GeneralForm precision x.negative |q| s

variable {x : Binary64} {n : ℤ}

/-- A finite number is plus or minus a significand times a power of two, with the sign of its sign bit. -/
theorem exists_reading_of_value? {q : ℚ} (h : x.value? = some q) :
    ∃ m e, x.reading = .finite x.negative m e ∧ (if x.negative then -1 else 1) * ((m : ℚ) * 2 ^ e) = q := by
  have hsign : ∀ negative m e, x.reading = .finite negative m e → negative = x.negative := by
    intro negative m e hr
    unfold reading at hr
    split at hr
    · split at hr <;> cases hr
    · split at hr <;> cases hr <;> rfl
  unfold value? at h
  split at h
  · rename_i negative m e hr
    obtain rfl := hsign negative m e hr
    exact ⟨m, e, hr, Option.some.inj h⟩
  · cases h

/-- Zero has no sign, or it is the one with a minus sign. -/
theorem negative_eq_false_of_zero (h : x.value? = some 0) (hne : x ≠ negativeZero) : x.negative = false := by
  rw [← Bool.not_eq_true]
  intro hnegative
  refine hne ?_
  obtain ⟨m, e, hr, hzero⟩ := exists_reading_of_value? h
  rw [hnegative] at hzero
  have hm : m = 0 := by
    have htwo : (2 : ℚ) ^ e ≠ 0 := by positivity
    simpa [htwo] using hzero
  subst hm
  have hfields : x.biasedExponent = 0 ∧ x.fraction = 0 := by
    unfold reading at hr
    split at hr
    · split at hr <;> cases hr
    · split at hr
      · rename_i hexponent
        exact ⟨hexponent, (Reading.finite.inj hr).2.1⟩
      · have hleading : Nat.pow 2 52 + x.fraction = 0 := (Reading.finite.inj hr).2.1
        exact absurd (Nat.add_eq_zero_iff.mp hleading).1 (by decide)
  obtain ⟨hexponent, hfraction⟩ := hfields
  obtain ⟨bits⟩ := x
  rw [negativeZero, mk.injEq, ← UInt64.toNat_inj]
  have hlt := bits.toNat_lt
  have hword : (0x8000000000000000 : UInt64).toNat = 9223372036854775808 := rfl
  rw [hword]
  simp only [negative, biasedExponent, fraction, Nat.pow_eq, beq_iff_eq] at hnegative hexponent hfraction
  norm_num at hnegative hexponent hfraction hlt
  omega

/-- The magnitude of a number that is whole is found. -/
theorem whole?_eq_natAbs {negative : Bool} {m : ℕ} {e : ℤ} (h : (if negative then -1 else 1) * ((m : ℚ) * 2 ^ e) = n) :
    whole? m e = some n.natAbs := by
  have hnonneg : (0 : ℚ) ≤ m * 2 ^ e := by positivity
  rw [whole?_eq_some_iff_natCast, Nat.cast_natAbs, Int.cast_abs, ← h, abs_mul, abs_of_nonneg hnonneg]
  cases negative <;> simp

/-- The sign and the magnitude of a number that is whole make the number. -/
theorem signed_natAbs {negative : Bool} {m : ℕ} {e : ℤ} (h : (if negative then -1 else 1) * ((m : ℚ) * 2 ^ e) = n) :
    (if negative then -(n.natAbs : ℤ) else n.natAbs) = n := by
  have hnonneg : (0 : ℚ) ≤ m * 2 ^ e := by positivity
  cases negative with
  | false =>
    rw [if_neg Bool.false_ne_true, one_mul] at h
    have hn : 0 ≤ n := by exact_mod_cast h ▸ hnonneg
    exact Int.natAbs_of_nonneg hn
  | true =>
    rw [if_pos rfl, neg_one_mul] at h
    have hn : n ≤ 0 := by exact_mod_cast h ▸ neg_nonpos.mpr hnonneg
    rw [if_pos rfl, Int.ofNat_natAbs_of_nonpos hn, neg_neg]

/-- The text of a whole number of at most 15 digits is its numeral. -/
theorem text_of_value? (hx : x.value? = some (n : ℚ)) (hn : |n| < 10 ^ 15) : x.text = signedNumeral n := by
  obtain ⟨m, e, hr, hvalue⟩ := exists_reading_of_value? hx
  have hdigits : n.natAbs < Nat.pow 10 textPrecision := by
    rw [textPrecision, Nat.pow_eq]
    zify
    exact hn
  have hshort : shortWhole? x.negative m e = some n := by
    simp only [shortWhole?, whole?_eq_natAbs hvalue, if_pos hdigits, signed_natAbs hvalue]
  simp only [text, hr, hshort]

/-- A whole number of at most 15 digits is the word that is left of it without a fraction. -/
theorem toInt_truncated (hn : |n| < 10 ^ 15) : (truncated n).toInt = n := by
  rw [abs_lt] at hn
  rw [truncated, Rat.num_intCast, Rat.den_intCast, Nat.cast_one, Int.tdiv_one]
  exact Int64.toInt_ofInt_of_le (by omega) (by omega)

/-- The sign bit of a whole number is set when the number is negative, but for the zero with a minus sign. -/
theorem negative_eq (hx : x.value? = some (n : ℚ)) (hne : x ≠ negativeZero) : x.negative = decide (n < 0) := by
  by_cases hzero : n = 0
  · subst hzero
    rw [Int.cast_zero] at hx
    rw [negative_eq_false_of_zero hx hne]
    rfl
  · obtain ⟨m, e, -, hvalue⟩ := exists_reading_of_value? hx
    have hsigned := signed_natAbs hvalue
    symm
    cases hnegative : x.negative with
    | false =>
      rw [hnegative, if_neg Bool.false_ne_true] at hsigned
      exact decide_eq_false (by omega)
    | true =>
      rw [hnegative, if_pos rfl] at hsigned
      exact decide_eq_true (by omega)

/-- The general form of a whole number with no more digits than the precision is its numeral, behind a minus sign if the sign bit is set. -/
theorem hasGeneralForm_iff {precision : ℕ} (hx : x.value? = some (n : ℚ)) (hn : n.natAbs < 10 ^ precision) (hpos : 0 < precision)
    {s : Bytes} : x.HasGeneralForm precision s ↔ s = signed x.negative (numeral n.natAbs) := by
  have habs : |(n : ℚ)| = (n.natAbs : ℕ) := by rw [Nat.cast_natAbs, Int.cast_abs]
  rw [← generalForm_natCast_iff hn hpos x.negative, ← habs]
  constructor
  · rintro ⟨q, hq, hform⟩
    obtain rfl := Option.some.inj (hx.symm.trans hq)
    exact hform
  · exact fun hform => ⟨n, hx, hform⟩

/-- Zero with a minus sign is zero, with its sign bit set. -/
theorem value?_negativeZero : negativeZero.value? = some 0 := by
  have hr : negativeZero.reading = .finite true 0 (-1074) := by decide
  simp [value?, hr]

/-- What it comes to that a number of the format is a whole number of at most 15 digits. Without its fraction it is left in a word of 64
bits as it is, and its text is the numeral of that word: the digits of its magnitude without zeros before them, behind a minus sign if it
is negative. The general form with 15 digits is this text and no other, by the rules and as it is computed, unless the number is the zero
with a minus sign, whose text has no sign and whose general form has one. Other whole numbers of at most 15 digits have other texts. -/
structure WholeText (x : Binary64) (n : ℤ) : Prop where
  cast : ∀ q, x.value? = some q → ((truncated q).toInt : ℚ) = q ∧ x.text = signedNumeral (truncated q).toInt
  numeral : ∃ s, IsNumeral n.natAbs s ∧ x.text = if n < 0 then 45 :: s else s
  general : x ≠ negativeZero → ∀ s, x.HasGeneralForm 15 s ↔ s = x.text
  computed : x ≠ negativeZero → ∀ negative m e, x.reading = .finite negative m e → generalText 15 negative m e = x.text
  negativeZero : x = negativeZero → x.text = utf8 "0" ∧ ∀ s, x.HasGeneralForm 15 s ↔ s = utf8 "-0"
  distinct : ∀ (y : Binary64) (k : ℤ), y.value? = some (k : ℚ) → |k| < 10 ^ 15 → y.text = x.text → k = n

/-- Every whole number of at most 15 digits has such a text. -/
theorem wholeText (hx : x.value? = some (n : ℚ)) (hn : |n| < 10 ^ 15) : x.WholeText n := by
  have htext := text_of_value? hx hn
  have hdigits : n.natAbs < 10 ^ 15 := by
    zify
    exact hn
  have hform := fun s => hasGeneralForm_iff (s := s) hx hdigits (by norm_num)
  constructor
  case cast =>
    intro q hq
    obtain rfl := Option.some.inj (hx.symm.trans hq)
    rw [toInt_truncated hn]
    exact ⟨rfl, htext⟩
  case numeral =>
    refine ⟨_, isNumeral_numeral n.natAbs, ?_⟩
    rw [htext, signedNumeral_eq, signed]
    simp only [decide_eq_true_eq]
  case general =>
    intro hne s
    rw [hform, negative_eq hx hne, htext, signedNumeral_eq]
  case computed =>
    intro hne negative m e hr
    obtain ⟨m', e', hr', hvalue⟩ := exists_reading_of_value? hx
    obtain ⟨rfl, rfl, rfl⟩ := Reading.finite.inj (hr.symm.trans hr')
    rw [generalText_of_whole? (whole?_eq_natAbs hvalue) hdigits (by norm_num), negative_eq hx hne, htext, signedNumeral_eq]
  case negativeZero =>
    rintro rfl
    have hzero : n = 0 := by
      have := Option.some.inj (hx.symm.trans value?_negativeZero)
      exact_mod_cast this
    subst hzero
    exact ⟨htext, hform⟩
  case distinct =>
    intro y k hy hk heq
    rw [text_of_value? hy hk, htext] at heq
    exact signedNumeral_injective heq

/-- The word is the number with the greatest magnitude and a minus sign, whose numeral has all 15 digits. -/
theorem wholeText_sample :
    (⟨0xc30c6bf52633fff8⟩ : Binary64).value? = some ((-999999999999999 : ℤ) : ℚ) ∧ |(-999999999999999 : ℤ)| < 10 ^ 15 ∧
      (⟨0xc30c6bf52633fff8⟩ : Binary64).WholeText (-999999999999999) := by
  have hr : (⟨0xc30c6bf52633fff8⟩ : Binary64).reading = .finite true 7999999999999992 (-3) := by decide
  have hx : (⟨0xc30c6bf52633fff8⟩ : Binary64).value? = some ((-999999999999999 : ℤ) : ℚ) := by
    simp only [value?, hr]
    norm_num
  have hn : |(-999999999999999 : ℤ)| < 10 ^ 15 := by decide
  exact ⟨hx, hn, wholeText hx hn⟩

end Binary64

end Phrasebook
