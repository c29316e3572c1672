import Phrasebook.Number.Binary64
import Phrasebook.Proofs.Number.Numerals
import Mathlib.Algebra.Order.Field.Power
import Mathlib.Data.Nat.Log
import Mathlib.Data.Rat.Cast.Order
import Mathlib.Tactic.Linarith
import Mathlib.Tactic.Positivity

/-!
# The general form

The general form of a number to a precision is its decimal notation, or the notation with an exponent where the first digit stands too far
from the point, in either case rounded to as many significant digits as the precision says and without zeros at the end of the fraction.
`GeneralForm` states these rules on the exact value of the number, apart from any way to find the digits. Of a whole number with no more
digits than the precision the general form is the numeral (`generalForm_natCast_iff`), and so is the text that is computed for it
(`generalText_of_whole?`); the first whole number with more digits has an exponent (`generalForm_pow_iff`).
-/

namespace Phrasebook

/-! ## The rules -/

/-- A rational is rounded to a natural number: no other is nearer, and where another is as near, it is the even one. -/
def RoundsTo (q : ℚ) (w : ℕ) : Prop := |q - w| ≤ 1 / 2 ∧ (|q - w| = 1 / 2 → Even w)

/-- The exponent of a rational that is rounded to one digit before the point and a number of places behind it, and its digits read as a
whole number. It is that of the first digit, or one more where rounding gives ten and zeros; that of zero is zero. -/
inductive LeadingDigits (places : ℕ) (q : ℚ) : ℤ → ℕ → Prop
  | zero : q = 0 → LeadingDigits places q 0 0
  | kept {e : ℤ} {w : ℕ} : 10 ^ e ≤ q → q < 10 ^ (e + 1) → RoundsTo (q * 10 ^ (places - e)) w → w < 10 ^ (places + 1) →
      LeadingDigits places q e w
  | carried {e : ℤ} {w : ℕ} : 10 ^ e ≤ q → q < 10 ^ (e + 1) → RoundsTo (q * 10 ^ (places - e)) w → w = 10 ^ (places + 1) →
      LeadingDigits places q (e + 1) (10 ^ places)

/-- What stands before the point and what behind it, when a number of units of the last of the places behind it is written. -/
structure PlacedDigits (places w : ℕ) (whole fraction : Bytes) : Prop where
  whole : IsNumeral (w / 10 ^ places) whole
  digits : ∀ b ∈ fraction, IsDigit b
  length : fraction.length = places
  value : digitsValue fraction = w % 10 ^ places

/-- A whole part and a fraction are written without the zeros at the end of the fraction, and without the point if nothing is left of it. -/
inductive Stripped (whole fraction : Bytes) : Bytes → Prop
  | whole (k : ℕ) : fraction = List.replicate k 48 → Stripped whole fraction whole
  | point {kept : Bytes} (k : ℕ) : fraction = kept ++ List.replicate k 48 → kept ≠ [] → kept.getLast? ≠ some 48 →
      Stripped whole fraction (whole ++ 46 :: kept)

/-- The exponent behind a decimal: its sign, and its digits, two at least. -/
def exponentPart (e : ℤ) : Bytes :=
  [101, if e < 0 then 45 else 43] ++ (if e.natAbs < 10 then [48] else []) ++ numeral e.natAbs

/-- The general form, to a precision, of a number that is given by its sign and its magnitude. The exponent that the number would have in
the notation with an exponent decides: from the fourth place behind the point up to as many digits as the precision says, the form is the
decimal notation, with the places that are left of the precision; otherwise it is the notation with an exponent. -/
inductive GeneralForm (precision : ℕ) (negative : Bool) (q : ℚ) : Bytes → Prop
  | decimal {e : ℤ} {w w' : ℕ} {whole fraction s : Bytes} : LeadingDigits (precision - 1) q e w → -4 ≤ e → e < precision →
      RoundsTo (q * 10 ^ (precision - 1 - e).toNat) w' → PlacedDigits (precision - 1 - e).toNat w' whole fraction →
      Stripped whole fraction s → GeneralForm precision negative q (signed negative s)
  | exponential {e : ℤ} {w : ℕ} {whole fraction s : Bytes} : LeadingDigits (precision - 1) q e w → e < -4 ∨ precision ≤ e →
      PlacedDigits (precision - 1) w whole fraction → Stripped whole fraction s →
      GeneralForm precision negative q (signed negative (s ++ exponentPart e))

/-! ## Whole numbers -/

/-- A natural number is rounded to itself. -/
theorem roundsTo_natCast_iff {n w : ℕ} : RoundsTo n w ↔ w = n := by
  constructor
  · rintro ⟨hnear, -⟩
    have hlt : |((n : ℤ) - w : ℤ)| < 1 := by
      have : (|((n : ℤ) - w : ℤ)| : ℚ) < 1 := by
        push_cast
        linarith
      exact_mod_cast this
    rw [Int.abs_lt_one_iff] at hlt
    omega
  · rintro rfl
    simp [RoundsTo]

/-- A natural number in units of a place behind the point is a natural number. -/
theorem natCast_mul_zpow {n places j : ℕ} (h : j ≤ places) :
    (n : ℚ) * 10 ^ ((places : ℤ) - j) = ((n * 10 ^ (places - j) : ℕ) : ℚ) := by
  rw [← Nat.cast_sub h, zpow_natCast]
  push_cast
  rfl

/-- The first digit of a natural number stands before the point, and at most as many places as the number has digits. -/
theorem exists_exponent_of_natCast {n places : ℕ} {e : ℤ} (hn : n < 10 ^ (places + 1)) (hlow : 10 ^ e ≤ (n : ℚ))
    (hhigh : (n : ℚ) < 10 ^ (e + 1)) : ∃ j : ℕ, e = j ∧ j ≤ places ∧ n < 10 ^ (j + 1) := by
  have hpos : 1 ≤ n := by
    have : (0 : ℚ) < n := lt_of_lt_of_le (by positivity) hlow
    exact_mod_cast this
  have hnonneg : 0 ≤ e := by
    by_contra hneg
    have hle : (10 : ℚ) ^ (e + 1) ≤ 10 ^ (0 : ℤ) := zpow_le_zpow_right₀ (by norm_num) (by omega)
    have : (n : ℚ) < 1 := by simpa using lt_of_lt_of_le hhigh hle
    have : n < 1 := by exact_mod_cast this
    omega
  obtain ⟨j, rfl⟩ := Int.eq_ofNat_of_zero_le hnonneg
  have hlow : 10 ^ j ≤ n := by exact_mod_cast hlow
  have hhigh : n < 10 ^ (j + 1) := by exact_mod_cast hhigh
  have hj : j < places + 1 := (Nat.pow_lt_pow_iff_right (by norm_num)).mp (lt_of_le_of_lt hlow hn)
  exact ⟨j, rfl, by omega, hhigh⟩

/-- A natural number with no more digits than there is room for is not rounded, and has its first digit there. -/
theorem LeadingDigits.exponent_of_natCast {n places w : ℕ} {e : ℤ} (hn : n < 10 ^ (places + 1)) (h : LeadingDigits places n e w) :
    0 ≤ e ∧ e ≤ places := by
  cases h with
  | zero => omega
  | kept hlow hhigh =>
    obtain ⟨j, rfl, hj, -⟩ := exists_exponent_of_natCast hn hlow hhigh
    omega
  | carried hlow hhigh hrounds hten =>
    obtain ⟨j, rfl, hj, hlt⟩ := exists_exponent_of_natCast hn hlow hhigh
    rw [natCast_mul_zpow hj, roundsTo_natCast_iff] at hrounds
    have hless : n * 10 ^ (places - j) < 10 ^ (j + 1) * 10 ^ (places - j) :=
      Nat.mul_lt_mul_of_pos_right hlt (Nat.pow_pos (by norm_num))
    rw [← pow_add, show j + 1 + (places - j) = places + 1 by omega] at hless
    omega

/-- A natural number with no more digits than there is room for has a first digit. -/
theorem exists_leadingDigits_natCast {n places : ℕ} (hn : n < 10 ^ (places + 1)) : ∃ e w, LeadingDigits places n e w := by
  by_cases hzero : n = 0
  · exact ⟨0, 0, .zero (by rw [hzero, Nat.cast_zero])⟩
  · have hlow : 10 ^ Nat.log 10 n ≤ n := Nat.pow_log_le_self 10 hzero
    have hhigh : n < 10 ^ (Nat.log 10 n + 1) := Nat.lt_pow_succ_log_self (by norm_num) n
    have hlow' : (10 : ℚ) ^ (Nat.log 10 n : ℤ) ≤ n := by exact_mod_cast hlow
    have hhigh' : (n : ℚ) < 10 ^ ((Nat.log 10 n : ℤ) + 1) := by exact_mod_cast hhigh
    obtain ⟨j, hj, hplaces, hlt⟩ := exists_exponent_of_natCast hn hlow' hhigh'
    rw [hj] at hlow' hhigh'
    refine ⟨j, n * 10 ^ (places - j), .kept hlow' hhigh' ?_ ?_⟩
    · rw [natCast_mul_zpow hplaces, roundsTo_natCast_iff]
    · have hless : n * 10 ^ (places - j) < 10 ^ (j + 1) * 10 ^ (places - j) :=
        Nat.mul_lt_mul_of_pos_right hlt (Nat.pow_pos (by norm_num))
      rwa [← pow_add, show j + 1 + (places - j) = places + 1 by omega] at hless

/-- Of a natural number there are zeros behind the point. -/
theorem placedDigits_natCast_iff {n places : ℕ} {whole fraction : Bytes} :
    PlacedDigits places (n * 10 ^ places) whole fraction ↔ whole = numeral n ∧ fraction = List.replicate places 48 := by
  have hpos : 0 < 10 ^ places := Nat.pow_pos (by norm_num)
  constructor
  · rintro ⟨hwhole, hdigits, hlength, hvalue⟩
    rw [Nat.mul_div_cancel _ hpos] at hwhole
    rw [Nat.mul_mod_left] at hvalue
    exact ⟨hwhole.eq_numeral, hlength ▸ eq_replicate_of_digitsValue_eq_zero hdigits hvalue⟩
  · rintro ⟨rfl, rfl⟩
    refine ⟨?_, ?_, List.length_replicate, ?_⟩
    · rw [Nat.mul_div_cancel _ hpos]
      exact isNumeral_numeral n
    · intro b hb
      rw [List.eq_of_mem_replicate hb]
      exact ⟨by decide, by decide⟩
    · rw [Nat.mul_mod_left, digitsValue_replicate]

/-- Of a fraction of zeros nothing is left. -/
theorem stripped_replicate_iff {whole s : Bytes} {k : ℕ} : Stripped whole (List.replicate k 48) s ↔ s = whole := by
  constructor
  · intro h
    cases h with
    | whole => rfl
    | @point kept j hzeros hne hlast =>
      have hzero : kept.getLast hne = 48 :=
        List.eq_of_mem_replicate (hzeros ▸ List.mem_append_left _ (List.getLast_mem hne))
      rw [List.getLast?_eq_some_getLast hne, hzero] at hlast
      exact absurd rfl hlast
  · rintro rfl
    exact .whole k rfl

/-- The general form of a natural number with no more digits than the precision is its numeral. -/
theorem generalForm_natCast_iff {precision n : ℕ} (hn : n < 10 ^ precision) (hpos : 0 < precision) (negative : Bool) {s : Bytes} :
    GeneralForm precision negative n s ↔ s = signed negative (numeral n) := by
  have hroom : n < 10 ^ (precision - 1 + 1) := by rwa [Nat.sub_add_cancel hpos]
  -- The places that are left of the precision, and the number in units of the last of them.
  have hunits : ∀ (e : ℤ) (w : ℕ), e ≤ (precision - 1 : ℕ) →
      (RoundsTo (n * 10 ^ (precision - 1 - e).toNat) w ↔ w = n * 10 ^ (precision - 1 - e).toNat) := by
    intro e w _
    rw [← roundsTo_natCast_iff]
    push_cast
    rfl
  constructor
  · intro h
    cases h with
    | @decimal e w w' whole fraction s hleading _ _ hrounds hplaced hstripped =>
      rw [hunits e w' (hleading.exponent_of_natCast hroom).2] at hrounds
      rw [hrounds, placedDigits_natCast_iff] at hplaced
      obtain ⟨rfl, rfl⟩ := hplaced
      rw [stripped_replicate_iff.mp hstripped]
    | exponential hleading hfar =>
      have := hleading.exponent_of_natCast hroom
      omega
  · rintro rfl
    obtain ⟨e, w, hleading⟩ := exists_leadingDigits_natCast hroom
    obtain ⟨hlow, hhigh⟩ := hleading.exponent_of_natCast hroom
    exact .decimal hleading (by omega) (by omega) ((hunits e _ hhigh).mpr rfl) (placedDigits_natCast_iff.mpr ⟨rfl, rfl⟩)
      (stripped_replicate_iff.mpr rfl)

/-- The first power of ten with more digits than the precision has its first digit one place too far from the point. -/
theorem leadingDigits_pow_iff {places w : ℕ} {e : ℤ} :
    LeadingDigits places (10 ^ (places + 1)) e w ↔ e = places + 1 ∧ w = 10 ^ places := by
  have hten : (1 : ℚ) < 10 := by norm_num
  have hpow : (10 : ℚ) ^ (places + 1) = 10 ^ ((places : ℤ) + 1) := by norm_cast
  have hunits : (10 : ℚ) ^ (places + 1) * 10 ^ ((places : ℤ) - (places + 1)) = ((10 ^ places : ℕ) : ℚ) := by
    rw [hpow, ← zpow_add₀ (by norm_num), show (places : ℤ) + 1 + (places - (places + 1)) = places by omega]
    norm_cast
  have hexponent : ∀ e : ℤ, (10 : ℚ) ^ e ≤ 10 ^ (places + 1) → (10 : ℚ) ^ (places + 1) < 10 ^ (e + 1) → e = places + 1 := by
    intro e hlow hhigh
    rw [hpow] at hlow hhigh
    have hle := (zpow_le_zpow_iff_right₀ hten).mp hlow
    have hlt := (zpow_lt_zpow_iff_right₀ hten).mp hhigh
    omega
  have hless : 10 ^ places < 10 ^ (places + 1) := Nat.pow_lt_pow_right (by norm_num) (Nat.lt_succ_self places)
  constructor
  · intro h
    cases h with
    | zero hzero => exact absurd hzero (by positivity)
    | kept hlow hhigh hrounds =>
      obtain rfl := hexponent _ hlow hhigh
      rw [hunits, roundsTo_natCast_iff] at hrounds
      exact ⟨rfl, hrounds⟩
    | carried hlow hhigh hrounds hcarry =>
      obtain rfl := hexponent _ hlow hhigh
      rw [hunits, roundsTo_natCast_iff] at hrounds
      omega
  · rintro ⟨rfl, rfl⟩
    refine .kept hpow.ge ?_ (hunits ▸ roundsTo_natCast_iff.mpr rfl) hless
    rw [hpow]
    exact zpow_lt_zpow_right₀ hten (by omega)

/-- The bound is sharp: of the first number with more digits than the precision the general form has an exponent. -/
theorem generalForm_pow_iff {precision : ℕ} (hpos : 0 < precision) (negative : Bool) {s : Bytes} :
    GeneralForm precision negative (10 ^ precision) s ↔ s = signed negative (49 :: exponentPart precision) := by
  obtain ⟨places, rfl⟩ := Nat.exists_eq_add_of_lt hpos
  rw [Nat.zero_add]
  have hone : ∀ {whole fraction : Bytes}, PlacedDigits places (10 ^ places) whole fraction ↔
      whole = numeral 1 ∧ fraction = List.replicate places 48 := by
    intro whole fraction
    rw [← placedDigits_natCast_iff, Nat.one_mul]
  constructor
  · intro h
    cases h with
    | decimal hleading _ hnear =>
      rw [Nat.add_sub_cancel, leadingDigits_pow_iff] at hleading
      omega
    | exponential hleading _ hplaced hstripped =>
      rw [Nat.add_sub_cancel] at hleading hplaced
      obtain ⟨rfl, rfl⟩ := leadingDigits_pow_iff.mp hleading
      obtain ⟨rfl, rfl⟩ := hone.mp hplaced
      rw [stripped_replicate_iff.mp hstripped]
      rfl
  · rintro rfl
    have hleading : LeadingDigits (places + 1 - 1) (10 ^ (places + 1)) (places + 1 : ℕ) (10 ^ places) :=
      leadingDigits_pow_iff.mpr ⟨rfl, rfl⟩
    exact .exponential hleading (.inr le_rfl) (hone.mpr ⟨rfl, rfl⟩) (stripped_replicate_iff.mpr rfl)

/-! ## The computed text -/

theorem roundDiv_mul {den : ℕ} (h : 0 < den) (k : ℕ) : roundDiv (k * den) den = k := by
  simp [roundDiv, Nat.mul_div_cancel _ h, h]

theorem withFraction_replicate (whole : Bytes) (k : ℕ) : withFraction whole (List.replicate k 48) = whole := by
  simp [withFraction]

/-- A whole number in units of a place behind the point is not rounded. -/
theorem roundToUnit_neg {den : ℕ} (h : 0 < den) (n k : ℕ) : roundToUnit (n * den) den (-(k : ℤ)) = n * 10 ^ k := by
  unfold roundToUnit
  split
  · have hk : k = 0 := by omega
    subst hk
    simpa using roundDiv_mul h n
  · rw [show (-(-(k : ℤ))).toNat = k by omega, Nat.pow_eq, Nat.mul_right_comm, roundDiv_mul h]

theorem decade_of_whole {n den : ℕ} (hden : 0 < den) (hpos : 0 < n) : decade (n * den) den = ((numeral n).length : ℤ) - 1 := by
  rw [decade, if_pos (Nat.le_mul_of_pos_left den hpos), Nat.mul_div_cancel _ hden]

/-- A whole number with no more digits than the precision is rounded to itself, with zeros behind it as far as the precision goes. -/
theorem Decimal.round_of_whole {precision n den : ℕ} (hden : 0 < den) (hpos : 0 < n) (hlength : (numeral n).length ≤ precision) :
    Decimal.round precision (n * den) den =
      ⟨n * 10 ^ (precision - (numeral n).length), ((numeral n).length : ℤ) - 1⟩ := by
  have hdigits : 0 < (numeral n).length := List.length_pos_of_ne_nil (numeral_ne_nil n)
  have hunit : ((numeral n).length : ℤ) - 1 - ((precision : ℤ) - 1) = -((precision - (numeral n).length : ℕ) : ℤ) := by omega
  have hless : n * 10 ^ (precision - (numeral n).length) < 10 ^ precision := by
    have hn : n < 10 ^ (numeral n).length := (length_numeral_le_iff hdigits).mp le_rfl
    calc n * 10 ^ (precision - (numeral n).length)
        < 10 ^ (numeral n).length * 10 ^ (precision - (numeral n).length) :=
          Nat.mul_lt_mul_of_pos_right hn (Nat.pow_pos (by norm_num))
      _ = 10 ^ precision := by rw [← pow_add, Nat.add_sub_cancel' hlength]
  simp only [Decimal.round, decade_of_whole hden hpos, hunit, roundToUnit_neg hden]
  exact if_neg hless.ne

/-- The computed text of a whole number with no more digits than the precision is its numeral. -/
theorem Decimal.general_round_of_whole {precision n den : ℕ} (hden : 0 < den) (hpos : 0 < n)
    (hlength : (numeral n).length ≤ precision) : (Decimal.round precision (n * den) den).general precision = numeral n := by
  have hdigits : 0 < (numeral n).length := List.length_pos_of_ne_nil (numeral_ne_nil n)
  rw [round_of_whole hden hpos hlength]
  simp only [Decimal.general, Decimal.positional, numeral_mul_pow hpos]
  rw [if_neg (by omega), if_neg (by omega), show ((numeral n).length - 1 : ℤ).toNat + 1 = (numeral n).length by omega, List.take_left,
    List.drop_left, withFraction_replicate]

/-- The denominator of `significand * 2 ^ exponent` is positive. -/
theorem dyadic_snd_pos (m : ℕ) (e : ℤ) : 0 < (dyadic m e).2 := by
  unfold dyadic
  split
  · exact Nat.one_pos
  · exact Nat.pow_pos (by norm_num)

/-- A number is whole when its denominator goes into its numerator. -/
theorem whole?_eq_some_iff {m n : ℕ} {e : ℤ} : whole? m e = some n ↔ (dyadic m e).1 = n * (dyadic m e).2 := by
  have hden := dyadic_snd_pos m e
  unfold whole?
  constructor
  · intro h
    dsimp only at h
    split at h
    · rename_i hmod
      cases h
      rw [Nat.div_mul_cancel (Nat.dvd_of_mod_eq_zero hmod)]
    · cases h
  · intro h
    dsimp only
    rw [h, if_pos (Nat.mul_mod_left _ _), Nat.mul_div_cancel _ hden]

/-- The computed text of a number that is whole, with no more digits than the precision, is its numeral. -/
theorem generalText_of_whole? {precision m n : ℕ} {e : ℤ} (h : whole? m e = some n) (hn : n < 10 ^ precision) (hpos : 0 < precision)
    (negative : Bool) : generalText precision negative m e = signed negative (numeral n) := by
  have hden := dyadic_snd_pos m e
  rw [whole?_eq_some_iff] at h
  unfold generalText
  dsimp only
  rw [h]
  split
  · rename_i hzero
    rw [(Nat.mul_eq_zero.mp hzero).resolve_right hden.ne']
    rfl
  · rename_i hne
    have hn0 : 0 < n := Nat.pos_of_ne_zero fun hzero => hne (by rw [hzero, Nat.zero_mul])
    rw [Decimal.general_round_of_whole hden hn0 ((length_numeral_le_iff hpos).mpr hn)]

end Phrasebook
