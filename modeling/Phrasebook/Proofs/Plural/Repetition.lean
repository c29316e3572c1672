import Phrasebook.Proofs.Plural.Languages
import Mathlib.Tactic.SplitIfs

/-!
# Counts alike

The counts from 0 to 111 tell the forms of all others (`formIndex?_repeats`). A negative count takes the last form of the locale, since no
rule has a condition that its remainders could meet. From twelve on no rule knows a count for itself; it is told by its last two digits, and
the forms come round again after a hundred counts.
-/

namespace Phrasebook

variable {m n : Int}

/-- A count from 0 to 111 that stands for a count: a hundred for a negative count, a count below twelve itself, and for any other the one
from twelve on with the same last two digits. -/
def representative (n : Int) : Int := if n < 0 then 100 else if n < 12 then n else 12 + (n - 12) % 100

/-- What stands for a count is a count from 0 to 111. -/
theorem representative_mem (n : Int) : 0 ≤ representative n ∧ representative n < 112 := by
  unfold representative
  split_ifs <;> omega

/-! ## The rules of a family -/

theorem tmod_nonpos_of_neg (hn : n < 0) (b : Int) : n.tmod b ≤ 0 := by
  have h : 0 ≤ (-n).tmod b := Int.tmod_nonneg b (by omega)
  rw [Int.neg_tmod] at h
  omega

namespace Family

/-- A negative count takes the last form. -/
theorem form_of_neg (f : Family) (hn : n < 0) : f.form n + 1 = f.formCount := by
  have hunits : n.tmod 10 ≤ 0 := tmod_nonpos_of_neg hn 10
  have hhundredth : n.tmod 100 ≤ 0 := tmod_nonpos_of_neg hn 100
  rw [form, if_neg (Int.ne_of_lt hn)]
  generalize hu : n.tmod 10 = units at hunits
  generalize hh : n.tmod 100 = hundredth at hhundredth
  cases f <;> simp only [formOfNonzero, formCount, hu, hh] <;> split_ifs <;> omega

theorem form_hundred (f : Family) : f.form 100 + 1 = f.formCount := by
  cases f <;> rfl

/-- From twelve on, counts with the same last two digits take the same form. -/
theorem form_eq_of_emod_eq (f : Family) (hm : 12 ≤ m) (hn : 12 ≤ n) (h : m % 100 = n % 100) : f.form m = f.form n := by
  have htmod : ∀ b, m % b = n % b → m.tmod b = n.tmod b := by
    intro b hb
    rw [Int.tmod_eq_emod_of_nonneg (by omega), Int.tmod_eq_emod_of_nonneg (by omega), hb]
  have hunits : m.tmod 10 = n.tmod 10 := htmod 10 (by omega)
  have hhundredth : m.tmod 100 = n.tmod 100 := htmod 100 h
  rw [form, form, if_neg (by omega), if_neg (by omega)]
  cases f <;> simp only [formOfNonzero, hunits, hhundredth] <;> split_ifs <;> omega

/-- The form for a count is the form for the one that stands for it. -/
theorem form_representative (f : Family) (n : Int) : f.form (representative n) = f.form n := by
  unfold representative
  split_ifs with hneg hsmall
  · have hhundred := f.form_hundred
    have hlast := f.form_of_neg hneg
    omega
  · rfl
  · exact f.form_eq_of_emod_eq (by omega) (by omega) (by omega)

end Family

/-! ## The counts of a locale -/

variable {locale : Bytes}

/-- The form of a locale for a count is the form for the one that stands for it. -/
theorem formIndex?_representative (locale : Bytes) (n : Int) : formIndex? locale (representative n) = formIndex? locale n := by
  rw [formIndex?, formIndex?]
  exact congrArg (fun form => (familyOf? locale).map form) (funext fun f => f.form_representative n)

/-- Where plural rules are known, a negative count takes the last form and zero the first, the forms come round again after a hundred counts
from twelve on, and so a locale with the same forms for the counts from 0 to 111 has the same forms for all. -/
theorem formIndex?_repeats (h : hasPluralRules locale = true) :
    (∀ n, n < 0 → ∃ i, formIndex? locale n = some i ∧ i + 1 = formCount locale) ∧ formIndex? locale 0 = some 0 ∧
      (∀ n, 12 ≤ n → ∃ i, formIndex? locale n = some i ∧ formIndex? locale (12 + (n - 12) % 100) = some i) ∧
      ∀ locale', (∀ n, 0 ≤ n → n < 112 → formIndex? locale' n = formIndex? locale n) →
        ∀ n, formIndex? locale' n = formIndex? locale n := by
  obtain ⟨family, hfamily⟩ := Option.isSome_iff_exists.mp h
  have hindex : ∀ n, formIndex? locale n = some (family.form n) := by
    intro n
    rw [formIndex?, hfamily, Option.map_some]
  refine ⟨fun n hn => ?_, hindex 0, fun n hn => ?_, fun locale' hfirst n => ?_⟩
  · refine ⟨_, hindex n, ?_⟩
    rw [formCount_of_familyOf? hfamily, family.form_of_neg hn]
  · refine ⟨_, hindex n, ?_⟩
    rw [hindex, family.form_eq_of_emod_eq (by omega) hn (by omega)]
  · obtain ⟨hnonneg, hlt⟩ := representative_mem n
    rw [← formIndex?_representative locale', hfirst _ hnonneg hlt, formIndex?_representative locale]

/-- The least and the greatest count of 64 bits in Arabic, and two languages that count alike. -/
theorem formIndex?_repeats_sample :
    hasPluralRules (utf8 "ar") = true ∧
      (∃ i, formIndex? (utf8 "ar") (-9223372036854775808) = some i ∧ i + 1 = formCount (utf8 "ar")) ∧
      formIndex? (utf8 "ar") 0 = some 0 ∧
      (∃ i, formIndex? (utf8 "ar") 9223372036854775807 = some i ∧ formIndex? (utf8 "ar") 107 = some i) ∧
      ∀ n, formIndex? (utf8 "sk") n = formIndex? (utf8 "cs-CZ") n := by
  have harabic : hasPluralRules (utf8 "ar") = true := by decide
  have hczech : hasPluralRules (utf8 "cs-CZ") = true := by decide
  obtain ⟨hneg, hzero, hround, -⟩ := formIndex?_repeats harabic
  refine ⟨harabic, hneg _ (by decide), hzero, hround _ (by decide), ?_⟩
  exact (formIndex?_repeats hczech).2.2.2 _ fun n _ _ => rfl

end Phrasebook
