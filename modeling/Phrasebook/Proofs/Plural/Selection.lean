import Phrasebook.Plural.Forms

/-!
# The form for a count

A text has the forms of a locale (`HasForms`) when plural rules are known for the locale and the text holds as many forms as they need.
That is all it takes for a form to be selected, whatever the count (`exists_selectForm_iff`), and the one selected is the one that has the
number of the count (`selectForm_eq_ok_iff`). So any other form may be replaced by any text without a bar (`formFor?_replaceForm`).
-/

namespace Phrasebook

/-- Plural rules are known for the locale, and the text holds as many forms as they need. -/
structure HasForms (locale text : Bytes) : Prop where
  rules : hasPluralRules locale = true
  length : (splitForms text).length = formCount locale

/-- The form of a text that has the number of a count, without the blanks at its ends. How many forms there are is not asked. -/
def formFor? (locale text : Bytes) (n : Int) : Option Bytes :=
  (formIndex? locale n).bind fun i => (splitForms text)[i]?.map Bytes.trim

/-- A text with another form in the place of one. -/
def replaceForm (text : Bytes) (i : Nat) (form : Bytes) : Bytes := [formBar].intercalate ((splitForms text).set i form)

variable {key locale text form : Bytes} {n : Int}

/-! ## Selecting -/

/-- Where no plural rules are known, no text has forms. -/
theorem PluralForms.ofText_of_no_rules (h : hasPluralRules locale = false) (key text : Bytes) :
    PluralForms.ofText key locale text = .error (.unknownLocale locale) := by
  have hfamily : familyOf? locale = none := by
    simpa [hasPluralRules] using h
  rw [PluralForms.ofText, hfamily]

/-- The form selected from the forms of a text is the one for the count. -/
theorem PluralForms.formFor?_of_ofText {p : PluralForms} (h : PluralForms.ofText key locale text = .ok p) (n : Int) :
    formFor? locale text n = some (p.select n) := by
  unfold PluralForms.ofText at h
  split at h
  · cases h
  · rename_i family hfamily
    dsimp only at h
    split at h
    · rename_i hlength
      cases h
      have hi : family.form n < (splitForms text).length := hlength ▸ family.form_lt_formCount n
      simp only [formFor?, formIndex?, hfamily, Option.map_some, Option.bind_some, List.getElem?_eq_getElem hi, select,
        List.get_eq_getElem]
    · cases h

/-- What selecting a form comes to: the fault of the locale, then that of the number of forms, or else the form for the count. -/
inductive Selected (key locale text : Bytes) (n : Int) : Prop
  | unknownLocale : hasPluralRules locale = false → selectForm key locale text n = .error (.unknownLocale locale) →
      Selected key locale text n
  | formCount : hasPluralRules locale = true → (splitForms text).length ≠ Phrasebook.formCount locale →
      selectForm key locale text n =
        .error (.formCount key locale text (splitForms text).length (Phrasebook.formCount locale)) →
      Selected key locale text n
  | form {form : Bytes} : HasForms locale text → formFor? locale text n = some form → selectForm key locale text n = .ok form →
      Selected key locale text n

/-- A form is selected, or there is one of two faults. -/
theorem selected (key locale text : Bytes) (n : Int) : Selected key locale text n := by
  cases hr : hasPluralRules locale with
  | false =>
    refine .unknownLocale hr ?_
    rw [selectForm, PluralForms.ofText_of_no_rules hr]
    rfl
  | true =>
    have hcheck := checkForms_eq hr key text
    rw [checkForms] at hcheck
    by_cases hl : (splitForms text).length = formCount locale
    · rw [if_pos hl] at hcheck
      cases hp : PluralForms.ofText key locale text with
      | error f =>
        rw [hp] at hcheck
        cases hcheck
      | ok p => exact .form ⟨hr, hl⟩ (PluralForms.formFor?_of_ofText hp n) (by rw [selectForm, hp]; rfl)
    · rw [if_neg hl] at hcheck
      cases hp : PluralForms.ofText key locale text with
      | error f =>
        rw [hp] at hcheck
        cases hcheck
        exact .formCount hr hl (by rw [selectForm, hp]; rfl)
      | ok p =>
        rw [hp] at hcheck
        cases hcheck

/-- A form is selected when the text has the forms of the locale, and it is the one for the count. -/
theorem selectForm_eq_ok_iff :
    selectForm key locale text n = .ok form ↔ HasForms locale text ∧ formFor? locale text n = some form := by
  rcases selected key locale text n with ⟨hr, hs⟩ | ⟨-, hl, hs⟩ | ⟨h, hform, hs⟩
  · rw [hs]
    constructor
    · intro h
      cases h
    · rintro ⟨h, -⟩
      rw [h.rules] at hr
      cases hr
  · rw [hs]
    constructor
    · intro h
      cases h
    · rintro ⟨h, -⟩
      exact absurd h.length hl
  · rw [hs, hform, Except.ok.injEq, Option.some.injEq, and_iff_right h]

/-- Whatever the count, a form is selected just when the text has the forms of the locale. -/
theorem exists_selectForm_iff : (∃ form, selectForm key locale text n = .ok form) ↔ HasForms locale text := by
  constructor
  · rintro ⟨form, hform⟩
    exact (selectForm_eq_ok_iff.mp hform).1
  · intro h
    rcases selected key locale text n with ⟨hr, -⟩ | ⟨-, hl, -⟩ | ⟨-, -, hs⟩
    · rw [h.rules] at hr
      cases hr
    · exact absurd h.length hl
    · exact ⟨_, hs⟩

/-! ## Replacing a form -/

/-- A text with a form replaced by a text without a bar has its other forms, and that one in its place. -/
theorem splitForms_replaceForm {i : Nat} (hbar : formBar ∉ form) :
    splitForms (replaceForm text i form) = (splitForms text).set i form := by
  refine List.splitOn_intercalate formBar ?_ ?_
  · intro piece hpiece
    rcases List.mem_or_eq_of_mem_set hpiece with hpiece | rfl
    · exact Bytes.notMem_of_mem_splitOn hpiece
    · exact hbar
  · rw [Ne, List.set_eq_nil_iff]
    exact List.splitOn_ne_nil formBar text

/-- Replacing a form leaves as many. -/
theorem hasForms_replaceForm_iff {i : Nat} (hbar : formBar ∉ form) :
    HasForms locale (replaceForm text i form) ↔ HasForms locale text := by
  have hlength : (splitForms (replaceForm text i form)).length = (splitForms text).length := by
    rw [splitForms_replaceForm hbar, List.length_set]
  constructor
  · intro h
    exact ⟨h.rules, hlength.symm.trans h.length⟩
  · intro h
    exact ⟨h.rules, hlength.trans h.length⟩

/-- Replacing another form leaves the one for a count. -/
theorem formFor?_replaceForm {i : Nat} (hbar : formBar ∉ form) (hi : formIndex? locale n ≠ some i) :
    formFor? locale (replaceForm text i form) n = formFor? locale text n := by
  unfold formFor?
  refine Option.bind_congr fun k hk => ?_
  have hik : i ≠ k := by
    rintro rfl
    exact hi hk
  rw [splitForms_replaceForm hbar, List.getElem?_set_ne hik]

end Phrasebook
