import Phrasebook.Proofs.Plural.Languages
import Phrasebook.Proofs.Trimming
import Mathlib.Data.List.TakeWhile

/-!
# Splitting a text into its forms

The forms of a text are found by looking for one bar after the other (`scanForms`), and they are the only texts without a bar that make up
the text when they are joined by bars (`splitForms_eq_iff`); there is one more of them than there are bars. So the form that is selected
from joined forms is the one with the number of the count, without the blanks at its ends, and a text whose bars are too few or too many for
its locale is at fault (`selectedFromForms`).
-/

namespace Phrasebook

variable {key locale text : Bytes} {n : Int}

/-! ## The scan for bars -/

theorem Bytes.length_lt_of_cutAt? {b : UInt8} {s head rest : Bytes} (h : cutAt? b s = some (head, rest)) : rest.length < s.length := by
  rw [eq_of_cutAt? h, List.length_append, List.length_cons]
  omega

/-- A text that cannot be cut at a byte does not hold it. -/
theorem Bytes.notMem_of_cutAt?_eq_none {b : UInt8} {s : Bytes} (h : cutAt? b s = none) : b ∉ s := by
  unfold cutAt? at h
  split at h
  · rename_i hd
    intro hb
    simpa using List.dropWhile_eq_nil_iff.mp hd b hb
  · cases h

/-- The forms that a scan ends with, the forms found so far and the rest of the text given. What stands before the next bar is a form, and
the scan goes on behind that bar; a rest without a bar is the last form. -/
def scanForms (found : List Bytes) (rest : Bytes) : List Bytes :=
  match hcut : Bytes.cutAt? formBar rest with
  | none => found ++ [rest]
  | some (form, rest') =>
    have := Bytes.length_lt_of_cutAt? hcut
    scanForms (found ++ [form]) rest'
termination_by rest.length

/-- At every point of the scan, the forms found so far and those of the rest are the forms that the scan ends with. -/
theorem scanForms_eq (found : List Bytes) (rest : Bytes) : scanForms found rest = found ++ splitForms rest := by
  fun_induction scanForms found rest with
  | case1 found rest hcut => rw [splitForms, List.splitOn_eq_singleton (Bytes.notMem_of_cutAt?_eq_none hcut)]
  | case2 found rest form rest' hcut _ ih =>
    have hsplit : splitForms rest = form :: splitForms rest' := by
      rw [Bytes.eq_of_cutAt? hcut]
      exact List.splitOn_append_cons_self_of_not_mem (Bytes.notMem_of_cutAt? hcut) rest'
    rw [ih, hsplit, List.append_assoc, List.singleton_append]

/-! ## Bars and forms -/

/-- The forms of a text are the only ones without a bar that, joined by bars, are the text. -/
theorem splitForms_eq_iff {forms : List Bytes} :
    splitForms text = forms ↔ forms ≠ [] ∧ (∀ form ∈ forms, formBar ∉ form) ∧ [formBar].intercalate forms = text := by
  constructor
  · rintro rfl
    exact ⟨List.splitOn_ne_nil formBar text, fun form hform => Bytes.notMem_of_mem_splitOn hform, intercalate_splitForms text⟩
  · rintro ⟨hne, hbar, rfl⟩
    exact List.splitOn_intercalate formBar hbar hne

/-- There is one more form than there are bars. -/
theorem length_splitForms (text : Bytes) : (splitForms text).length = text.count formBar + 1 := by
  unfold splitForms
  induction text with
  | nil => rfl
  | cons b text ih =>
    rw [List.splitOn_cons_eq_if_modifyHead, List.count_cons]
    split
    · rw [List.length_cons, ih]
    · rw [List.length_modifyHead, ih]

/-- A text has the forms of a locale when plural rules are known for it and the bars of the text are one fewer than the forms needed. -/
theorem hasForms_iff_count : HasForms locale text ↔ hasPluralRules locale = true ∧ text.count formBar + 1 = formCount locale := by
  rw [← length_splitForms]
  exact ⟨fun h => ⟨h.rules, h.length⟩, fun h => ⟨h.1, h.2⟩⟩

/-! ## The form that is selected -/

/-- Of joined forms, as many as the locale needs, the one with the number of the count is selected, without the blanks at its ends. -/
theorem selectForm_intercalate {forms : List Bytes} (hrules : hasPluralRules locale = true) (hlength : forms.length = formCount locale)
    (hbar : ∀ form ∈ forms, formBar ∉ form) (key : Bytes) (n : Int) :
    ∃ i form, formIndex? locale n = some i ∧ forms[i]? = some form ∧
      selectForm key locale ([formBar].intercalate forms) n = .ok form.trim := by
  obtain ⟨i, hindex, hi⟩ := exists_formIndex?_lt hrules n
  rw [← hlength] at hi
  have hsplit : splitForms ([formBar].intercalate forms) = forms :=
    splitForms_eq_iff.mpr ⟨List.ne_nil_of_length_pos (Nat.zero_lt_of_lt hi), hbar, rfl⟩
  have hforms : HasForms locale ([formBar].intercalate forms) := ⟨hrules, hsplit.symm ▸ hlength⟩
  refine ⟨i, forms[i], hindex, List.getElem?_eq_getElem hi, selectForm_eq_ok_iff.mpr ⟨hforms, ?_⟩⟩
  rw [formFor?, hindex, hsplit, Option.bind_some, List.getElem?_eq_getElem hi, Option.map_some]

/-- What selecting a form comes to by way of splitting. The scan for bars finds the only forms without a bar that are the text when they are
joined; the forms of a text with a bar in it are those before and those behind it. A form is selected just when the bars are one fewer than
the forms needed, and from joined forms it is the one for the count, of which nothing but the blanks at its ends is taken; otherwise the
locale is at fault, or the text for its number of forms. -/
structure SelectedFromForms (key locale text : Bytes) (n : Int) : Prop where
  scanned : scanForms [] text = splitForms text
  joined : ∀ forms, splitForms text = forms ↔ forms ≠ [] ∧ (∀ form ∈ forms, formBar ∉ form) ∧ [formBar].intercalate forms = text
  empty : splitForms [] = [[]]
  atBar : ∀ text', splitForms (text ++ formBar :: text') = splitForms text ++ splitForms text'
  selects : (∃ form, selectForm key locale text n = .ok form) ↔
    hasPluralRules locale = true ∧ text.count formBar + 1 = formCount locale
  selected : hasPluralRules locale = true → ∀ forms, forms.length = formCount locale → (∀ form ∈ forms, formBar ∉ form) →
    ∃ i before form after, formIndex? locale n = some i ∧ forms[i]? = some (before ++ form ++ after) ∧ before.IsBlanks ∧ after.IsBlanks ∧
      form.IsTrimmed ∧ selectForm key locale ([formBar].intercalate forms) n = .ok form
  unknownLocale : hasPluralRules locale = false →
    ∃ f, selectForm key locale text n = .error f ∧ f.code = .unknownLocale ∧ f.detail = locale
  wrongCount : hasPluralRules locale = true → text.count formBar + 1 ≠ formCount locale →
    ∃ f, selectForm key locale text n = .error f ∧ f.code = .pluralFormCountMismatch ∧ f.detail = text ∧
      numeral (text.count formBar + 1) ++ utf8 " given; need: " ++ numeral (formCount locale) <:+: f.message

/-- Selecting a form from a text is selecting one of the forms that the text splits into, whatever the locale and the count are. -/
theorem selectedFromForms (key locale text : Bytes) (n : Int) : SelectedFromForms key locale text n where
  scanned := scanForms_eq [] text
  joined _ := splitForms_eq_iff
  empty := rfl
  atBar := List.splitOn_append_cons_self text
  selects := by
    rw [exists_selectForm_iff, hasForms_iff_count]
  selected := by
    intro hrules forms hlength hbar
    obtain ⟨i, segment, hindex, hsegment, hselect⟩ := selectForm_intercalate hrules hlength hbar key n
    obtain ⟨before, after, hbefore, hafter, hparts⟩ := Bytes.exists_eq_append_trim_append segment
    exact ⟨i, before, segment.trim, after, hindex, hparts ▸ hsegment, hbefore, hafter, Bytes.isTrimmed_trim segment, hselect⟩
  unknownLocale := by
    intro hrules
    rcases selected key locale text n with ⟨-, hs⟩ | ⟨hr, -, -⟩ | ⟨hforms, -, -⟩
    · exact ⟨_, hs, rfl, rfl⟩
    · rw [hr] at hrules
      cases hrules
    · rw [hforms.rules] at hrules
      cases hrules
  wrongCount := by
    intro hrules hcount
    rcases selected key locale text n with ⟨hr, -⟩ | ⟨-, -, hs⟩ | ⟨hforms, -, -⟩
    · rw [hr] at hrules
      cases hrules
    · rw [← length_splitForms]
      refine ⟨_, hs, rfl, rfl, ?_⟩
      refine ⟨[utf8 "Invalid plural string \"", key, utf8 "\" for locale ", locale, utf8 ": "].flatten,
        [utf8 " (\"", text, utf8 "\")"].flatten, ?_⟩
      simp only [Fault.message, List.flatten_cons, List.flatten_nil, List.append_nil, List.append_assoc]
    · exact absurd (hasForms_iff_count.mp hforms).2 hcount

/-- English needs three forms: of two bars with blanks about, the one in the middle is selected for one; a locale without rules, and a text
with one bar too few, are at fault. -/
theorem selectedFromForms_sample :
    hasPluralRules (utf8 "en_GB") = true ∧ splitForms (utf8 "| one thing | ") = [[], utf8 " one thing ", utf8 " "] ∧
      (∃ i before form after, formIndex? (utf8 "en_GB") 1 = some i ∧
        [[], utf8 " one thing ", utf8 " "][i]? = some (before ++ form ++ after) ∧ before.IsBlanks ∧ after.IsBlanks ∧ form.IsTrimmed ∧
          selectForm [] (utf8 "en_GB") (utf8 "| one thing | ") 1 = .ok form) ∧
      (∃ f, selectForm [] (utf8 "tlh") (utf8 "||") 0 = .error f ∧ f.code = .unknownLocale ∧ f.detail = utf8 "tlh") ∧
      ∃ f, selectForm [] (utf8 "en_GB") (utf8 "a|b") 5 = .error f ∧ f.code = .pluralFormCountMismatch ∧ f.detail = utf8 "a|b" ∧
        utf8 "2 given; need: 3" <:+: f.message := by
  have hrules : hasPluralRules (utf8 "en_GB") = true := by decide
  have hbar : ∀ form ∈ [[], utf8 " one thing ", utf8 " "], formBar ∉ form := by decide
  have htext : utf8 "| one thing | " = [formBar].intercalate [[], utf8 " one thing ", utf8 " "] := by decide
  refine ⟨hrules, ?_, ?_, ?_, ?_⟩
  · exact ((selectedFromForms [] [] _ 0).joined _).mpr ⟨nofun, hbar, htext.symm⟩
  · rw [htext]
    exact (selectedFromForms [] (utf8 "en_GB") [] 1).selected hrules _ (by decide) hbar
  · exact (selectedFromForms [] (utf8 "tlh") (utf8 "||") 0).unknownLocale (by decide)
  · exact (selectedFromForms [] (utf8 "en_GB") (utf8 "a|b") 5).wrongCount hrules (by decide)

end Phrasebook
