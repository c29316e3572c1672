import Phrasebook.Proofs.Plural.Selection
import Mathlib.Data.List.TakeWhile

/-!
# Locales and their languages

Whether plural rules are known for a locale is a matter of its language alone, and so are the number of its forms and the form for a count.
The functions that tell agree on it (`rulesByLanguage`): there is a number of forms, a form for any count, and no fault of the locale, for
just the locales whose language is a supported one. Where there are rules, the form for a count is one of as many as are needed, so that a
checked text has it.
-/

namespace Phrasebook

variable {locale locale' : Bytes}

/-! ## The language of a locale -/

theorem lowerByte_lowerByte (b : UInt8) : lowerByte (lowerByte b) = lowerByte b := by
  unfold lowerByte
  grind

theorem lowerByte_eq_iff {sep : UInt8} (hsep : sep = 45 ∨ sep = 95) (b : UInt8) : lowerByte b = sep ↔ b = sep := by
  unfold lowerByte
  grind

/-- The language is what the locale in lower case has before its first hyphen or underscore. -/
theorem normalizeLocale_eq (locale : Bytes) :
    normalizeLocale locale = (Bytes.lower locale).takeWhile (fun b => b != 45 && b != 95) := by
  have hends : (fun b => b != 45 && b != 95) ∘ lowerByte = fun b => b != 45 && b != 95 := by
    funext b
    rw [Bool.eq_iff_iff]
    simp [lowerByte_eq_iff]
  rw [normalizeLocale, Bytes.lower, Bytes.lower, List.takeWhile_map, hends]

/-- What stands from a hyphen or an underscore on does not count. -/
theorem normalizeLocale_append {sep : UInt8} (hsep : sep = 45 ∨ sep = 95) (locale rest : Bytes) :
    normalizeLocale (locale ++ sep :: rest) = normalizeLocale locale := by
  have hstop : (sep :: rest).takeWhile (fun b => b != 45 && b != 95) = [] := by
    rcases hsep with rfl | rfl <;> rfl
  rw [normalizeLocale, normalizeLocale, List.takeWhile_append, hstop, List.append_nil]
  split
  · rename_i hlength
    rw [(List.takeWhile_prefix _).eq_of_length hlength]
  · rfl

/-- A language is its own language. -/
theorem normalizeLocale_normalizeLocale (locale : Bytes) : normalizeLocale (normalizeLocale locale) = normalizeLocale locale := by
  rw [normalizeLocale_eq (normalizeLocale locale)]
  have hlower : Bytes.lower (normalizeLocale locale) = normalizeLocale locale := by
    rw [normalizeLocale, Bytes.lower, Bytes.lower, List.map_map]
    exact List.map_congr_left fun b _ => lowerByte_lowerByte b
  rw [hlower, normalizeLocale_eq, List.takeWhile_idem]

/-! ## What is known of a language -/

theorem mem_supportedLanguages_iff : normalizeLocale locale ∈ supportedLanguages ↔ hasPluralRules locale = true := by
  rw [supportedLanguages, List.mem_mergeSort, List.mem_map, hasPluralRules, familyOf?, List.lookup_isSome_iff]
  simp only [beq_iff_eq, @eq_comm _ (normalizeLocale locale)]

theorem formCount_of_familyOf? {family : Family} (h : familyOf? locale = some family) : formCount locale = family.formCount := by
  rw [formCount, h]

/-- Where plural rules are known, the form for a count is one of the forms. -/
theorem exists_formIndex?_lt (h : hasPluralRules locale = true) (n : Int) :
    ∃ i, formIndex? locale n = some i ∧ i < formCount locale := by
  obtain ⟨family, hfamily⟩ := Option.isSome_iff_exists.mp h
  refine ⟨family.form n, ?_, ?_⟩
  · rw [formIndex?, hfamily, Option.map_some]
  · rw [formCount_of_familyOf? hfamily]
    exact family.form_lt_formCount n

/-- A locale needs forms just when plural rules are known for it. -/
theorem formCount_pos_iff : 0 < formCount locale ↔ hasPluralRules locale = true := by
  constructor
  · intro h
    rw [hasPluralRules, Option.isSome_iff_ne_none]
    intro hfamily
    rw [formCount, hfamily] at h
    exact absurd h (Nat.lt_irrefl 0)
  · intro h
    obtain ⟨i, -, hi⟩ := exists_formIndex?_lt h 0
    exact Nat.zero_lt_of_lt hi

/-- Without plural rules, the locale is the fault of any text. -/
theorem checkForms_of_no_rules (h : hasPluralRules locale = false) (key text : Bytes) :
    checkForms key locale text = .error (.unknownLocale locale) := by
  rw [checkForms, PluralForms.ofText_of_no_rules h]
  rfl

/-- A text that was checked has the forms of its locale. -/
theorem hasForms_of_checkForms {key text : Bytes} (h : checkForms key locale text = .ok ()) : HasForms locale text := by
  cases hrules : hasPluralRules locale with
  | false =>
    rw [checkForms_of_no_rules hrules] at h
    cases h
  | true =>
    rw [checkForms_eq hrules] at h
    split at h
    · rename_i hlength
      exact ⟨hrules, hlength⟩
    · cases h

/-- Locales of one language are of one family. -/
theorem familyOf?_congr (h : normalizeLocale locale' = normalizeLocale locale) : familyOf? locale' = familyOf? locale := by
  rw [familyOf?, familyOf?, h]

/-- A text that is checked for locales of one family has no fault, or faults with the same code. -/
theorem code_checkForms_congr (h : familyOf? locale' = familyOf? locale) (key text : Bytes) :
    (checkForms key locale' text).mapError Fault.code = (checkForms key locale text).mapError Fault.code := by
  rw [checkForms, checkForms, PluralForms.ofText, PluralForms.ofText, h]
  cases familyOf? locale with
  | none => rfl
  | some family =>
    dsimp only
    split
    · rfl
    · rfl

/-! ## The rules of a language -/

/-- What it comes to that plural rules are known by the language of a locale. The ways to ask whether they are known agree. Where they are,
the form for a count is one of those that are needed, and a text that was checked has it. Locales of one language have the same forms, and
the same fault, if any; neither the case of the letters nor what stands from the first hyphen or underscore on makes another language. -/
structure RulesByLanguage (locale : Bytes) : Prop where
  forms : 0 < formCount locale ↔ hasPluralRules locale = true
  index : ∀ n, formIndex? locale n ≠ none ↔ hasPluralRules locale = true
  fault : (∀ key text f, checkForms key locale text = .error f → f.code ≠ .unknownLocale) ↔ hasPluralRules locale = true
  supported : normalizeLocale locale ∈ supportedLanguages ↔ hasPluralRules locale = true
  inRange : hasPluralRules locale = true → ∀ n, ∃ i, formIndex? locale n = some i ∧ i < formCount locale
  inBounds : ∀ key text, checkForms key locale text = .ok () →
    ∀ n, ∃ i, formIndex? locale n = some i ∧ i < (splitForms text).length
  language : ∀ locale', normalizeLocale locale' = normalizeLocale locale →
    hasPluralRules locale' = hasPluralRules locale ∧ formCount locale' = formCount locale ∧
      (∀ n, formIndex? locale' n = formIndex? locale n) ∧
      ∀ key text, (checkForms key locale' text).mapError Fault.code = (checkForms key locale text).mapError Fault.code
  letterCase : ∀ locale', Bytes.lower locale' = Bytes.lower locale → normalizeLocale locale' = normalizeLocale locale
  region : ∀ sep ∈ utf8 "-_", ∀ rest, normalizeLocale (locale ++ sep :: rest) = normalizeLocale locale
  normalized : normalizeLocale (normalizeLocale locale) = normalizeLocale locale

/-- Of every locale the plural rules are known by its language. -/
theorem rulesByLanguage (locale : Bytes) : RulesByLanguage locale where
  forms := formCount_pos_iff
  index n := by
    rw [formIndex?, Ne, Option.map_eq_none_iff, hasPluralRules, Option.isSome_iff_ne_none]
  fault := by
    constructor
    · intro h
      rw [← Bool.not_eq_false]
      intro hrules
      exact h [] [] _ (checkForms_of_no_rules hrules [] []) rfl
    · intro hrules key text f hf
      rw [checkForms_eq hrules] at hf
      split at hf
      · cases hf
      · cases hf
        intro hcode
        cases hcode
  supported := mem_supportedLanguages_iff
  inRange := exists_formIndex?_lt
  inBounds := by
    intro key text h n
    have hforms := hasForms_of_checkForms h
    rw [hforms.length]
    exact exists_formIndex?_lt hforms.rules n
  language := by
    intro locale' h
    have hfamily := familyOf?_congr h
    refine ⟨?_, ?_, fun n => ?_, fun key text => ?_⟩
    · rw [hasPluralRules, hasPluralRules, hfamily]
    · rw [formCount, formCount, hfamily]
    · rw [formIndex?, formIndex?, hfamily]
    · exact code_checkForms_congr hfamily key text
  letterCase := by
    intro locale' h
    rw [normalizeLocale_eq, normalizeLocale_eq, h]
  region := by
    intro sep hsep rest
    have hsep : sep = 45 ∨ sep = 95 := by
      simpa using (show sep ∈ [45, 95] from hsep)
    exact normalizeLocale_append hsep locale rest
  normalized := normalizeLocale_normalizeLocale locale

/-- Portuguese as it is written in Brazil is Portuguese, and a checked text has its form for a negative count; of another language no rules
are known. -/
theorem rulesByLanguage_sample :
    hasPluralRules (utf8 "PT_br") = true ∧ checkForms [] (utf8 "PT_br") (utf8 "none|one|some") = .ok () ∧
      (∃ i, formIndex? (utf8 "PT_br") (-7) = some i ∧ i < (splitForms (utf8 "none|one|some")).length) ∧
      formCount (utf8 "PT_br") = formCount (utf8 "pt") ∧ normalizeLocale (utf8 "PT_br") = normalizeLocale (utf8 "pt") ∧
      hasPluralRules (utf8 "tlh") = false ∧ normalizeLocale (utf8 "tlh") ∉ supportedLanguages := by
  have hchecked : checkForms [] (utf8 "PT_br") (utf8 "none|one|some") = .ok () := by rfl
  have hlower : Bytes.lower (utf8 "PT") = Bytes.lower (utf8 "pt") := by decide
  have hlanguage : normalizeLocale (utf8 "PT_br") = normalizeLocale (utf8 "pt") :=
    ((rulesByLanguage (utf8 "PT")).region 95 (by decide) (utf8 "br")).trans ((rulesByLanguage (utf8 "pt")).letterCase (utf8 "PT") hlower)
  refine ⟨by decide, hchecked, (rulesByLanguage _).inBounds _ _ hchecked (-7), ?_, hlanguage, by decide, ?_⟩
  · exact ((rulesByLanguage (utf8 "pt")).language _ hlanguage).2.1
  · rw [(rulesByLanguage _).supported]
    decide

end Phrasebook
