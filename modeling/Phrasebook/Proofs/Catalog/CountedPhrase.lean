import Phrasebook.Handle
import Phrasebook.Proofs.Plural.Selection
import Phrasebook.Proofs.Rendering.Parts

/-!
# The phrase of an id for a count

The phrase of an id for a count takes four stages, and the first that fails gives the fault (`CountFault`): plural rules must be known for
the locale, the text must have as many forms as they need, the form for the count must be one that can be read, and each node of it must
have its value, where the count is one of the values unless the caller binds its name. The forms for other counts play no part, so they may
hold anything but a bar. `Handle.phrasedForCount` puts this together for a handle that has the id.
-/

namespace Phrasebook

/-- The fault of the first stage that fails for the phrase of a text for a count. -/
inductive CountFault (key locale text : Bytes) (n : Int) (vs : Values Bytes) : Fault → Prop
  | unknownLocale : hasPluralRules locale = false → CountFault key locale text n vs (.unknownLocale locale)
  | formCount : hasPluralRules locale = true → (splitForms text).length ≠ Phrasebook.formCount locale →
      CountFault key locale text n vs
        (.formCount key locale text (splitForms text).length (Phrasebook.formCount locale))
  | unbalancedTags {form : Bytes} : HasForms locale text → formFor? locale text n = some form → Message.read? form = none →
      CountFault key locale text n vs (.unbalancedTags form)
  | missingValue {form : Bytes} {m : Message} {u : Node} : HasForms locale text → formFor? locale text n = some form →
      Message.parse form = .ok m → m.postOrder.find? (vs.withCount n).lacks = some u →
      CountFault key locale text n vs (.missingValue u.name)

/-- With the count, its name has the count for a value where it has none without, and no other name is affected. -/
theorem Values.find?_withCount (vs : Values Bytes) (n : Int) (name : Bytes) :
    (vs.withCount n).find? name =
      if name = countName ∧ vs.find? countName = none then some (.integer n) else vs.find? name := by
  rw [withCount, find?_bindIfFree]
  by_cases hname : name = countName
  · cases hv : vs.find? countName with
    | none => simp [hname]
    | some v => simp [hname, hv]
  · simp [hname]

namespace Catalog

variable {c d : Catalog} {id text : Bytes} {n : Int} {vs : Values Bytes} {out : Bytes} {f : Fault}

/-- The phrase of an id for a count is that of the form selected from its text for the count. -/
theorem phraseForCount_of_message? (htext : c.message? id = some text) (n : Int) (vs : Values Bytes) :
    c.phraseForCount id n vs = (selectForm id c.pluralLocale text n).bind (renderSource (vs.withCount n)) := by
  simp only [phraseForCount, htext]
  cases selectForm id c.pluralLocale text n <;> rfl

/-- The phrase of an id for a count is the text of the message of the form for the count. -/
theorem phraseForCount_eq_ok_iff (htext : c.message? id = some text) :
    c.phraseForCount id n vs = .ok out ↔
      HasForms c.pluralLocale text ∧ ∃ form m, formFor? c.pluralLocale text n = some form ∧ Message.parse form = .ok m ∧
        m.renderText (vs.withCount n) = .ok out := by
  rw [phraseForCount_of_message? htext]
  constructor
  · intro h
    cases hs : selectForm id c.pluralLocale text n with
    | error f =>
      rw [hs] at h
      cases h
    | ok form =>
      obtain ⟨hforms, hform⟩ := selectForm_eq_ok_iff.mp hs
      rw [hs, Except.bind, renderSource] at h
      split at h
      · rename_i m hm
        exact ⟨hforms, form, m, hform, hm, h⟩
      · cases h
  · rintro ⟨hforms, form, m, hform, hm, hout⟩
    rw [selectForm_eq_ok_iff.mpr ⟨hforms, hform⟩, Except.bind, renderSource, hm]
    exact hout

/-- Without a phrase for a count, the fault is that of the first stage that fails. -/
theorem countFault_of_phraseForCount (htext : c.message? id = some text) (h : c.phraseForCount id n vs = .error f) :
    CountFault id c.pluralLocale text n vs f := by
  rw [phraseForCount_of_message? htext] at h
  rcases selected id c.pluralLocale text n with ⟨hr, hs⟩ | ⟨hr, hl, hs⟩ | ⟨hforms, hform, hs⟩
  · rw [hs] at h
    cases h
    exact .unknownLocale hr
  · rw [hs] at h
    cases h
    exact .formCount hr hl
  · rw [hs, Except.bind, renderSource] at h
    split at h
    · rename_i m hm
      obtain ⟨u, hu, rfl⟩ := Message.of_renderText_error h
      exact .missingValue hforms hform hm hu
    · rename_i g hg
      obtain ⟨hread, rfl⟩ := Message.parse_eq_error_iff.mp hg
      cases h
      exact .unbalancedTags hforms hform hread

/-- An id has the same phrases for a count in two catalogs of one locale whose texts differ in a form for other counts. -/
theorem phraseForCount_eq_ok_iff_of_replaceForm {i : Nat} {form : Bytes} (hlocale : d.pluralLocale = c.pluralLocale)
    (hbar : formBar ∉ form) (hi : formIndex? c.pluralLocale n ≠ some i) (htext : c.message? id = some text)
    (htext' : d.message? id = some (replaceForm text i form)) :
    d.phraseForCount id n vs = .ok out ↔ c.phraseForCount id n vs = .ok out := by
  rw [phraseForCount_eq_ok_iff htext, phraseForCount_eq_ok_iff htext', hlocale, hasForms_replaceForm_iff hbar,
    formFor?_replaceForm hbar hi]

end Catalog

namespace Handle

/-- What is to be expected of the phrase of an id with a text for a count. There is one just when the text has the forms of the locale, the
form for the count can be read, and each node of it has its value; it is then what the nodes of that form become. The count is among the
values where its name is not bound. The form is chosen by the count alone, and what stands in place of another form makes no difference.
Without a phrase, the fault of the first stage that fails is the last error. The catalog stays as it is. -/
structure PhrasedForCount (h : Handle) (id text : Bytes) (n : Int) : Prop where
  success : ∀ vs, (∃ out, (h.phraseForCount id n vs).2 = some out) ↔
    HasForms h.catalog.pluralLocale text ∧ ∃ form m, formFor? h.catalog.pluralLocale text n = some form ∧
      Message.parse form = .ok m ∧ (vs.withCount n).Cover m
  output : ∀ vs out, (h.phraseForCount id n vs).2 = some out →
    ∃ form m parts, formFor? h.catalog.pluralLocale text n = some form ∧ Message.parse form = .ok m ∧
      List.Forall₂ (Node.Becomes (vs.withCount n)) m parts ∧ out = parts.flatMap Part.toText
  values : ∃ count : Value Bytes, count.isFunction = false ∧ count.toText = signedNumeral n ∧
    ∀ (vs : Values Bytes) (name : Bytes), (vs.withCount n).find? name =
      if name = countName ∧ vs.find? countName = none then some count else vs.find? name
  otherForms : ∀ (g : Handle) (i : Nat) (form : Bytes), g.catalog.pluralLocale = h.catalog.pluralLocale →
    g.catalog.message? id = some (replaceForm text i form) → formBar ∉ form → formIndex? h.catalog.pluralLocale n ≠ some i →
    ∀ vs, (g.phraseForCount id n vs).2 = (h.phraseForCount id n vs).2
  fault : ∀ vs, (h.phraseForCount id n vs).2 = none →
    ∃ f, CountFault id h.catalog.pluralLocale text n vs f ∧ (h.phraseForCount id n vs).1.lastError = f.lastError
  catalog : ∀ vs, (h.phraseForCount id n vs).1.catalog = h.catalog

/-- The phrase of an id for a count is as is to be expected. -/
theorem phrasedForCount {h : Handle} {id text : Bytes} (htext : h.catalog.message? id = some text) (n : Int) :
    h.PhrasedForCount id text n where
  success := by
    intro vs
    simp only [phraseForCount, settle_snd_eq_some_iff, Catalog.phraseForCount_eq_ok_iff htext]
    constructor
    · rintro ⟨out, hforms, form, m, hform, hm, hout⟩
      exact ⟨hforms, form, m, hform, hm, Message.exists_renderText_iff.mp ⟨out, hout⟩⟩
    · rintro ⟨hforms, form, m, hform, hm, hcover⟩
      obtain ⟨out, hout⟩ := Message.exists_renderText_iff.mpr hcover
      exact ⟨out, hforms, form, m, hform, hm, hout⟩
  output := by
    intro vs out hout
    rw [phraseForCount, settle_snd_eq_some_iff, Catalog.phraseForCount_eq_ok_iff htext] at hout
    obtain ⟨-, form, m, hform, hm, hout⟩ := hout
    obtain ⟨-, parts, hparts, hout⟩ := Message.renderText_eq_ok_iff.mp hout
    exact ⟨form, m, parts, hform, hm, hparts, hout⟩
  values := ⟨.integer n, rfl, rfl, fun vs name => vs.find?_withCount n name⟩
  otherForms := by
    intro g i form hlocale htext' hbar hi vs
    refine Option.ext fun out => ?_
    rw [phraseForCount, phraseForCount, settle_snd_eq_some_iff, settle_snd_eq_some_iff]
    exact Catalog.phraseForCount_eq_ok_iff_of_replaceForm hlocale hbar hi htext htext'
  fault := by
    intro vs hnone
    obtain ⟨f, hf, hlast⟩ := lastError_of_settle_snd hnone
    exact ⟨f, Catalog.countFault_of_phraseForCount htext hf, hlast⟩
  catalog := fun vs => catalog_settle h _

/-- A text whose forms are chosen by the rules of the fallback. One form has the count for its only value, so there is always a phrase where
that form is chosen; another has unbalanced tags, may have others in their place, and never gives a phrase. -/
theorem phrasedForCount_sample :
    ∃ (h g : Handle) (id text : Bytes), h.catalog.message? id = some text ∧ h.PhrasedForCount id text 3 ∧
      formFor? h.catalog.pluralLocale text 3 = some (utf8 "%count% files") ∧
      (∀ vs, ∃ out, (h.phraseForCount id 3 vs).2 = some out) ∧ (∀ vs, (h.phraseForCount id 21 vs).2 = none) ∧
      g.catalog.message? id = some (replaceForm text 1 (utf8 "<i></b>")) ∧
      ∀ vs, (g.phraseForCount id 3 vs).2 = (h.phraseForCount id 3 vs).2 := by
  have hm : Message.parse (utf8 "%count% files") = .ok [.placeholder countName, .text (utf8 " files")] := rfl
  refine ⟨{ catalog := { metadata := { locale := utf8 "tlh", fallback := utf8 "ru_RU" }
                         entries := ⟨[⟨utf8 "p", [], utf8 "none|<b>| %count% files |%n%"⟩], by decide⟩ } },
          { catalog := { metadata := { locale := utf8 "ru_RU" }
                         entries := ⟨[⟨utf8 "p", [], utf8 "none|<i></b>| %count% files |%n%"⟩], by decide⟩ } },
          utf8 "p", utf8 "none|<b>| %count% files |%n%", ?text, phrasedForCount ?text 3, by decide,
          fun vs => ((phrasedForCount ?text 3).success vs).mpr ⟨⟨by decide, by decide⟩, _, _, by decide, hm, ?cover⟩,
          fun vs => Option.eq_none_iff_forall_ne_some.mpr fun out hout =>
            absurd ((phrasedForCount ?text 21).output vs out hout) ?never,
          by decide, (phrasedForCount ?text 3).otherForms _ 1 (utf8 "<i></b>") (by decide) (by decide) (by decide) (by decide)⟩
  case text => decide
  case cover =>
    intro u hu hnamed
    have hu : u = .placeholder countName ∨ u = .text (utf8 " files") := by simpa [Message.postOrder, Node.postOrder] using hu
    rcases hu with rfl | rfl
    · rw [Values.find?_withCount]
      cases hv : vs.find? countName with
      | none => exact ⟨_, if_pos ⟨rfl, rfl⟩⟩
      | some v => exact ⟨v, by simp [Node.name, hv]⟩
    · cases hnamed
  case never =>
    rintro ⟨form, m, -, hform, hparse, -⟩
    have hunbalanced : formFor? (utf8 "ru_RU") (utf8 "none|<b>| %count% files |%n%") 21 = some (utf8 "<b>") := by decide
    rw [show Catalog.pluralLocale _ = utf8 "ru_RU" by decide, hunbalanced, Option.some.injEq] at hform
    rw [← hform] at hparse
    cases hparse

end Handle

end Phrasebook
