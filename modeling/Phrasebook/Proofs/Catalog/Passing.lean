import Phrasebook.Proofs.Catalog.CountedPhrase
import Phrasebook.Proofs.Catalog.Report
import Phrasebook.Proofs.Structure.Rendering

/-!
# What passing a check is worth

A catalog that passes the check against a base answers every entry of the base (`Catalog.Answers`): with as many plural forms as its
locale needs, or with a message of the same structure. So whatever the values are, its phrases cannot fail but for a missing value, and
not even for that where the base has its phrase (`Catalog.standsIn_of_check`).
-/

namespace Phrasebook

namespace Catalog

/-- A catalog answers an entry of a base: it has the id, and there as many plural forms as its locale needs, or else a message with the
structure of that of the base. -/
inductive Answers (c : Catalog) (e : Entry) : Prop
  | plural {t : Entry} : e.isPlural = true → c.find? e.id = some t → hasPluralRules c.pluralLocale = true →
      (splitForms t.text).length = formCount c.pluralLocale → Answers c e
  | single {t : Entry} {m m' : Message} : e.isPlural = false → c.find? e.id = some t → Message.parse e.text = .ok m →
      Message.parse t.text = .ok m' → m.sameStructure m' = true → Answers c e

section

variable {c base : Catalog} {id : Bytes} {e : Entry}

/-- A check is passed when neither catalog is empty and there is no error to report. -/
theorem check_code_eq_zero_iff_findings :
    (c.check base).code = 0 ↔ c.ids ≠ [] ∧ base.ids ≠ [] ∧ c.findings false base.entries.toList = [] := by
  by_cases hempty : c.ids = [] ∨ base.ids = []
  · have h : (c.isEmpty || base.isEmpty) = true := by simpa [ids, isEmpty] using hempty
    rw [check, if_pos h]
    rcases hempty with hc | hb
    · simp [Check.code, hc]
    · simp [Check.code, hb]
  · obtain ⟨hc, hb⟩ := not_or.mp hempty
    rw [check_eq_report hc hb, Check.code, Report.code]
    simp [hc, hb]

/-- A catalog without errors against a base answers every entry of the base. -/
theorem answers_of_findings_eq_nil (h : c.findings false base.entries.toList = []) (hb : base.find? e.id = some e) :
    c.Answers e := by
  have hno : ∀ id f, ¬c.Complains base id f := by
    intro id f
    rw [← map_snd_errorsById, List.map_eq_nil_iff] at h
    rw [← mem_errorsById, h]
    exact List.not_mem_nil
  have hbm := message?_of_find? hb
  cases hc : c.find? e.id with
  | none => exact absurd (.missing (has_of_find? hb) (by simp [has, hc])) (hno e.id _)
  | some t =>
    have hcm := message?_of_find? hc
    cases hp : e.isPlural with
    | true =>
      have hbp : base.isPlural e.id = true := (isPlural_of_find? hb).trans hp
      have hr : hasPluralRules c.pluralLocale = true := by
        by_contra hr
        cases hfirst : c.firstPlural? base with
        | none =>
          have hany := List.any_eq_false.mp (firstPlural?_eq_none_iff.mp hfirst) e.id (mem_ids.mpr (has_of_find? hb))
          simp [hbp, has_of_find? hc] at hany
        | some first => exact hno first _ (.noPluralRules (by simpa using hr) hfirst)
      refine .plural hp hc hr ?_
      by_contra hl
      exact hno e.id _ (.forms hbp hcm hr hl)
    | false =>
      have hbp : base.isPlural e.id = false := (isPlural_of_find? hb).trans hp
      cases hm : Message.parse e.text with
      | error f => exact absurd (.unreadableBase hbp hbm (has_of_find? hc) hm) (hno e.id _)
      | ok m =>
        cases hm' : Message.parse t.text with
        | error f => exact absurd (.unreadable hbp hbm hcm hm hm') (hno e.id _)
        | ok m' =>
          refine .single hp hc hm hm' (Message.sameStructure_iff.mpr ?_)
          cases hreason : m.mismatch? m' with
          | none => rfl
          | some reason => exact absurd (.differs hbp hbm hcm hm hm' hreason) (hno e.id _)

/-- Nothing is said of an entry that is answered. -/
theorem Answers.complaint?_eq_none (h : c.Answers e) (first : Option Bytes) : c.complaint? first e = none := by
  cases h with
  | plural hp hc hr hl => rw [complaint?_of_some hc fun _ => hr, Entry.finding?_of_isPlural hp hr, if_pos hl]
  | single hp hc hm hm' hs =>
    rw [complaint?_of_some hc fun h => by simp [hp] at h, Entry.finding?_of_readable hp hm hm', Message.sameStructure_iff.mp hs]
    rfl

/-- A catalog passes the check against a base when neither is empty and it answers every entry of the base. -/
theorem check_code_eq_zero_iff :
    (c.check base).code = 0 ↔ c.ids ≠ [] ∧ base.ids ≠ [] ∧ ∀ e ∈ base.entries.toList, c.Answers e := by
  rw [check_code_eq_zero_iff_findings]
  refine and_congr_right fun _ => and_congr_right fun _ => ?_
  constructor
  · intro h e he
    exact answers_of_findings_eq_nil h (find?_of_mem he)
  · intro h
    rw [findings_eq, List.filterMap_eq_nil_iff]
    intro e he
    exact (h e he).complaint?_eq_none _

theorem phrase_of_parse {t : Entry} {m : Message} (hc : c.find? id = some t) (hm : Message.parse t.text = .ok m)
    (vs : Values Bytes) : c.phrase id vs = m.renderText vs := by
  rw [phrase, message?_of_find? hc]
  simp only [renderSource, hm]

/-- An id without an entry has its marker for a phrase. -/
theorem phrase_of_not_has (h : c.has id = false) (vs : Values Bytes) : c.phrase id vs = .ok (missingMarker id) := by
  have hc : c.find? id = none := by simpa [has] using h
  rw [phrase, message?, hc]
  rfl

end

/-- What can be relied on where a catalog stands in for a base, whatever the values are. The catalog has every id of the base, so the
phrases of one are those of its text and never the marker of a missing id. For an id that is not plural in the base only a missing value
is a fault, unless the catalog alone has the id, and there is none unless the base lacks that value, too. For a plural id the form is
always found. -/
structure StandsIn (c base : Catalog) : Prop where
  has : ∀ id, base.has id = true → c.has id = true
  phrase_of_text : ∀ id, base.has id = true → ∃ text, c.message? id = some text ∧
    (∀ vs, c.phrase id vs = renderSource vs text) ∧
    ∀ n vs, c.phraseForCount id n vs = (selectForm id c.pluralLocale text n).bind (renderSource (vs.withCount n))
  phrase_fault : ∀ id, base.isPlural id = false → (base.has id = true ∨ c.has id = false) → ∀ vs f,
    c.phrase id vs = .error f → f.code = .missingValue
  phrase_ok : ∀ id, base.isPlural id = false → ∀ vs, (∃ out, c.phrase id vs = .ok out) → ∃ out, base.phrase id vs = .ok out
  phraseForCount_fault : ∀ id, base.isPlural id = true → ∀ n vs f, c.phraseForCount id n vs = .error f →
    f.code ≠ .unknownLocale ∧ f.code ≠ .pluralFormCountMismatch

section

variable {c base : Catalog} {id : Bytes} {e : Entry} {vs : Values Bytes} {f : Fault}

theorem Answers.has (h : c.Answers e) : c.has e.id = true := by
  cases h with
  | plural _ hc => exact has_of_find? hc
  | single _ hc => exact has_of_find? hc

/-- A catalog answers a plural entry by a text with the forms of its locale. -/
theorem Answers.exists_hasForms (h : c.Answers e) (hp : e.isPlural = true) :
    ∃ t, c.find? e.id = some t ∧ HasForms c.pluralLocale t.text := by
  cases h with
  | plural _ hc hr hl => exact ⟨_, hc, hr, hl⟩
  | single hp' =>
    rw [hp] at hp'
    cases hp'

/-- A catalog answers an entry that is not plural by a message with its structure. -/
theorem Answers.exists_sameStructure (h : c.Answers e) (hp : e.isPlural = false) :
    ∃ t m m', c.find? e.id = some t ∧ Message.parse e.text = .ok m ∧ Message.parse t.text = .ok m' ∧
      m.sameStructure m' = true := by
  cases h with
  | plural hp' =>
    rw [hp] at hp'
    cases hp'
  | single _ hc hm hm' hs => exact ⟨_, _, _, hc, hm, hm', hs⟩

/-- Where a catalog answers an entry that is not plural, only a missing value is a fault. -/
theorem Answers.code_of_phrase_error (h : c.Answers e) (hp : e.isPlural = false) (hf : c.phrase e.id vs = .error f) :
    f.code = .missingValue := by
  obtain ⟨t, m, m', hc, -, hm', -⟩ := h.exists_sameStructure hp
  rw [phrase_of_parse hc hm'] at hf
  obtain ⟨u, -, rfl⟩ := Message.of_renderText_error hf
  rfl

/-- Where a catalog answers an entry that is not plural and has its phrase, the base has its phrase. -/
theorem Answers.exists_phrase (h : c.Answers e) (hb : base.find? e.id = some e) (hp : e.isPlural = false)
    (hc : ∃ out, c.phrase e.id vs = .ok out) : ∃ out, base.phrase e.id vs = .ok out := by
  obtain ⟨t, m, m', hct, hm, hm', hs⟩ := h.exists_sameStructure hp
  rw [phrase_of_parse hct hm', Message.exists_renderText_iff] at hc
  rw [phrase_of_parse hb hm, Message.exists_renderText_iff]
  exact hc.of_sameStructure hs

/-- Where a catalog answers a plural entry, its form for a count is found. -/
theorem Answers.code_of_phraseForCount_error (h : c.Answers e) (hp : e.isPlural = true) {n : Int}
    (hf : c.phraseForCount e.id n vs = .error f) : f.code ≠ .unknownLocale ∧ f.code ≠ .pluralFormCountMismatch := by
  obtain ⟨t, hc, hforms⟩ := h.exists_hasForms hp
  cases countFault_of_phraseForCount (message?_of_find? hc) hf with
  | unknownLocale hr =>
    rw [hforms.rules] at hr
    cases hr
  | formCount _ hl => exact absurd hforms.length hl
  | unbalancedTags => exact ⟨nofun, nofun⟩
  | missingValue => exact ⟨nofun, nofun⟩

/-- A catalog that answers every entry of a base stands in for it. -/
theorem standsIn_of_answers (h : ∀ e ∈ base.entries.toList, c.Answers e) : c.StandsIn base := by
  have hentry : ∀ {id}, base.has id = true → ∃ e, base.find? id = some e ∧ e.id = id ∧ c.Answers e := by
    intro id hid
    obtain ⟨e, he⟩ := Option.isSome_iff_exists.mp hid
    exact ⟨e, he, Entries.id_of_find? he, h e (mem_of_find? he)⟩
  have hhas : ∀ id, base.has id = true → c.has id = true := by
    intro id hid
    obtain ⟨e, -, rfl, ha⟩ := hentry hid
    exact ha.has
  refine ⟨hhas, ?_, ?_, ?_, ?_⟩
  · intro id hid
    obtain ⟨t, ht⟩ := Option.isSome_iff_exists.mp (hhas id hid)
    exact ⟨t.text, message?_of_find? ht, fun vs => by rw [phrase, message?_of_find? ht],
      fun n vs => phraseForCount_of_message? (message?_of_find? ht) n vs⟩
  · intro id hp hid vs f hf
    rcases hid with hid | hid
    · obtain ⟨e, he, rfl, ha⟩ := hentry hid
      exact ha.code_of_phrase_error ((isPlural_of_find? he).symm.trans hp) hf
    · rw [phrase_of_not_has hid] at hf
      cases hf
  · intro id hp vs hout
    cases hid : base.has id with
    | false => exact ⟨_, phrase_of_not_has hid vs⟩
    | true =>
      obtain ⟨e, he, rfl, ha⟩ := hentry hid
      exact ha.exists_phrase he ((isPlural_of_find? he).symm.trans hp) hout
  · intro id hp n vs f hf
    obtain ⟨e, he, rfl, ha⟩ := hentry (Option.isSome_of_any hp)
    exact ha.code_of_phraseForCount_error ((isPlural_of_find? he).symm.trans hp) hf

/-- A catalog that passes the check against a base stands in for it. -/
theorem standsIn_of_check (h : (c.check base).code = 0) : c.StandsIn base :=
  standsIn_of_answers (check_code_eq_zero_iff.mp h).2.2

end

/-- A catalog that has as many plural forms as its locale needs, where the base has another number, a message with its nodes in another
order, and an id of its own that cannot be read. -/
theorem standsIn_of_check_sample :
    ∃ c base : Catalog, base.ids = [utf8 "a", utf8 "p"] ∧ c.ids = [utf8 "a", utf8 "p", utf8 "z"] ∧
      base.isPlural (utf8 "a") = false ∧ base.isPlural (utf8 "p") = true ∧ (c.check base).code = 0 ∧ c.StandsIn base := by
  refine ⟨{ metadata := { locale := utf8 "ru-RU" }
            entries := ⟨[⟨utf8 "a", [], utf8 "%m% <b>x<i>%n%</i></b>"⟩, ⟨utf8 "p", [], utf8 "a|b|c|<d"⟩,
              ⟨utf8 "z", [], utf8 "<b>"⟩], by decide⟩ },
          { metadata := { locale := utf8 "en" }
            entries := ⟨[⟨utf8 "a", [], utf8 "<b><i>%n%</i></b>, %m%"⟩, ⟨utf8 "p", utf8 "Plural", utf8 "a|b|c"⟩], by decide⟩ },
          by decide, by decide, by decide, by decide, ?_⟩
  have hm : Message.parse (utf8 "<b><i>%n%</i></b>, %m%") =
      .ok [.tag (utf8 "b") [.tag (utf8 "i") [.placeholder (utf8 "n")]], .text (utf8 ", "), .placeholder (utf8 "m")] := rfl
  have hm' : Message.parse (utf8 "%m% <b>x<i>%n%</i></b>") =
      .ok [.placeholder (utf8 "m"), .text (utf8 " "),
        .tag (utf8 "b") [.text (utf8 "x"), .tag (utf8 "i") [.placeholder (utf8 "n")]]] := rfl
  refine ⟨?code, standsIn_of_check ?code⟩
  refine check_code_eq_zero_iff.mpr ⟨by decide, by decide, ?_⟩
  refine List.forall_mem_cons.mpr ⟨.single rfl rfl hm hm' (by decide), ?_⟩
  exact List.forall_mem_cons.mpr ⟨.plural (by decide) rfl (by decide) (by decide), by simp⟩

end Catalog

end Phrasebook
