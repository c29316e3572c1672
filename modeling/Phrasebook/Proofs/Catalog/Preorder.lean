import Phrasebook.Proofs.Catalog.Passing

/-!
# Checks along a chain of catalogs

A catalog has every id of its own and every message of its own structure, so a check against itself can find fault only with what is wrong
with the catalog on its own (`Catalog.Consistent`): a message that cannot be read, plural entries without plural rules, or with another
number of forms than the locale needs. And what answers the answer to an entry answers the entry (`Catalog.Answers.trans`), so a check need
not go back to the first of a chain of catalogs, as long as they agree on which ids are plural. Together: passing the check is a preorder
on the consistent catalogs (`Catalog.check_preorder`).
-/

namespace Phrasebook

namespace Catalog

/-- A catalog with nothing wrong in itself: the messages that are not plural can be read, and where there are plural ones, the plural rules
of the locale are known and each message has as many forms as they need. -/
structure Consistent (c : Catalog) : Prop where
  readable : ∀ id text, c.isPlural id = false → c.message? id = some text → ∃ m, Message.parse text = .ok m
  rules : (∃ id, c.isPlural id = true) → hasPluralRules c.pluralLocale = true
  forms : ∀ id text, c.isPlural id = true → c.message? id = some text → (splitForms text).length = formCount c.pluralLocale

section

variable {c : Catalog} {id : Bytes} {f : Finding}

/-! ## A catalog against itself -/

/-- No error of a catalog against itself is that an id is missing or that a structure differs. -/
theorem Complains.of_self (h : c.Complains c id f) : (∀ i, f ≠ .missing i) ∧ ∀ i reason, f ≠ .differs i reason := by
  cases h with
  | missing hhas hmissing =>
    rw [hhas] at hmissing
    cases hmissing
  | differs _ hbase htext hm hm' hreason =>
    rw [hbase, Option.some.injEq] at htext
    rw [← htext, hm, Except.ok.injEq] at hm'
    rw [← hm', Message.sameStructure_iff.mp (Message.sameStructure_refl _)] at hreason
    cases hreason
  | noPluralRules => exact ⟨nofun, nofun⟩
  | forms => exact ⟨nofun, nofun⟩
  | unreadableBase => exact ⟨nofun, nofun⟩
  | unreadable => exact ⟨nofun, nofun⟩

/-- The report of a catalog against itself has no warnings, and of the errors none is a missing id or a structure that differs. -/
theorem of_check_self {r : Report} (h : c.check c = .report r) :
    r.extra = [] ∧ ∀ f ∈ r.errors, (∀ i, f ≠ .missing i) ∧ ∀ i reason, f ≠ .differs i reason := by
  by_cases hempty : c.ids = []
  · have hc : c.isEmpty = true := by simpa [ids, isEmpty] using hempty
    rw [check, hc] at h
    cases h
  · rw [check_eq_report hempty hempty, Check.report.injEq] at h
    rw [← h]
    constructor
    · rw [extraIds, List.filter_eq_nil_iff]
      intro i hi
      simp [mem_ids.mp hi]
    · intro f hf
      rw [← map_snd_errorsById] at hf
      obtain ⟨x, hx, rfl⟩ := List.mem_map.mp hf
      exact (mem_errorsById.mp hx).of_self

/-- A catalog answers its own entries when it is consistent. -/
theorem forall_answers_self_iff : (∀ e ∈ c.entries.toList, c.Answers e) ↔ c.Consistent := by
  constructor
  · intro h
    have hanswers : ∀ {id e}, c.find? id = some e → c.Answers e := fun he => h _ (mem_of_find? he)
    refine ⟨?_, ?_, ?_⟩
    · intro id text hp htext
      obtain ⟨e, he, rfl⟩ := Option.map_eq_some_iff.mp htext
      rw [isPlural_of_find? he] at hp
      obtain ⟨t, m, m', -, hm, -⟩ := (hanswers he).exists_sameStructure hp
      exact ⟨m, hm⟩
    · rintro ⟨id, hp⟩
      obtain ⟨e, he⟩ := Option.isSome_iff_exists.mp (Option.isSome_of_any hp)
      rw [isPlural_of_find? he] at hp
      obtain ⟨t, -, hforms⟩ := (hanswers he).exists_hasForms hp
      exact hforms.rules
    · intro id text hp htext
      obtain ⟨e, he, rfl⟩ := Option.map_eq_some_iff.mp htext
      rw [isPlural_of_find? he] at hp
      obtain ⟨t, ht, hforms⟩ := (hanswers he).exists_hasForms hp
      rw [find?_of_mem (mem_of_find? he), Option.some.injEq] at ht
      rw [ht]
      exact hforms.length
  · intro h e he
    have hself := find?_of_mem he
    have hplural := isPlural_of_find? hself
    have htext := message?_of_find? hself
    cases hp : e.isPlural with
    | true =>
      rw [hp] at hplural
      exact .plural hp hself (h.rules ⟨e.id, hplural⟩) (h.forms e.id e.text hplural htext)
    | false =>
      rw [hp] at hplural
      obtain ⟨m, hm⟩ := h.readable e.id e.text hplural htext
      exact .single hp hself hm hm (Message.sameStructure_refl m)

/-- A catalog passes the check against itself when it is consistent and not empty. -/
theorem check_self_code_eq_zero_iff : (c.check c).code = 0 ↔ c.ids ≠ [] ∧ c.Consistent := by
  rw [check_code_eq_zero_iff, forall_answers_self_iff]
  exact ⟨fun h => h.2, fun h => ⟨h.1, h⟩⟩

end

/-! ## Three catalogs in a row -/

/-- What answers the answer to an entry answers the entry, if both entries are plural or neither is. -/
theorem Answers.trans {b c : Catalog} {e t : Entry} (hb : b.Answers e) (ht : b.find? e.id = some t)
    (hp : t.isPlural = e.isPlural) (hc : c.Answers t) : c.Answers e := by
  have hid : t.id = e.id := Entries.id_of_find? ht
  cases hpe : e.isPlural with
  | true =>
    obtain ⟨u, hfind, hforms⟩ := hc.exists_hasForms (hp.trans hpe)
    rw [hid] at hfind
    exact .plural hpe hfind hforms.rules hforms.length
  | false =>
    obtain ⟨u, m₂, m₃, hfind, hm₂, hm₃, hsame⟩ := hc.exists_sameStructure (hp.trans hpe)
    obtain ⟨t', m₁, m₂', hfind', hm₁, hm₂', hsame'⟩ := hb.exists_sameStructure hpe
    rw [hid] at hfind
    rw [ht, Option.some.injEq] at hfind'
    rw [← hfind', hm₂, Except.ok.injEq] at hm₂'
    rw [← hm₂'] at hsame'
    exact .single hpe hfind hm₁ hm₃ (Message.sameStructure_trans hsame' hsame)

/-- A catalog that passes the check against one that passes it against a base passes it against the base, if the middle one has as plural
what the base has. -/
theorem check_code_eq_zero_trans {a b c : Catalog} (hp : ∀ id, a.has id = true → a.isPlural id = b.isPlural id)
    (hab : (b.check a).code = 0) (hbc : (c.check b).code = 0) : (c.check a).code = 0 := by
  obtain ⟨-, ha, hab⟩ := check_code_eq_zero_iff.mp hab
  obtain ⟨hc, -, hbc⟩ := check_code_eq_zero_iff.mp hbc
  refine check_code_eq_zero_iff.mpr ⟨hc, ha, ?_⟩
  intro e he
  have hfind := find?_of_mem he
  obtain ⟨t, ht⟩ := Option.isSome_iff_exists.mp (hab e he).has
  have hplural : t.isPlural = e.isPlural := by
    rw [← isPlural_of_find? ht, ← isPlural_of_find? hfind, hp e.id (has_of_find? hfind)]
  exact (hab e he).trans ht hplural (hbc t (mem_of_find? ht))

/-- The check of a catalog against itself finds no missing id, no structure that differs and nothing to warn of, and it is passed just by
the consistent catalogs that are not empty. A check that is passed against a catalog that passed it against a base would be passed against
the base, too, if base and middle agree on which ids of the base are plural. -/
theorem check_preorder :
    (∀ c : Catalog,
        (∀ r, c.check c = .report r →
          r.extra = [] ∧ ∀ f ∈ r.errors, (∀ id, f ≠ .missing id) ∧ ∀ id reason, f ≠ .differs id reason) ∧
        ((c.check c).code = 0 ↔ c.ids ≠ [] ∧ c.Consistent)) ∧
      ∀ a b c : Catalog, (∀ id, a.has id = true → a.isPlural id = b.isPlural id) →
        (b.check a).code = 0 → (c.check b).code = 0 → (c.check a).code = 0 := by
  refine ⟨?_, ?_⟩
  · intro c
    exact ⟨fun r => of_check_self, check_self_code_eq_zero_iff⟩
  · intro a b c hp hab hbc
    exact check_code_eq_zero_trans hp hab hbc

/-- Three catalogs of locales with two and with four forms, the nodes of a message in three orders, and an id that only the last one has
and that cannot be read. -/
theorem check_preorder_sample :
    ∃ a b c : Catalog, c.ids = [utf8 "m", utf8 "p", utf8 "z"] ∧ (∀ id, a.has id = true → a.isPlural id = b.isPlural id) ∧
      (b.check a).code = 0 ∧ (c.check b).code = 0 ∧ (c.check a).code = 0 ∧ (a.check a).code = 0 := by
  have ha : Message.parse (utf8 "<b>%n%<i/></b> %u%") =
      .ok [.tag (utf8 "b") [.placeholder (utf8 "n"), .voidTag (utf8 "i")], .text (utf8 " "), .placeholder (utf8 "u")] := rfl
  have hb : Message.parse (utf8 "%u% <b><i/>%n%</b>") =
      .ok [.placeholder (utf8 "u"), .text (utf8 " "), .tag (utf8 "b") [.voidTag (utf8 "i"), .placeholder (utf8 "n")]] := rfl
  have hc : Message.parse (utf8 "<b>%n%, <i/></b>%u%") =
      .ok [.tag (utf8 "b") [.placeholder (utf8 "n"), .text (utf8 ", "), .voidTag (utf8 "i")], .placeholder (utf8 "u")] := rfl
  refine ⟨{ metadata := { locale := utf8 "fr" }
            entries := ⟨[⟨utf8 "m", [], utf8 "<b>%n%<i/></b> %u%"⟩, ⟨utf8 "p", utf8 "plural", utf8 "a|b"⟩], by decide⟩ },
          { metadata := { locale := utf8 "ru" }
            entries := ⟨[⟨utf8 "m", [], utf8 "%u% <b><i/>%n%</b>"⟩, ⟨utf8 "p", utf8 "PLURAL", utf8 "a|b|c|d"⟩], by decide⟩ },
          { metadata := { locale := utf8 "tlh", fallback := utf8 "pl-PL" }
            entries := ⟨[⟨utf8 "m", [], utf8 "<b>%n%, <i/></b>%u%"⟩, ⟨utf8 "p", [], utf8 "|<|b|"⟩, ⟨utf8 "z", [], utf8 "</b>"⟩],
              by decide⟩ },
          by decide, ?agree, ?ab, ?bc, check_preorder.2 _ _ _ ?agree ?ab ?bc,
          (check_preorder.1 _).2.mpr ⟨by decide, forall_answers_self_iff.mp ?self⟩⟩
  case agree =>
    intro id hid
    rw [← mem_ids] at hid
    revert id
    decide
  case ab =>
    refine check_code_eq_zero_iff.mpr ⟨by decide, by decide, ?_⟩
    refine List.forall_mem_cons.mpr ⟨.single rfl rfl ha hb (by decide), ?_⟩
    exact List.forall_mem_cons.mpr ⟨.plural (by decide) rfl (by decide) (by decide), by simp⟩
  case bc =>
    refine check_code_eq_zero_iff.mpr ⟨by decide, by decide, ?_⟩
    refine List.forall_mem_cons.mpr ⟨.single rfl rfl hb hc (by decide), ?_⟩
    exact List.forall_mem_cons.mpr ⟨.plural (by decide) rfl (by decide) (by decide), by simp⟩
  case self =>
    refine List.forall_mem_cons.mpr ⟨.single rfl rfl ha ha (by decide), ?_⟩
    exact List.forall_mem_cons.mpr ⟨.plural (by decide) rfl (by decide) (by decide), by simp⟩

end Catalog

end Phrasebook
