import Phrasebook.Catalog.Check
import Mathlib.Data.List.Find

/-!
# The findings of a check

A check goes over the entries of the base once and remembers whether the lack of plural rules was said. What it says of an entry can
be told without that (`Catalog.complaint?`): the lack of plural rules is said at the first plural entry of the base that the catalog
has, and nowhere else. So the findings are what is said of each entry (`Catalog.findings_eq`).
-/

namespace Phrasebook

/-! ## What is wrong with a text -/

section

variable {e : Entry} {locale text : Bytes} {m m' : Message} {f : Fault}

/-- What is wrong with a plural text is that it does not have as many forms as its locale needs. -/
theorem Entry.finding?_of_isPlural (hp : e.isPlural = true) (hr : hasPluralRules locale = true) (text : Bytes) :
    e.finding? locale text =
      if (splitForms text).length = formCount locale then none
      else some (.faulty e.id (.formCount e.id locale text (splitForms text).length (formCount locale))) := by
  rw [Entry.finding?, if_pos hp, checkForms_eq hr]
  by_cases h : (splitForms text).length = formCount locale
  · rw [if_pos h, if_pos h]
  · rw [if_neg h, if_neg h]

theorem Entry.finding?_of_unreadableBase (hp : e.isPlural = false) (hm : Message.parse e.text = .error f) :
    e.finding? locale text = some (.unreadableBase e.id f) := by
  rw [Entry.finding?, hp, hm]
  rfl

theorem Entry.finding?_of_unreadable (hp : e.isPlural = false) (hm : Message.parse e.text = .ok m)
    (hm' : Message.parse text = .error f) : e.finding? locale text = some (.faulty e.id f) := by
  rw [Entry.finding?, hp, hm, hm']
  rfl

theorem Entry.finding?_of_readable (hp : e.isPlural = false) (hm : Message.parse e.text = .ok m)
    (hm' : Message.parse text = .ok m') : e.finding? locale text = (m.mismatch? m').map (.differs e.id) := by
  rw [Entry.finding?, hp, hm, hm']
  rfl

end

namespace Catalog

/-! ## Ids -/

/-- The ids of a catalog, in increasing order. -/
def ids (c : Catalog) : List Bytes := c.entries.toList.map Entry.id

/-- The first id of a base that is plural there and that the catalog has. -/
def firstPlural? (c base : Catalog) : Option Bytes := base.ids.find? fun id => base.isPlural id && c.has id

theorem ids_increasing (c : Catalog) : c.ids.Pairwise (· < ·) := List.pairwise_map.mpr c.entries.sorted

theorem nodup_ids (c : Catalog) : c.ids.Nodup := by
  refine c.ids_increasing.imp ?_
  rintro a _ hlt rfl
  exact List.lt_irrefl a hlt

section

variable {c base : Catalog} {id : Bytes} {e : Entry}

theorem mem_of_find? (h : c.find? id = some e) : e ∈ c.entries.toList := (Entries.find?_eq_some_iff.mp h).1

theorem find?_of_mem (h : e ∈ c.entries.toList) : c.find? e.id = some e := Entries.find?_eq_some_iff.mpr ⟨h, rfl⟩

/-- A catalog has its ids, and no other. -/
theorem mem_ids : id ∈ c.ids ↔ c.has id = true := by
  rw [ids, List.mem_map, has, Option.isSome_iff_exists]
  constructor
  · rintro ⟨e, he, rfl⟩
    exact ⟨e, find?_of_mem he⟩
  · rintro ⟨e, he⟩
    exact ⟨e, mem_of_find? he, Entries.id_of_find? he⟩

theorem isPlural_of_find? (h : c.find? id = some e) : c.isPlural id = e.isPlural := by simp [isPlural, h]

theorem message?_of_find? (h : c.find? id = some e) : c.message? id = some e.text := by simp [message?, h]

theorem has_of_find? (h : c.find? id = some e) : c.has id = true := by simp [has, h]

theorem of_firstPlural? (h : c.firstPlural? base = some id) : base.isPlural id = true ∧ c.has id = true := by
  simpa using List.find?_some h

/-- There is no first plural id just when there is none at all. -/
theorem firstPlural?_eq_none_iff :
    c.firstPlural? base = none ↔ (base.ids.any fun id => base.isPlural id && c.has id) = false := by
  rw [firstPlural?, List.find?_eq_none, List.any_eq_false]

/-- The first plural id can be searched for among the entries of the base. -/
theorem firstPlural?_eq (c base : Catalog) :
    c.firstPlural? base = (base.entries.toList.find? fun e => e.isPlural && c.has e.id).map Entry.id := by
  rw [firstPlural?, ids, List.find?_map]
  refine congrArg _ (List.find?_congr fun e he => ?_)
  simp [isPlural, find?_of_mem he]

end

/-! ## What is said of an entry -/

/-- What is said of an entry of a base, given the first plural id of the base that the catalog has. -/
def complaint? (c : Catalog) (first : Option Bytes) (base : Entry) : Option Finding :=
  match c.find? base.id with
  | none => some (.missing base.id)
  | some e =>
    if base.isPlural && !hasPluralRules c.pluralLocale then
      if first = some base.id then some (.noPluralRules c.pluralLocale) else none
    else base.finding? c.pluralLocale e.text

section

variable {c base : Catalog} {first : Option Bytes} {e t : Entry}

theorem complaint?_of_missing (hc : c.find? e.id = none) : c.complaint? first e = some (.missing e.id) := by
  rw [complaint?, hc]

/-- Without plural rules, only of the first plural entry something is said. -/
theorem complaint?_of_noPluralRules (hc : c.find? e.id = some t) (hp : e.isPlural = true)
    (hr : hasPluralRules c.pluralLocale = false) :
    c.complaint? first e = if first = some e.id then some (.noPluralRules c.pluralLocale) else none := by
  simp only [complaint?, hc, hp, hr]
  rfl

/-- Otherwise it is said what is wrong with the text of the catalog. -/
theorem complaint?_of_some (hc : c.find? e.id = some t) (h : e.isPlural = true → hasPluralRules c.pluralLocale = true) :
    c.complaint? first e = e.finding? c.pluralLocale t.text := by
  simp only [complaint?, hc]
  cases hp : e.isPlural with
  | true => simp [h hp]
  | false => rfl

/-- An entry adds what is said of it, unless it is one that needs plural rules that are not known. -/
theorem findings_cons (h : e.isPlural = true → c.has e.id = true → hasPluralRules c.pluralLocale = true) (said : Bool)
    (first : Option Bytes) (es : List Entry) :
    c.findings said (e :: es) = (c.complaint? first e).toList ++ c.findings said es := by
  rw [findings]
  cases hc : c.find? e.id with
  | none => rw [complaint?_of_missing hc]; rfl
  | some t =>
    have h : e.isPlural = true → hasPluralRules c.pluralLocale = true := fun hp => h hp (by simp [has, hc])
    rw [complaint?_of_some hc h]
    cases hp : e.isPlural with
    | true => simp [h hp]
    | false => rfl

/-- An entry that needs plural rules that are not known adds this, if it was not said before. -/
theorem findings_cons_of_noPluralRules (hr : hasPluralRules c.pluralLocale = false) (hp : e.isPlural = true)
    (hc : c.find? e.id = some t) (said : Bool) (es : List Entry) :
    c.findings said (e :: es) = (if said then [] else [.noPluralRules c.pluralLocale]) ++ c.findings true es := by
  rw [findings, hc]
  cases said <;> simp [hp, hr]

theorem filterMap_complaint?_cons (first : Option Bytes) (e : Entry) (es : List Entry) :
    (e :: es).filterMap (c.complaint? first) = (c.complaint? first e).toList ++ es.filterMap (c.complaint? first) := by
  rw [List.filterMap_cons]
  cases c.complaint? first e <;> rfl

/-- Where plural rules are known, the findings on entries are what is said of each. -/
theorem findings_of_rules (h : hasPluralRules c.pluralLocale = true) (said : Bool) (first : Option Bytes) (es : List Entry) :
    c.findings said es = es.filterMap (c.complaint? first) := by
  induction es with
  | nil => rfl
  | cons e es ih => rw [findings_cons (fun _ _ => h) said first, filterMap_complaint?_cons, ih]

/-- Once the lack of plural rules was said, the findings on entries are what is said of each, if the first plural entry is none of
them. -/
theorem findings_of_said (h : hasPluralRules c.pluralLocale = false) {es : List Entry} (hf : ∀ e ∈ es, first ≠ some e.id) :
    c.findings true es = es.filterMap (c.complaint? first) := by
  induction es with
  | nil => rfl
  | cons e es ih =>
    obtain ⟨he, hes⟩ := List.forall_mem_cons.mp hf
    rw [filterMap_complaint?_cons, ← ih hes]
    by_cases hp : e.isPlural = true ∧ c.has e.id = true
    · obtain ⟨hp, hhas⟩ := hp
      obtain ⟨t, hc⟩ := Option.isSome_iff_exists.mp hhas
      rw [findings_cons_of_noPluralRules h hp hc, complaint?_of_noPluralRules hc hp h, if_neg he]
      rfl
    · exact findings_cons (fun hpl hhas => absurd ⟨hpl, hhas⟩ hp) true first es

/-- Until the lack of plural rules is said, it is said of the first plural entry that the catalog has. -/
theorem findings_of_not_said (h : hasPluralRules c.pluralLocale = false) {es : List Entry}
    (hs : es.Pairwise fun a b => a.id < b.id) :
    c.findings false es =
      es.filterMap (c.complaint? ((es.find? fun e => e.isPlural && c.has e.id).map Entry.id)) := by
  induction es with
  | nil => rfl
  | cons e es ih =>
    obtain ⟨he, hes⟩ := List.pairwise_cons.mp hs
    rw [filterMap_complaint?_cons, List.find?_cons]
    cases hp : e.isPlural && c.has e.id with
    | true =>
      obtain ⟨hp, hhas⟩ := Bool.and_eq_true_iff.mp hp
      obtain ⟨t, hc⟩ := Option.isSome_iff_exists.mp hhas
      have hsaid : c.findings true es = es.filterMap (c.complaint? (some e.id)) := by
        refine findings_of_said h ?_
        intro t ht hid
        exact List.lt_irrefl _ (Option.some.inj hid ▸ he t ht)
      rw [findings_cons_of_noPluralRules h hp hc, Option.map_some, ← hsaid, complaint?_of_noPluralRules hc hp h, if_pos rfl]
      rfl
    | false =>
      simp only [← ih hes]
      exact findings_cons (fun hpl hhas => by simp [hpl, hhas] at hp) false _ es

/-- The findings on a base are what is said of each entry, in their order. -/
theorem findings_eq (c base : Catalog) :
    c.findings false base.entries.toList = base.entries.toList.filterMap (c.complaint? (c.firstPlural? base)) := by
  cases h : hasPluralRules c.pluralLocale with
  | true => exact findings_of_rules h false _ _
  | false =>
    rw [firstPlural?_eq]
    exact findings_of_not_said h base.entries.sorted

end

end Catalog

end Phrasebook
