import Phrasebook.Proofs.Catalog.Findings

/-!
# What a check reports

The errors of a catalog against a base can be told id by id (`Catalog.Complains`), and counted (`Catalog.errorCount`), without the
check that finds them. `Catalog.Reported` is all that a report says of two catalogs, and a check reports just that
(`Catalog.reported`).
-/

namespace Phrasebook

/-- Whether a finding is that a locale has no plural rules. -/
def Finding.isNoPluralRules : Finding → Bool
  | .noPluralRules _ => true
  | _ => false

/-- A report in writing: a head, an entry for each error and each warning, the summary and the verdict. -/
theorem Report.text_eq (r : Report) :
    r.text =
      utf8 "CHECK: REPORT\n------------------------------\n" ++
        (r.errors.flatMap fun f => utf8 "ERROR " ++ f.message ++ utf8 "\n") ++
        (r.extra.flatMap fun id => utf8 "WARN " ++ id ++ utf8 ": not present in base catalog\n") ++
        utf8 "------------------------------\nMessages: " ++ numeral r.messages ++
        utf8 "\nWarnings: " ++ numeral r.extra.length ++ utf8 "\nErrors: " ++ numeral r.errors.length ++ utf8 "\n" ++
        r.verdict := by
  have hhead : utf8 "CHECK: REPORT\n------------------------------\n" = utf8 "CHECK: REPORT\n" ++ Report.rule := by decide
  have hm : utf8 "------------------------------\nMessages: " = Report.rule ++ utf8 "Messages" ++ utf8 ": " := by decide
  have hw : utf8 "\nWarnings: " = [lineFeed] ++ utf8 "Warnings" ++ utf8 ": " := by decide
  have he : utf8 "\nErrors: " = [lineFeed] ++ utf8 "Errors" ++ utf8 ": " := by decide
  have hn : utf8 "\n" = [lineFeed] := by decide
  have herror : ∀ f, Report.errorLine f = utf8 "ERROR " ++ f.message ++ [lineFeed] := fun f => by simp [Report.errorLine]
  have hwarning : ∀ id, Report.warningLine id = utf8 "WARN " ++ id ++ utf8 ": not present in base catalog\n" := fun id => by
    simp [Report.warningLine]
  simp only [hhead, hm, hw, he, hn, ← herror, ← hwarning, List.flatMap_def]
  simp [Report.text, Report.lines, Report.tally]

theorem Report.code_ne_two (r : Report) : r.code ≠ 2 := by
  unfold Report.code
  split <;> decide

namespace Catalog

/-! ## The errors of a catalog -/

/-- Whether something is wrong with a catalog at an id of a base, the lack of plural rules left out: the id is missing, or the
number of forms is not the one needed, or one of the two messages cannot be read, or the structures differ. -/
def errsAt (c base : Catalog) (id : Bytes) : Bool :=
  match base.message? id, c.message? id with
  | _, none => true
  | none, some _ => false
  | some baseText, some text =>
    if base.isPlural id then hasPluralRules c.pluralLocale && (splitForms text).length != formCount c.pluralLocale
    else
      match Message.parse baseText, Message.parse text with
      | .ok m, .ok m' => m.mismatchMessage m' != []
      | _, _ => true

/-- How many errors a catalog has against a base. -/
def errorCount (c base : Catalog) : Nat :=
  base.ids.countP (c.errsAt base) +
    if !hasPluralRules c.pluralLocale && base.ids.any (fun id => base.isPlural id && c.has id) then 1 else 0

/-- How many ids of a catalog a base does not have. -/
def extraCount (c base : Catalog) : Nat := c.ids.countP fun id => !base.has id

/-- What an error of a catalog at an id of a base says. -/
inductive Complains (c base : Catalog) : Bytes → Finding → Prop
  | missing {id : Bytes} : base.has id = true → c.has id = false → Complains c base id (.missing id)
  | noPluralRules {id : Bytes} : hasPluralRules c.pluralLocale = false → c.firstPlural? base = some id →
      Complains c base id (.noPluralRules c.pluralLocale)
  | forms {id text : Bytes} : base.isPlural id = true → c.message? id = some text → hasPluralRules c.pluralLocale = true →
      (splitForms text).length ≠ formCount c.pluralLocale →
      Complains c base id
        (.faulty id (.formCount id c.pluralLocale text (splitForms text).length (formCount c.pluralLocale)))
  | unreadableBase {id baseText : Bytes} {fault : Fault} : base.isPlural id = false → base.message? id = some baseText →
      c.has id = true → Message.parse baseText = .error fault → Complains c base id (.unreadableBase id fault)
  | unreadable {id baseText text : Bytes} {m : Message} {fault : Fault} : base.isPlural id = false →
      base.message? id = some baseText → c.message? id = some text → Message.parse baseText = .ok m →
      Message.parse text = .error fault → Complains c base id (.faulty id fault)
  | differs {id baseText text : Bytes} {m m' : Message} {reason : Mismatch} : base.isPlural id = false →
      base.message? id = some baseText → c.message? id = some text → Message.parse baseText = .ok m →
      Message.parse text = .ok m' → m.mismatch? m' = some reason → Complains c base id (.differs id reason)

/-- What is written of an error of a catalog at an id of a base. Every wording starts with the id, but for the one about the locale, which
is about no id. -/
inductive Says (c base : Catalog) (id : Bytes) : Bytes → Prop
  | missing : c.has id = false → Says c base id (id ++ utf8 ": missing translation")
  | noPluralRules : hasPluralRules c.pluralLocale = false → c.firstPlural? base = some id →
      Says c base id (utf8 "locale '" ++ c.pluralLocale ++ utf8 "' has no plural rules")
  | forms {text : Bytes} : base.isPlural id = true → c.message? id = some text →
      (splitForms text).length ≠ formCount c.pluralLocale →
      Says c base id
        (id ++ utf8 ": Invalid plural string \"" ++ id ++ utf8 "\" for locale " ++ c.pluralLocale ++ utf8 ": " ++
          numeral (splitForms text).length ++ utf8 " given; need: " ++ numeral (formCount c.pluralLocale) ++ utf8 " (\"" ++ text ++
          utf8 "\")")
  | unreadableBase {baseText : Bytes} : base.isPlural id = false → base.message? id = some baseText →
      Message.read? baseText = none →
      Says c base id (id ++ utf8 ": base message does not parse: String has unbalanced tags: " ++ baseText)
  | unreadable {text : Bytes} : base.isPlural id = false → c.message? id = some text → Message.read? text = none →
      Says c base id (id ++ utf8 ": String has unbalanced tags: " ++ text)
  | differs {baseText text : Bytes} {m m' : Message} : base.isPlural id = false → base.message? id = some baseText →
      c.message? id = some text → Message.parse baseText = .ok m → Message.parse text = .ok m' → m.mismatchMessage m' ≠ [] →
      Says c base id (id ++ utf8 ": structure differs from base, " ++ m.mismatchMessage m')

section

variable {c base : Catalog} {id : Bytes} {e t : Entry} {f : Finding}

/-! ## Errors id by id -/

/-- What is wrong with the text of an entry is an error of the catalog. -/
theorem complains_of_finding? (hb : base.find? e.id = some e) (hc : c.find? e.id = some t)
    (hr : e.isPlural = true → hasPluralRules c.pluralLocale = true) (hf : e.finding? c.pluralLocale t.text = some f) :
    c.Complains base e.id f := by
  have hbm := message?_of_find? hb
  have hcm := message?_of_find? hc
  cases hp : e.isPlural with
  | true =>
    rw [Entry.finding?_of_isPlural hp (hr hp)] at hf
    split at hf
    · cases hf
    · rename_i hn
      cases hf
      exact .forms ((isPlural_of_find? hb).trans hp) hcm (hr hp) hn
  | false =>
    have hpl : base.isPlural e.id = false := (isPlural_of_find? hb).trans hp
    cases hm : Message.parse e.text with
    | error fault =>
      rw [Entry.finding?_of_unreadableBase hp hm] at hf
      cases hf
      exact .unreadableBase hpl hbm (has_of_find? hc) hm
    | ok m =>
      cases hm' : Message.parse t.text with
      | error fault =>
        rw [Entry.finding?_of_unreadable hp hm hm'] at hf
        cases hf
        exact .unreadable hpl hbm hcm hm hm'
      | ok m' =>
        rw [Entry.finding?_of_readable hp hm hm'] at hf
        obtain ⟨reason, hreason, rfl⟩ := Option.map_eq_some_iff.mp hf
        exact .differs hpl hbm hcm hm hm' hreason

/-- The errors of a catalog are what is said of the entries of the base. -/
theorem complains_of_complaint? (hb : base.find? e.id = some e) (hf : c.complaint? (c.firstPlural? base) e = some f) :
    c.Complains base e.id f := by
  cases hc : c.find? e.id with
  | none =>
    rw [complaint?_of_missing hc] at hf
    cases hf
    exact .missing (has_of_find? hb) (by simp [has, hc])
  | some t =>
    by_cases hp : e.isPlural = true ∧ hasPluralRules c.pluralLocale = false
    · rw [complaint?_of_noPluralRules hc hp.1 hp.2] at hf
      split at hf
      · rename_i hfirst
        cases hf
        exact .noPluralRules hp.2 hfirst
      · cases hf
    · have hr : e.isPlural = true → hasPluralRules c.pluralLocale = true := by simpa using hp
      rw [complaint?_of_some hc hr] at hf
      exact complains_of_finding? hb hc hr hf

/-- Errors are at ids of the base. -/
theorem Complains.has_base (h : c.Complains base id f) : base.has id = true := by
  have hmessage : ∀ {text}, base.message? id = some text → base.has id = true := by
    intro text h
    obtain ⟨e, he, -⟩ := Option.map_eq_some_iff.mp h
    exact has_of_find? he
  cases h with
  | missing hb _ => exact hb
  | noPluralRules _ hfirst => exact Option.isSome_of_any (of_firstPlural? hfirst).1
  | forms hp _ _ _ => exact Option.isSome_of_any hp
  | unreadableBase _ hb _ _ => exact hmessage hb
  | unreadable _ hb _ _ _ => exact hmessage hb
  | differs _ hb _ _ _ _ => exact hmessage hb

/-- Every error of a catalog is said of the entry of the base. -/
theorem Complains.complaint? (h : c.Complains base e.id f) (hb : base.find? e.id = some e) :
    c.complaint? (c.firstPlural? base) e = some f := by
  have htext : ∀ {text}, base.message? e.id = some text → e.text = text := fun h =>
    Option.some.inj ((message?_of_find? hb).symm.trans h)
  have hplural : base.isPlural e.id = e.isPlural := isPlural_of_find? hb
  have hread : ∀ {t}, e.isPlural = false → c.find? e.id = some t →
      c.complaint? (c.firstPlural? base) e = e.finding? c.pluralLocale t.text := by
    intro t hp hc
    exact complaint?_of_some hc fun h => by simp [hp] at h
  cases h with
  | missing _ hc => exact complaint?_of_missing (by simpa [has] using hc)
  | noPluralRules hr hfirst =>
    obtain ⟨hp, hhas⟩ := of_firstPlural? hfirst
    obtain ⟨t, hc⟩ := Option.isSome_iff_exists.mp hhas
    rw [complaint?_of_noPluralRules hc (hplural.symm.trans hp) hr, if_pos hfirst]
  | forms hp hct hr hn =>
    obtain ⟨t, hc, rfl⟩ := Option.map_eq_some_iff.mp hct
    rw [complaint?_of_some hc fun _ => hr, Entry.finding?_of_isPlural (hplural.symm.trans hp) hr, if_neg hn]
  | unreadableBase hp hbm hhas hm =>
    obtain ⟨t, hc⟩ := Option.isSome_iff_exists.mp hhas
    rw [hplural] at hp
    rw [← htext hbm] at hm
    rw [hread hp hc, Entry.finding?_of_unreadableBase hp hm]
  | unreadable hp hbm hct hm hm' =>
    obtain ⟨t, hc, rfl⟩ := Option.map_eq_some_iff.mp hct
    rw [hplural] at hp
    rw [← htext hbm] at hm
    rw [hread hp hc, Entry.finding?_of_unreadable hp hm hm']
  | differs hp hbm hct hm hm' hreason =>
    obtain ⟨t, hc, rfl⟩ := Option.map_eq_some_iff.mp hct
    rw [hplural] at hp
    rw [← htext hbm] at hm
    rw [hread hp hc, Entry.finding?_of_readable hp hm hm', hreason, Option.map_some]

/-- What is written of an error is what the error says. -/
theorem Complains.message (h : c.Complains base id f) : c.Says base id f.message := by
  cases h with
  | missing _ hc => exact .missing hc
  | noPluralRules hr hfirst =>
    have hwords : (Finding.noPluralRules c.pluralLocale).message =
        utf8 "locale '" ++ c.pluralLocale ++ utf8 "' has no plural rules" := by
      simp [Finding.message]
    rw [hwords]
    exact .noPluralRules hr hfirst
  | @forms text hp hct _ hn =>
    have hopen : utf8 ": Invalid plural string \"" = utf8 ": " ++ utf8 "Invalid plural string \"" := by decide
    have hwords : (Finding.faulty id
        (.formCount id c.pluralLocale text (splitForms text).length (formCount c.pluralLocale))).message =
          id ++ utf8 ": Invalid plural string \"" ++ id ++ utf8 "\" for locale " ++ c.pluralLocale ++ utf8 ": " ++
            numeral (splitForms text).length ++ utf8 " given; need: " ++ numeral (formCount c.pluralLocale) ++ utf8 " (\"" ++ text ++
            utf8 "\")" := by
      simp [Finding.message, Fault.message, hopen]
    rw [hwords]
    exact .forms hp hct hn
  | @unreadableBase baseText _ hp hbm _ hm =>
    obtain ⟨hread, rfl⟩ := Message.parse_eq_error_iff.mp hm
    have hopen : utf8 ": base message does not parse: String has unbalanced tags: " =
        utf8 ": base message does not parse: " ++ utf8 "String has unbalanced tags: " := by decide
    have hwords : (Finding.unreadableBase id (.unbalancedTags baseText)).message =
        id ++ utf8 ": base message does not parse: String has unbalanced tags: " ++ baseText := by
      simp [Finding.message, Fault.message, hopen]
    rw [hwords]
    exact .unreadableBase hp hbm hread
  | @unreadable _ text _ _ hp _ hct _ hm' =>
    obtain ⟨hread, rfl⟩ := Message.parse_eq_error_iff.mp hm'
    have hopen : utf8 ": String has unbalanced tags: " = utf8 ": " ++ utf8 "String has unbalanced tags: " := by decide
    have hwords : (Finding.faulty id (.unbalancedTags text)).message = id ++ utf8 ": String has unbalanced tags: " ++ text := by
      simp [Finding.message, Fault.message, hopen]
    rw [hwords]
    exact .unreadable hp hct hread
  | @differs _ _ m m' reason hp hbm hct hm hm' hreason =>
    have hreasons : m.mismatchMessage m' = reason.message := by
      rw [Message.mismatchMessage, hreason]
    have hne : m.mismatchMessage m' ≠ [] := by
      rw [ne_eq, Message.mismatchMessage_eq_nil_iff, hreason]
      nofun
    have hwords : (Finding.differs id reason).message = id ++ utf8 ": structure differs from base, " ++ m.mismatchMessage m' := by
      simp [Finding.message, hreasons]
    rw [hwords]
    exact .differs hp hbm hct hm hm' hne

/-! ## Counting the errors -/

/-- Whether something is wrong with the text of an entry is told by its id. -/
theorem isSome_finding? (hb : base.find? e.id = some e) (hc : c.find? e.id = some t)
    (hr : e.isPlural = true → hasPluralRules c.pluralLocale = true) :
    (e.finding? c.pluralLocale t.text).isSome = c.errsAt base e.id := by
  simp only [errsAt, message?_of_find? hb, message?_of_find? hc, isPlural_of_find? hb]
  cases hp : e.isPlural with
  | true =>
    rw [Entry.finding?_of_isPlural hp (hr hp), hr hp]
    by_cases hn : (splitForms t.text).length = formCount c.pluralLocale <;> simp [hn]
  | false =>
    cases hm : Message.parse e.text with
    | error fault =>
      rw [Entry.finding?_of_unreadableBase hp hm]
      rfl
    | ok m =>
      cases hm' : Message.parse t.text with
      | error fault =>
        rw [Entry.finding?_of_unreadable hp hm hm']
        rfl
      | ok m' =>
        rw [Entry.finding?_of_readable hp hm hm', Option.isSome_map]
        change (m.mismatch? m').isSome = (m.mismatchMessage m' != [])
        rw [Bool.eq_iff_iff, bne_iff_ne, ne_eq, Message.mismatchMessage_eq_nil_iff, Option.isSome_iff_ne_none]

/-- Whether anything is said of an entry is told by its id. -/
theorem isSome_complaint? (hb : base.find? e.id = some e) :
    (c.complaint? (c.firstPlural? base) e).isSome =
      (c.errsAt base e.id || !hasPluralRules c.pluralLocale && c.firstPlural? base == some e.id) := by
  cases hc : c.find? e.id with
  | none =>
    rw [complaint?_of_missing hc]
    simp [errsAt, message?, hc]
  | some t =>
    by_cases hp : e.isPlural = true ∧ hasPluralRules c.pluralLocale = false
    · have herr : c.errsAt base e.id = false := by
        simp [errsAt, message?_of_find? hb, message?_of_find? hc, isPlural_of_find? hb, hp]
      rw [complaint?_of_noPluralRules hc hp.1 hp.2, herr, hp.2]
      by_cases hfirst : c.firstPlural? base = some e.id <;> simp [hfirst]
    · have hr : e.isPlural = true → hasPluralRules c.pluralLocale = true := by simpa using hp
      have hlast : (!hasPluralRules c.pluralLocale && c.firstPlural? base == some e.id) = false := by
        rw [Bool.and_eq_false_iff]
        by_cases hfirst : c.firstPlural? base = some e.id
        · left
          simpa using hr ((isPlural_of_find? hb).symm.trans (of_firstPlural? hfirst).1)
        · right
          simpa using hfirst
      rw [complaint?_of_some hc hr, isSome_finding? hb hc hr, hlast, Bool.or_false]

/-- Elements of two kinds that exclude each other are counted kind by kind. -/
theorem countP_or_of_disjoint {p q : Bytes → Bool} {l : List Bytes} (h : ∀ x ∈ l, q x = true → p x = false) :
    l.countP (fun x => p x || q x) = l.countP p + l.countP q := by
  induction l with
  | nil => rfl
  | cons x l ih =>
    obtain ⟨hx, hl⟩ := List.forall_mem_cons.mp h
    rw [List.countP_cons, List.countP_cons, List.countP_cons, ih hl]
    cases hq : q x with
    | true =>
      simp only [hx hq, Bool.false_or, Bool.false_eq_true, if_true, if_false]
      omega
    | false =>
      simp only [Bool.or_false, Bool.false_eq_true, if_false]
      omega

/-- There is one first plural id, if there is any plural id. -/
theorem countP_firstPlural? (c base : Catalog) :
    base.ids.countP (fun id => c.firstPlural? base == some id) =
      if base.ids.any (fun id => base.isPlural id && c.has id) then 1 else 0 := by
  cases hfirst : c.firstPlural? base with
  | none =>
    rw [firstPlural?_eq_none_iff.mp hfirst]
    simp
  | some first =>
    have hmem : first ∈ base.ids := List.mem_of_find?_eq_some hfirst
    have hany : (base.ids.any fun id => base.isPlural id && c.has id) = true := by
      rw [List.any_eq_true]
      exact ⟨first, hmem, Bool.and_eq_true_iff.mpr (of_firstPlural? hfirst)⟩
    have hcount : base.ids.countP (fun id => some first == some id) = base.ids.count first :=
      List.countP_congr fun id _ => by rw [beq_iff_eq, beq_iff_eq, Option.some.injEq, eq_comm]
    rw [hany, if_pos rfl, hcount, base.nodup_ids.count, if_pos hmem]

/-- A check finds as many errors as a catalog has. -/
theorem length_findings (c base : Catalog) : (c.findings false base.entries.toList).length = c.errorCount base := by
  have hdisjoint : ∀ id ∈ base.ids, (!hasPluralRules c.pluralLocale && c.firstPlural? base == some id) = true →
      c.errsAt base id = false := by
    intro id _ h
    obtain ⟨hr, hfirst⟩ := Bool.and_eq_true_iff.mp h
    obtain ⟨hp, hhas⟩ := of_firstPlural? (by simpa using hfirst)
    obtain ⟨e, hb⟩ := Option.isSome_iff_exists.mp (Option.isSome_of_any hp)
    obtain ⟨t, hc⟩ := Option.isSome_iff_exists.mp hhas
    simp [errsAt, message?_of_find? hb, message?_of_find? hc, hp, by simpa using hr]
  rw [findings_eq, List.length_filterMap_eq_countP, errorCount]
  calc base.entries.toList.countP (fun e => (c.complaint? (c.firstPlural? base) e).isSome)
      = base.ids.countP fun id => c.errsAt base id || !hasPluralRules c.pluralLocale && c.firstPlural? base == some id := by
        rw [ids, List.countP_map]
        refine List.countP_congr fun e he => ?_
        rw [isSome_complaint? (find?_of_mem he)]
        rfl
    _ = base.ids.countP (c.errsAt base) +
          base.ids.countP fun id => !hasPluralRules c.pluralLocale && c.firstPlural? base == some id :=
        countP_or_of_disjoint hdisjoint
    _ = _ := by
        congr 1
        cases hasPluralRules c.pluralLocale with
        | true => simp
        | false => simpa using countP_firstPlural? c base

/-! ## The report -/

/-- The lack of plural rules is said of the first plural id. -/
theorem Complains.firstPlural? (h : c.Complains base id f) (hf : f.isNoPluralRules = true) : c.firstPlural? base = some id := by
  cases h with
  | noPluralRules _ hfirst => exact hfirst
  | _ => cases hf

/-- What the check of a catalog against a base says: the errors, each with the id of the base that it is found at and with its wording, and
the ids that only the catalog has, both in increasing order; how many there are of them; and what is written. -/
structure Reported (c base : Catalog) (errors : List (Bytes × Finding)) (extra : List Bytes) : Prop where
  errors_increasing : (errors.map Prod.fst).Pairwise (· < ·)
  errors_ids : ∀ x ∈ errors, x.1 ∈ base.ids
  mem_errors : ∀ id f, (id, f) ∈ errors ↔ c.Complains base id f
  errors_say : ∀ x ∈ errors, c.Says base x.1 x.2.message
  noPluralRules_once : (errors.filter fun x => x.2.isNoPluralRules).length ≤ 1
  length_errors : errors.length = c.errorCount base
  extra_increasing : extra.Pairwise (· < ·)
  mem_extra : ∀ id, id ∈ extra ↔ c.has id = true ∧ base.has id = false
  length_extra : extra.length = c.extraCount base
  text : (c.check base).text =
    utf8 "CHECK: REPORT\n------------------------------\n" ++
      (errors.flatMap fun x => utf8 "ERROR " ++ x.2.message ++ utf8 "\n") ++
      (extra.flatMap fun id => utf8 "WARN " ++ id ++ utf8 ": not present in base catalog\n") ++
      utf8 "------------------------------\nMessages: " ++ numeral base.ids.length ++
      utf8 "\nWarnings: " ++ numeral (c.extraCount base) ++ utf8 "\nErrors: " ++ numeral (c.errorCount base) ++ utf8 "\n" ++
      if 0 < c.errorCount base then utf8 "CHECK: FAIL\n"
      else if 0 < c.extraCount base then utf8 "CHECK: OK (with warnings)\n"
      else utf8 "CHECK: OK\n"
  code : (c.check base).code = if 0 < c.errorCount base then 3 else 0

/-- The errors of a check, each with the id that it is found at. -/
def errorsById (c base : Catalog) : List (Bytes × Finding) :=
  base.entries.toList.filterMap fun e => (c.complaint? (c.firstPlural? base) e).map (e.id, ·)

/-- The ids that only the catalog has. -/
def extraIds (c base : Catalog) : List Bytes := c.ids.filter fun id => !base.has id

/-- The errors come in the order of their ids. -/
theorem errorsById_increasing (c base : Catalog) : ((c.errorsById base).map Prod.fst).Pairwise (· < ·) := by
  refine List.pairwise_map.mpr (base.entries.sorted.filterMap _ ?_)
  intro a b hab x hx y hy
  obtain ⟨f, -, rfl⟩ := Option.map_eq_some_iff.mp hx
  obtain ⟨g, -, rfl⟩ := Option.map_eq_some_iff.mp hy
  exact hab

/-- The errors are those of the catalog. -/
theorem mem_errorsById : (id, f) ∈ c.errorsById base ↔ c.Complains base id f := by
  rw [errorsById, List.mem_filterMap]
  constructor
  · rintro ⟨e, he, hf⟩
    obtain ⟨g, hg, hx⟩ := Option.map_eq_some_iff.mp hf
    cases hx
    exact complains_of_complaint? (find?_of_mem he) hg
  · intro h
    obtain ⟨e, hb⟩ := Option.isSome_iff_exists.mp h.has_base
    obtain rfl : e.id = id := Entries.id_of_find? hb
    exact ⟨e, mem_of_find? hb, by rw [h.complaint? hb]; rfl⟩

/-- Without their ids, the errors are the findings. -/
theorem map_snd_errorsById (c base : Catalog) : (c.errorsById base).map Prod.snd = c.findings false base.entries.toList := by
  rw [findings_eq, errorsById, List.map_filterMap]
  congr 1
  funext e
  cases c.complaint? (c.firstPlural? base) e <;> rfl

/-- The lack of plural rules is said at most once. -/
theorem length_filter_noPluralRules (c base : Catalog) :
    ((c.errorsById base).filter fun x => x.2.isNoPluralRules).length ≤ 1 := by
  have hfirst : ∀ x ∈ (c.errorsById base).filter (fun x => x.2.isNoPluralRules), c.firstPlural? base = some x.1 := by
    intro x hx
    obtain ⟨hx, hf⟩ := List.mem_filter.mp hx
    exact (mem_errorsById.mp hx).firstPlural? hf
  have hlt := (List.pairwise_map.mp (c.errorsById_increasing base)).filter fun x => x.2.isNoPluralRules
  generalize (c.errorsById base).filter (fun x => x.2.isNoPluralRules) = l at hfirst hlt ⊢
  rcases l with _ | ⟨x, _ | ⟨y, l⟩⟩
  · exact Nat.zero_le 1
  · exact Nat.le_refl 1
  · have hxy : x.1 = y.1 := Option.some.inj ((hfirst x (by simp)).symm.trans (hfirst y (by simp)))
    have := (List.pairwise_cons.mp hlt).1 y List.mem_cons_self
    exact absurd (hxy ▸ this) (List.lt_irrefl _)

/-- A check of catalogs that are not empty gives a report. -/
theorem check_eq_report (hc : c.ids ≠ []) (hb : base.ids ≠ []) :
    c.check base = .report ⟨base.size, c.findings false base.entries.toList, c.extraIds base⟩ := by
  have hc : c.isEmpty = false := by simpa [ids, isEmpty] using hc
  have hb : base.isEmpty = false := by simpa [ids, isEmpty] using hb
  simp only [check, hc, hb, extraIds, ids]
  rfl

/-- There is a report of the errors and of the ids that only the catalog has. -/
theorem reported (hc : c.ids ≠ []) (hb : base.ids ≠ []) : c.Reported base (c.errorsById base) (c.extraIds base) := by
  have hlength : (c.errorsById base).length = c.errorCount base := by
    rw [← length_findings, ← map_snd_errorsById, List.length_map]
  have hextra : (c.extraIds base).length = c.extraCount base := (List.countP_eq_length_filter ..).symm
  have hsize : base.size = base.ids.length := by rw [size, ids, List.length_map]
  have hpos : c.findings false base.entries.toList ≠ [] ↔ 0 < c.errorCount base := by
    rw [← length_findings, List.length_pos_iff]
  exact {
    errors_increasing := c.errorsById_increasing base
    errors_ids := fun x hx => mem_ids.mpr (mem_errorsById.mp hx).has_base
    mem_errors := fun id f => mem_errorsById
    errors_say := fun x hx => (mem_errorsById.mp hx).message
    noPluralRules_once := c.length_filter_noPluralRules base
    length_errors := hlength
    extra_increasing := c.ids_increasing.filter _
    mem_extra := fun id => by simp [extraIds, mem_ids]
    length_extra := hextra
    text := by
      rw [check_eq_report hc hb, Check.text, Report.text_eq, Report.verdict, length_findings, hextra, hsize, ← map_snd_errorsById,
        List.flatMap_map]
      simp only [map_snd_errorsById, hpos, ← hextra, List.length_pos_iff]
    code := by
      rw [check_eq_report hc hb, Check.code, Report.code]
      simp only [hpos] }

/-- A check says nothing but that there is nothing to check just when one of the catalogs is empty. Otherwise it gives a report of the
errors and of the ids that only the catalog has. -/
theorem check_reported (c base : Catalog) :
    ((c.check base).code = 2 ↔ c.ids = [] ∨ base.ids = []) ∧
      (c.ids ≠ [] → base.ids ≠ [] → ∃ errors extra, c.Reported base errors extra) := by
  refine ⟨?_, fun hc hb => ⟨_, _, reported hc hb⟩⟩
  by_cases h : c.ids = [] ∨ base.ids = []
  · have hempty : c.isEmpty || base.isEmpty := by simpa [ids, isEmpty] using h
    simp [check, hempty, h, Check.code]
  · obtain ⟨hc, hb⟩ := not_or.mp h
    simp [check_eq_report hc hb, hc, hb, Check.code, Report.code_ne_two]

/-- A catalog without plural rules that differs from the base in one message, lacks another, has two plural entries and an id of its
own. -/
theorem check_reported_sample :
    ∃ c base : Catalog, c.ids = [utf8 "a", utf8 "p", utf8 "q", utf8 "z"] ∧ base.ids = [utf8 "a", utf8 "m", utf8 "p", utf8 "q"] ∧
      c.errorCount base = 3 ∧ c.extraCount base = 1 ∧ (c.check base).code = 3 ∧
      (c.check base).text =
        utf8 "CHECK: REPORT\n------------------------------\nERROR a: structure differs from base, missing tag <b>\n" ++
        utf8 "ERROR m: missing translation\nERROR locale 'tlh' has no plural rules\nWARN z: not present in base catalog\n" ++
        utf8 "------------------------------\nMessages: 4\nWarnings: 1\nErrors: 3\nCHECK: FAIL\n" ∧
      ∃ errors extra, c.Reported base errors extra := by
  refine ⟨{ metadata := { locale := utf8 "tlh" }
            entries := ⟨[⟨utf8 "a", [], utf8 "<i>x</i>"⟩, ⟨utf8 "p", [], utf8 "x"⟩, ⟨utf8 "q", [], utf8 "y"⟩,
              ⟨utf8 "z", [], utf8 "%n%"⟩], by decide⟩ },
          { entries := ⟨[⟨utf8 "a", [], utf8 "<b>x</b>"⟩, ⟨utf8 "m", [], utf8 "x"⟩, ⟨utf8 "p", utf8 "plural", utf8 "x|y"⟩,
              ⟨utf8 "q", utf8 "plural", utf8 "x|y"⟩], by decide⟩ },
          by decide, by decide, by decide, by decide, by decide, by decide +kernel,
          (check_reported _ _).2 (by decide) (by decide)⟩

end

end Catalog

end Phrasebook
