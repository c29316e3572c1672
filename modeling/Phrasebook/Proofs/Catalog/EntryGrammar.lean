import Phrasebook.Proofs.Catalog.Ending

/-!
# The form of an entry

An entry is a line `id: text` or `id(label): text`, with blanks behind the id and at the ends of the line. `EntryForm` is that form, with
what may stand between the closing parenthesis and the colon left open. A line is an entry just when it has the form with anything but a
colon there (`Line.read_eq_entry_iff`): of the lines that are read as entries, the ones with something else than blanks there are not of
the form that is written.
-/

namespace Phrasebook

/-- A line of the form `id: text` or `id(label): text`, and the entry it stands for; what may stand between the closing parenthesis and the
colon is left open. -/
inductive EntryForm (Rest : Bytes → Prop) : Bytes → Entry → Prop
  | plain {id gap text : Bytes} : isMessageId id = true → gap.IsBlanks →
      EntryForm Rest (id ++ gap ++ 58 :: text) ⟨id, [], unescape text.trimStart⟩
  | labelled {id gap label rest text : Bytes} : isMessageId id = true → gap.IsBlanks → 41 ∉ label → 58 ∉ label → Rest rest →
      EntryForm Rest (id ++ gap ++ 40 :: (label ++ 41 :: rest) ++ 58 :: text) ⟨id, label.trim, unescape text.trimStart⟩

/-! ## Ids -/

/-- An id holds no mark that a line is cut at, and it is trimmed. -/
theorem id_spec {id : Bytes} (h : isMessageId id = true) : 40 ∉ id ∧ 58 ∉ id ∧ Bytes.IsTrimmed id := by
  obtain ⟨-, hbytes⟩ := of_isMessageId h
  refine ⟨fun hm => ?_, fun hm => ?_, Bytes.isTrimmed_of_forall fun b hb => (of_isIdByte (hbytes b hb)).1⟩
  · exact (of_isIdByte (hbytes 40 hm)).2.2.2.1 rfl
  · exact (of_isIdByte (hbytes 58 hm)).2.2.2.2.1 rfl

section

variable {id gap : Bytes} (hid : isMessageId id = true) (hgap : gap.IsBlanks)
include hid hgap

theorem notMem_id_append : 40 ∉ id ++ gap ∧ 58 ∉ id ++ gap := by
  obtain ⟨h40, h58, -⟩ := id_spec hid
  simp only [List.mem_append, not_or]
  exact ⟨⟨h40, fun hm => absurd (hgap 40 hm) (by decide)⟩, ⟨h58, fun hm => absurd (hgap 58 hm) (by decide)⟩⟩

theorem trim_id_append : (id ++ gap).trim = id := by
  rw [Bytes.trim_append hgap, Bytes.trim_eq_self (id_spec hid).2.2]

theorem splitHead_plain : splitHead (id ++ gap) = .ok (id, []) := by
  rw [splitHead, Bytes.cutAt?_of_notMem (notMem_id_append hid hgap).1, trim_id_append hid hgap]

/-- A head with a label holds no colon, if none is in the label or behind it. -/
theorem notMem_id_append_label {label rest : Bytes} (hlabel : 58 ∉ label) (hrest : 58 ∉ rest) :
    58 ∉ id ++ gap ++ 40 :: (label ++ 41 :: rest) := by
  have hhead := (notMem_id_append hid hgap).2
  simp only [List.mem_append, List.mem_cons, not_or] at hhead ⊢
  exact ⟨hhead, by decide, hlabel, by decide, hrest⟩

/-- A head with a label is taken apart into its id and its label, whatever is behind the parenthesis. -/
theorem splitHead_labelled {label : Bytes} (h41 : 41 ∉ label) (rest : Bytes) :
    splitHead (id ++ gap ++ 40 :: (label ++ 41 :: rest)) = .ok (id, label.trim) := by
  simp only [splitHead, Bytes.cutAt?_append (notMem_id_append hid hgap).1, Bytes.cutAt?_append h41, trim_id_append hid hgap]

end

/-! ## Reading the form -/

section

variable {line : Bytes} {e e' : Entry}

theorem EntryForm.mono {P Q : Bytes → Prop} (hPQ : ∀ rest, P rest → Q rest) (h : EntryForm P line e) : EntryForm Q line e := by
  cases h with
  | plain hid hgap => exact .plain hid hgap
  | labelled hid hgap h41 h58 hrest => exact .labelled hid hgap h41 h58 (hPQ _ hrest)

/-- A line of the form is read as the entry it stands for. -/
theorem EntryForm.readEntry_eq (h : EntryForm (58 ∉ ·) line e) : readEntry line = .ok e := by
  cases h with
  | plain hid hgap =>
    simp only [readEntry, Bytes.cutAt?_append (notMem_id_append hid hgap).2, splitHead_plain hid hgap, hid, if_true]
  | labelled hid hgap h41 h58 hrest =>
    have hhead := notMem_id_append_label hid hgap h58 hrest
    simp only [readEntry, Bytes.cutAt?_append hhead, splitHead_labelled hid hgap h41, hid, if_true]

/-- A line that is read as an entry and does not start with a blank is of the form. -/
theorem entryForm_of_readEntry (hstart : ∀ b, line.head? = some b → isBlank b = false) (h : readEntry line = .ok e) :
    EntryForm (58 ∉ ·) line e := by
  unfold readEntry at h
  split at h
  · cases h
  · rename_i head text hcolon
    have h58 := Bytes.notMem_of_cutAt? hcolon
    obtain rfl := Bytes.eq_of_cutAt? hcolon
    split at h
    · cases h
    · rename_i id label hhead
      split at h
      · rename_i hid
        cases h
        -- what stands at the start of the line does not start with a blank either, so it is the id and blanks
        have hpart : ∀ part more, head = part ++ more → part.trim = id → ∃ gap, Bytes.IsBlanks gap ∧ part = id ++ gap := by
          rintro part more rfl rfl
          refine Bytes.exists_eq_trim_append fun b hb => hstart b ?_
          rw [List.append_assoc, List.head?_append, hb]
          rfl
        unfold splitHead at hhead
        split at hhead
        · obtain ⟨htrim, rfl⟩ : head.trim = id ∧ [] = label := by simpa using hhead
          obtain ⟨gap, hgap, rfl⟩ := hpart head [] (List.append_nil head).symm htrim
          exact .plain hid hgap
        · rename_i part behind hopen
          split at hhead
          · cases hhead
          · rename_i written rest hclose
            obtain ⟨htrim, rfl⟩ : part.trim = id ∧ written.trim = label := by simpa using hhead
            obtain rfl := Bytes.eq_of_cutAt? hclose
            obtain ⟨gap, hgap, rfl⟩ := hpart part _ (Bytes.eq_of_cutAt? hopen) htrim
            obtain rfl := Bytes.eq_of_cutAt? hopen
            simp only [List.mem_append, List.mem_cons, not_or] at h58
            exact .labelled hid hgap (Bytes.notMem_of_cutAt? hclose) h58.2.2.1 h58.2.2.2.2
      · cases h

/-- A line of the form starts with a byte of its id. -/
theorem EntryForm.head?_eq {Rest : Bytes → Prop} (h : EntryForm Rest line e) : ∃ b, line.head? = some b ∧ isIdByte b = true := by
  have hstart : ∀ id more, isMessageId id = true → ∃ b, (id ++ more).head? = some b ∧ isIdByte b = true := by
    intro id more hid
    obtain ⟨hne, hbytes⟩ := of_isMessageId hid
    obtain ⟨b, t, rfl⟩ := List.exists_cons_of_ne_nil hne
    exact ⟨b, rfl, hbytes b List.mem_cons_self⟩
  cases h with
  | plain hid =>
    rw [List.append_assoc]
    exact hstart _ _ hid
  | labelled hid =>
    rw [List.append_assoc, List.append_assoc]
    exact hstart _ _ hid

/-- A line is an entry just when, trimmed, it has the form, with anything but a colon behind the closing parenthesis. -/
theorem Line.read_eq_entry_iff {raw : Bytes} : Line.read raw = .entry e ↔ EntryForm (58 ∉ ·) raw.trim e := by
  constructor
  · intro h
    simp only [Line.read] at h
    split at h
    · cases h
    · split at h
      · cases h
      · split at h
        · rename_i he
          cases h
          exact entryForm_of_readEntry (Bytes.isTrimmed_trim raw).head he
        · cases h
  · intro h
    obtain ⟨b, hb, hid⟩ := h.head?_eq
    exact Line.read_of_readEntry hb hid h.readEntry_eq

/-! ## What stands behind a label -/

/-- In a line something else than blanks stands between the parenthesis that closes its label and its colon. -/
def TextBehindLabel (line : Bytes) : Prop :=
  ∃ id label rest text : Bytes, line = id ++ 40 :: (label ++ 41 :: rest) ++ 58 :: text ∧ (40 ∉ id ∧ 58 ∉ id) ∧ (41 ∉ label ∧ 58 ∉ label) ∧
    58 ∉ rest ∧ ¬rest.IsBlanks

/-- A line of the form with blanks behind the label has nothing else there. -/
theorem EntryForm.not_textBehindLabel (h : EntryForm Bytes.IsBlanks line e) : ¬TextBehindLabel line := by
  rintro ⟨id, label, rest, text, hline, ⟨h40, h58⟩, ⟨h41, hlabel⟩, hrest, hblanks⟩
  have hhead : 58 ∉ id ++ 40 :: (label ++ 41 :: rest) := by
    simp only [List.mem_append, List.mem_cons, not_or]
    exact ⟨h58, by decide, hlabel, by decide, hrest⟩
  have hcut := Bytes.cutAt?_append hhead text
  rw [← hline] at hcut
  cases h with
  | @plain id' gap text' hid hgap =>
    obtain ⟨h40', h58'⟩ := notMem_id_append hid hgap
    rw [Bytes.cutAt?_append h58'] at hcut
    obtain ⟨hheads, -⟩ : id' ++ gap = id ++ 40 :: (label ++ 41 :: rest) ∧ text' = text := by simpa using hcut
    rw [hheads] at h40'
    exact h40' (List.mem_append_right _ List.mem_cons_self)
  | @labelled id' gap label' rest' text' hid hgap h41' hlabel' hrest' =>
    have hcolon' : 58 ∉ rest' := fun hm => absurd (hrest' 58 hm) (by decide)
    rw [Bytes.cutAt?_append (notMem_id_append_label hid hgap hlabel' hcolon')] at hcut
    obtain ⟨hheads, -⟩ : id' ++ gap ++ 40 :: (label' ++ 41 :: rest') = id ++ 40 :: (label ++ 41 :: rest) ∧ text' = text := by
      simpa using hcut
    have hopen := Bytes.cutAt?_append h40 (label ++ 41 :: rest)
    rw [← hheads, Bytes.cutAt?_append (notMem_id_append hid hgap).1] at hopen
    obtain ⟨-, hbehind⟩ : id' ++ gap = id ∧ label' ++ 41 :: rest' = label ++ 41 :: rest := by simpa using hopen
    have hclose := Bytes.cutAt?_append h41 rest
    rw [← hbehind, Bytes.cutAt?_append h41'] at hclose
    obtain ⟨-, rfl⟩ : label' = label ∧ rest' = rest := by simpa using hclose
    exact hblanks hrest'

/-- The lines of the form with blanks behind the label are the entries with nothing else there. -/
theorem EntryForm.isBlanks_iff {raw : Bytes} :
    EntryForm Bytes.IsBlanks raw.trim e ↔ Line.read raw = .entry e ∧ ¬TextBehindLabel raw.trim := by
  constructor
  · intro h
    refine ⟨Line.read_eq_entry_iff.mpr (h.mono fun rest hrest hm => ?_), h.not_textBehindLabel⟩
    exact absurd (hrest 58 hm) (by decide)
  · rintro ⟨hread, hbehind⟩
    have h := Line.read_eq_entry_iff.mp hread
    generalize raw.trim = line at h hbehind
    cases h with
    | plain hid hgap => exact .plain hid hgap
    | @labelled id gap label rest text hid hgap h41 h58 hrest =>
      have hblanks : rest.IsBlanks := by
        by_contra hno
        exact hbehind ⟨id ++ gap, label, rest, text, rfl, notMem_id_append hid hgap, ⟨h41, h58⟩, hrest, hno⟩
      exact .labelled hid hgap h41 h58 hblanks

end

/-! ## Lines that are no entries -/

/-- A line that is not blank, not a comment and not a setting is malformed if it is no entry. -/
theorem Line.exists_read_eq_malformed {raw : Bytes} (hne : raw.trim ≠ []) (hcomment : raw.trim.head? ≠ some 35)
    (hset : setting? raw.trim = none) (h : ∀ e, Line.read raw ≠ .entry e) : ∃ why, Line.read raw = .malformed why := by
  simp only [Line.read, hne, hcomment, hset, or_self, if_false] at h ⊢
  cases hentry : readEntry raw.trim with
  | ok e => exact absurd (by rw [hentry]) (h e)
  | error why => exact ⟨why, rfl⟩

/-- The lines that are entries are those of the form `id: text` or `id(label): text`, and those with something else than blanks behind the
label besides. Strict loading fails with a parse error at the first line that is neither blank nor a comment, a setting or an entry. -/
theorem Line.entry_iff_form (raw : Bytes) :
    (∀ e, Line.read raw = .entry e ↔ EntryForm (58 ∉ ·) raw.trim e) ∧
      (∀ e, EntryForm Bytes.IsBlanks raw.trim e ↔ Line.read raw = .entry e ∧ ¬TextBehindLabel raw.trim) ∧
      (raw.trim ≠ [] → raw.trim.head? ≠ some 35 → setting? raw.trim = none → (∀ e, Line.read raw ≠ .entry e) →
        ∀ source before after, sourceLines source = before ++ raw :: after → Faultless true before →
          ∃ (why : Malformed) (c : Catalog), c.ReadsTo true before ∧ ∀ h : Handle,
            h.load true source =
              (⟨c, ⟨.catalog, utf8 "Parse error at line " ++ numeral (before.length + 1) ++ utf8 ": " ++ why.message⟩⟩, false)) := by
  refine ⟨fun e => read_eq_entry_iff, fun e => EntryForm.isBlanks_iff, ?_⟩
  intro hne hcomment hset hno source before after hlines hclean
  obtain ⟨why, hwhy⟩ := exists_read_eq_malformed hne hcomment hset hno
  have hs : source ≠ [] := by
    rintro rfl
    have hraw : raw ∈ sourceLines [] := hlines ▸ List.mem_append_right _ List.mem_cons_self
    rw [show sourceLines [] = [[]] from rfl, List.mem_singleton] at hraw
    exact hne (by rw [hraw]; rfl)
  have hf : (Line.read raw).AtFault true before (.malformedLine (before.length + 1) why) := by
    rw [hwhy]
    exact .malformedLine rfl
  obtain ⟨c, hreads, hload⟩ := Handle.load_of_atFault hs hlines hclean hf
  exact ⟨why, c, hreads, hload⟩

/-- A label that is not closed makes the second line of a source malformed. -/
theorem Line.entry_iff_form_sample :
    (utf8 " a(b: c").trim ≠ [] ∧ (utf8 " a(b: c").trim.head? ≠ some 35 ∧ setting? (utf8 " a(b: c").trim = none ∧
      (∀ e, Line.read (utf8 " a(b: c") ≠ .entry e) ∧ Faultless true [utf8 "x: y"] ∧
      ∃ (why : Malformed) (c : Catalog), c.ReadsTo true [utf8 "x: y"] ∧ ∀ h : Handle,
        h.load true (utf8 "x: y\n a(b: c") =
          (⟨c, ⟨.catalog, utf8 "Parse error at line " ++ numeral 2 ++ utf8 ": " ++ why.message⟩⟩, false) := by
  have hread : Line.read (utf8 " a(b: c") = .malformed .openLabel := by decide +kernel
  have hno : ∀ e, Line.read (utf8 " a(b: c") ≠ .entry e := fun e he => Line.noConfusion (hread.symm.trans he)
  have hne : (utf8 " a(b: c").trim ≠ [] := by decide +kernel
  have hcomment : (utf8 " a(b: c").trim.head? ≠ some 35 := by decide +kernel
  have hset : setting? (utf8 " a(b: c").trim = none := by decide +kernel
  have hclean : Faultless true [utf8 "x: y"] :=
    (Catalog.ReadsTo.start.line (Catalog.adds_of_addLine (show Catalog.addLine true 1 {} (.read (utf8 "x: y")) = _ from rfl))).faultless
  exact ⟨hne, hcomment, hset, hno, hclean,
    (Line.entry_iff_form _).2.2 hne hcomment hset hno (utf8 "x: y\n a(b: c") [utf8 "x: y"] [] (by decide +kernel) hclean⟩

/-- A line with a text between the closing parenthesis and the colon is read as an entry, and it is not of the form. -/
theorem Line.read_text_behind_label :
    Line.read (utf8 "a(b)c: d") = .entry ⟨utf8 "a", utf8 "b", utf8 "d"⟩ ∧
      ¬∃ e, EntryForm Bytes.IsBlanks (utf8 "a(b)c: d").trim e := by
  have hbehind : TextBehindLabel (utf8 "a(b)c: d").trim :=
    ⟨utf8 "a", utf8 "b", utf8 "c", utf8 " d", by decide +kernel, by decide, by decide, by decide, by decide⟩
  exact ⟨by decide +kernel, fun ⟨_, h⟩ => h.not_textBehindLabel hbehind⟩

end Phrasebook
