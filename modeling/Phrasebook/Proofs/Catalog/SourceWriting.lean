import Phrasebook.Catalog.Loading
import Phrasebook.Proofs.Catalog.LineWriting
import Mathlib.Data.List.Perm.Basic

/-!
# Writing a catalog source

Metadata and entries are written as the lines of a source: a line for every setting that is made, and then a line for every entry.
Loading that source gives back the metadata and the entries, whatever the catalog held before and in either mode
(`Catalog.load_writtenLines`). The lines are found again because none of them holds a line feed, and the source is not taken for one
that starts with the mark of UTF-8 because it starts with an at sign or an id.
-/

namespace Phrasebook

/-! ## Metadata as settings -/

/-- The settings that make some metadata: a key and a value for each one that is not empty. -/
def Metadata.settings (m : Metadata) : List (Bytes × Bytes) :=
  [(utf8 "locale", m.locale), (utf8 "fallback", m.fallback), (utf8 "note", m.note)].filter (·.2 ≠ [])

/-- Metadata that can be written: no value of it has a blank at its ends or a line feed. -/
def Metadata.Writable (m : Metadata) : Prop := ∀ s ∈ m.settings, Bytes.IsTrimmed s.2 ∧ lineFeed ∉ s.2

/-- The metadata with one setting made. A key that is not known makes none. -/
def Metadata.withSetting (m : Metadata) (s : Bytes × Bytes) : Metadata := (m.set? s.1 s.2).getD m

namespace Metadata

/-- The settings of metadata that can be written can be written. -/
theorem Writable.setting {m : Metadata} (hm : m.Writable) {s : Bytes × Bytes} (h : s ∈ m.settings) : WritableSetting s := by
  obtain ⟨hs, hne⟩ := List.mem_filter.mp h
  obtain ⟨htrimmed, hlf⟩ := hm s h
  refine ⟨?_, by simpa using hne, htrimmed, hlf⟩
  simp only [List.mem_cons, List.not_mem_nil, or_false] at hs
  rcases hs with rfl | rfl | rfl
  · exact List.mem_cons_self
  · exact List.mem_cons_of_mem _ List.mem_cons_self
  · exact List.mem_cons_of_mem _ (List.mem_cons_of_mem _ List.mem_cons_self)

/-- A setting of a known key can be made. -/
theorem set?_eq_some {key : Bytes} (h : key ∈ settingKeys) (m : Metadata) (value : Bytes) :
    m.set? key value = some (m.withSetting (key, value)) := by
  have hsome : (m.set? key value).isSome = true := by
    simp only [settingKeys, List.mem_cons, List.not_mem_nil, or_false] at h
    rcases h with rfl | rfl | rfl
    · rfl
    · rfl
    · rfl
  obtain ⟨m', hm'⟩ := Option.isSome_iff_exists.mp hsome
  simp [withSetting, hm']

/-- The settings of some metadata can be made in any order. -/
theorem withSetting_comm {m : Metadata} {s t : Bytes × Bytes} (hs : s ∈ m.settings) (ht : t ∈ m.settings) (n : Metadata) :
    (n.withSetting s).withSetting t = (n.withSetting t).withSetting s := by
  have hs := (List.mem_filter.mp hs).1
  have ht := (List.mem_filter.mp ht).1
  simp only [List.mem_cons, List.not_mem_nil, or_false] at hs ht
  rcases hs with rfl | rfl | rfl <;> rcases ht with rfl | rfl | rfl <;> rfl

/-- The settings of some metadata make it, in any order. -/
theorem foldl_withSetting {m : Metadata} {made : List (Bytes × Bytes)} (h : made.Perm m.settings) :
    made.foldl withSetting {} = m := by
  rw [← h.symm.foldl_eq' (fun s hs t ht n => withSetting_comm hs ht n)]
  obtain ⟨locale, fallback, note⟩ := m
  -- a setting that is left out leaves its field empty, which is its value
  by_cases hl : locale = [] <;> by_cases hf : fallback = [] <;> by_cases hn : note = [] <;>
    simp [settings, hl, hf, hn] <;> rfl

end Metadata

/-! ## Entries put in one after the other -/

/-- An entry of a new id is one more entry. -/
theorem perm_insertEntry {e : Entry} {xs : List Entry} (h : ∀ x ∈ xs, x.id ≠ e.id) : (insertEntry e xs).Perm (e :: xs) := by
  induction xs with
  | nil => exact List.Perm.refl _
  | cons x xs ih =>
    unfold insertEntry
    split
    · exact List.Perm.refl _
    · rename_i hge
      split
      · exact ((ih fun y hy => h y (List.mem_cons_of_mem _ hy)).cons x).trans (List.Perm.swap e x xs)
      · rename_i hle
        exact absurd (Std.le_antisymm (by simpa using hge) (by simpa using hle)) (h x List.mem_cons_self)

namespace Entries

theorem find?_eq_none_iff {xs : Entries} {id : Bytes} : xs.find? id = none ↔ ∀ x ∈ xs.toList, x.id ≠ id := by
  simp [find?]

/-- The ids that are new to entries stay new when an entry of another id is put in. -/
theorem find?_insert_eq_none {e : Entry} {es : List Entry} (he : e.id ∉ es.map Entry.id) {xs : Entries}
    (hnew : ∀ y ∈ es, xs.find? y.id = none) : ∀ y ∈ es, (xs.insert e).find? y.id = none := by
  intro y hy
  have hne : y.id ≠ e.id := fun h => he (h ▸ List.mem_map_of_mem hy)
  rw [find?_insert, if_neg hne]
  exact hnew y hy

/-- Entries of new ids, no two of the same, are put in as they are. -/
theorem perm_foldl_insert {es : List Entry} (hids : (es.map Entry.id).Nodup) {xs : Entries}
    (hnew : ∀ e ∈ es, xs.find? e.id = none) : (es.foldl insert xs).toList.Perm (es ++ xs.toList) := by
  induction es generalizing xs with
  | nil => exact List.Perm.refl _
  | cons e es ih =>
    obtain ⟨he, hids⟩ := List.nodup_cons.mp hids
    obtain ⟨hnewe, hnewes⟩ := List.forall_mem_cons.mp hnew
    have hins : (xs.insert e).toList.Perm (e :: xs.toList) := perm_insertEntry (find?_eq_none_iff.mp hnewe)
    exact (ih hids (find?_insert_eq_none he hnewes)).trans ((hins.append_left es).trans List.perm_middle)

end Entries

/-! ## Lines put together -/

/-- Lines put together to a source, with a line feed between any two of them and, if the source is closed, one at its end. -/
def joinLines (closed : Bool) (lines : List Bytes) : Bytes :=
  [lineFeed].intercalate lines ++ (if closed then [lineFeed] else [])

/-- A line feed at the end makes one more line, an empty one. -/
theorem joinLines_true {lines : List Bytes} (h : lines ≠ []) : joinLines true lines = [lineFeed].intercalate (lines ++ [[]]) := by
  induction lines with
  | nil => exact absurd rfl h
  | cons l lines ih =>
    cases lines with
    | nil => simp [joinLines]
    | cons l' lines =>
      have ih := ih (List.cons_ne_nil _ _)
      rw [joinLines] at ih ⊢
      rw [List.intercalate_cons_cons, List.append_assoc, ih]
      simp only [List.cons_append, List.intercalate_cons_cons, List.append_assoc]

/-- Lines put together are cut at the line feeds into those lines, if none of them holds one. -/
theorem splitOn_joinLines (closed : Bool) {lines : List Bytes} (hne : lines ≠ []) (hlf : ∀ x ∈ lines, lineFeed ∉ x) :
    (joinLines closed lines).splitOn lineFeed = lines ++ (if closed then [[]] else []) := by
  cases closed with
  | false => simpa [joinLines] using List.splitOn_intercalate lineFeed hlf hne
  | true =>
    rw [joinLines_true hne, List.splitOn_intercalate lineFeed ?_ (by simp)]
    · rfl
    · intro x hx
      rcases List.mem_append.mp hx with hx | hx
      · exact hlf x hx
      · rw [List.mem_singleton.mp hx]
        exact List.not_mem_nil

/-- Lines put together start as the first of them does. -/
theorem head?_joinLines (closed : Bool) (b : UInt8) (l : Bytes) (rest : List Bytes) :
    (joinLines closed ((b :: l) :: rest)).head? = some b := by
  cases rest with
  | nil => simp [joinLines]
  | cons l' rest => simp [joinLines]

/-- Pieces of text put together with a byte between them start with a text without that byte when the first piece does. -/
theorem prefix_intercalate_iff {b : UInt8} {start piece : Bytes} (hstart : b ∉ start) (hpiece : b ∉ piece) (rest : List Bytes) :
    start <+: [b].intercalate (piece :: rest) ↔ start <+: piece := by
  have hall : ∀ {s : Bytes}, b ∉ s → ∀ x ∈ s, (x != b) = true := by
    intro s hs x hx
    have hne : x ≠ b := fun e => hs (e ▸ hx)
    simpa using hne
  have htake : ([b].intercalate (piece :: rest)).takeWhile (· != b) = piece := by
    cases rest with
    | nil => simpa using List.takeWhile_eq_self_iff.mpr (hall hpiece)
    | cons next rest =>
      rw [List.intercalate_cons_cons, List.append_assoc, List.takeWhile_append_of_pos (hall hpiece), List.singleton_append,
        List.takeWhile_cons_of_neg (by simp), List.append_nil]
  constructor
  · rintro ⟨t, ht⟩
    rw [← ht, List.takeWhile_append_of_pos (hall hstart)] at htake
    exact ⟨t.takeWhile (· != b), htake⟩
  · intro h
    rw [← htake] at h
    exact h.trans (List.takeWhile_prefix _)

theorem sourceLines_mark_append (rest : Bytes) : sourceLines (byteOrderMark ++ rest) = rest.splitOn lineFeed := by
  have hmark : byteOrderMark.isPrefixOf (byteOrderMark ++ rest) = true := List.isPrefixOf_iff_prefix.mpr (List.prefix_append _ _)
  rw [sourceLines, if_pos hmark, List.drop_left]

theorem sourceLines_of_not_mark {source : Bytes} (h : ¬byteOrderMark <+: source) : sourceLines source = source.splitOn lineFeed := by
  rw [sourceLines, if_neg fun hmark => h (List.isPrefixOf_iff_prefix.mp hmark)]

/-- Lines put together start with the mark of UTF-8 when the first of them does: the mark holds no line feed. -/
theorem mark_isPrefix_joinLines_iff (closed : Bool) {first : Bytes} (hlf : lineFeed ∉ first) (rest : List Bytes) :
    byteOrderMark <+: joinLines closed (first :: rest) ↔ byteOrderMark <+: first := by
  obtain ⟨more, hmore⟩ : ∃ more, joinLines closed (first :: rest) = [lineFeed].intercalate (first :: more) := by
    cases closed with
    | false => exact ⟨rest, List.append_nil _⟩
    | true => exact ⟨rest ++ [[]], joinLines_true (List.cons_ne_nil _ _)⟩
  rw [hmore, prefix_intercalate_iff (by decide) hlf]

/-- The lines of lines put together are those lines, if none of them holds a line feed and the first does not start with the mark of
UTF-8. -/
theorem sourceLines_joinLines (closed : Bool) {first : Bytes} {rest : List Bytes} (hmark : ¬byteOrderMark <+: first)
    (hlf : ∀ x ∈ first :: rest, lineFeed ∉ x) :
    sourceLines (joinLines closed (first :: rest)) = first :: rest ++ (if closed then [[]] else []) := by
  rw [sourceLines_of_not_mark (mt (mark_isPrefix_joinLines_iff closed (hlf first List.mem_cons_self) rest).mp hmark)]
  exact splitOn_joinLines closed (List.cons_ne_nil _ _) hlf

/-! ## Loading what was written -/

/-- The lines that settings and entries are written in, the settings first. -/
def writtenLines (settings : List (Bytes × Bytes)) (es : List Entry) : List Bytes :=
  settings.map settingLine ++ es.map Entry.sourceLine

/-- Written lines with an entry among them start with an at sign or with an id, so not with the mark of UTF-8. -/
theorem exists_writtenLines_eq_cons (settings : List (Bytes × Bytes)) {es : List Entry} (hes : ∀ e ∈ es, e.Writable)
    (hne : es ≠ []) : ∃ b l rest, writtenLines settings es = (b :: l) :: rest ∧ b ≠ 0xEF := by
  cases settings with
  | cons s settings => exact ⟨64, _, _, rfl, by decide⟩
  | nil =>
    obtain ⟨e, es, rfl⟩ := List.exists_cons_of_ne_nil hne
    obtain ⟨b, hb, hid⟩ := head?_sourceLine (hes e List.mem_cons_self) (58 :: 32 :: escaped e.text)
    obtain ⟨l, hl⟩ := List.head?_eq_some_iff.mp hb
    exact ⟨b, l, es.map Entry.sourceLine, by simp [writtenLines, Entry.sourceLine, hl], (of_isIdByte hid).2.2.2.2.2.2⟩

/-- No written line holds a line feed. -/
theorem lineFeed_notMem_writtenLines {settings : List (Bytes × Bytes)} (hs : ∀ s ∈ settings, WritableSetting s)
    {es : List Entry} (hes : ∀ e ∈ es, e.Writable) : ∀ x ∈ writtenLines settings es, lineFeed ∉ x := by
  intro x hx
  rcases List.mem_append.mp hx with hx | hx
  · obtain ⟨s, h, rfl⟩ := List.mem_map.mp hx
    exact lineFeed_notMem_settingLine (hs s h)
  · obtain ⟨e, he, rfl⟩ := List.mem_map.mp hx
    exact lineFeed_notMem_sourceLine (hes e he)

/-- A source put together from written lines is not empty, and its lines are the written ones. -/
theorem sourceLines_writtenLines (closed : Bool) {settings : List (Bytes × Bytes)} (hs : ∀ s ∈ settings, WritableSetting s)
    {es : List Entry} (hne : es ≠ []) (hes : ∀ e ∈ es, e.Writable) :
    joinLines closed (writtenLines settings es) ≠ [] ∧
      sourceLines (joinLines closed (writtenLines settings es)) = writtenLines settings es ++ (if closed then [[]] else []) := by
  have hlf := lineFeed_notMem_writtenLines hs hes
  obtain ⟨b, l, rest, hlines, hb⟩ := exists_writtenLines_eq_cons settings hes hne
  rw [hlines] at hlf ⊢
  have hmark : ¬byteOrderMark <+: b :: l := fun h => hb (List.cons_prefix_cons.mp h).1.symm
  refine ⟨fun h => ?_, sourceLines_joinLines closed hmark hlf⟩
  have hhead := head?_joinLines closed b l rest
  rw [h] at hhead
  exact absurd hhead nofun

namespace Catalog

/-- Written settings, read before any entry, are made one after the other, in either mode. -/
theorem addLines_settings (strict : Bool) {settings : List (Bytes × Bytes)} (hs : ∀ s ∈ settings, WritableSetting s)
    (number : Nat) {c : Catalog} (hc : c.isEmpty = true) (rest : List Bytes) :
    addLines strict number c (settings.map settingLine ++ rest) =
      addLines strict (number + settings.length) { c with metadata := settings.foldl Metadata.withSetting c.metadata }
        rest := by
  induction settings generalizing number c with
  | nil => rfl
  | cons s settings ih =>
    obtain ⟨h, hrest⟩ := List.forall_mem_cons.mp hs
    have hstep : c.addLine strict number (.read (settingLine s)) = .ok { c with metadata := c.metadata.withSetting s } := by
      simp [Line.read_settingLine h, addLine, hc, Metadata.set?_eq_some h.key]
    have hnext := ih hrest (number + 1) (c := { c with metadata := c.metadata.withSetting s }) hc
    simp only [List.map_cons, List.cons_append, addLines, hstep]
    rw [hnext, List.length_cons, List.foldl_cons, Nat.add_right_comm, Nat.add_assoc number]

/-- Written entries of new ids, no two of the same, are put in one after the other, in either mode. -/
theorem addLines_entries (strict : Bool) {es : List Entry} (hes : ∀ e ∈ es, e.Writable) (hids : (es.map Entry.id).Nodup)
    (number : Nat) {c : Catalog} (hnew : ∀ e ∈ es, c.find? e.id = none) (rest : List Bytes) :
    addLines strict number c (es.map Entry.sourceLine ++ rest) =
      addLines strict (number + es.length) { c with entries := es.foldl Entries.insert c.entries } rest := by
  induction es generalizing number c with
  | nil => rfl
  | cons e es ih =>
    obtain ⟨he, hids⟩ := List.nodup_cons.mp hids
    obtain ⟨hwe, hwes⟩ := List.forall_mem_cons.mp hes
    obtain ⟨hnewe, hnewes⟩ := List.forall_mem_cons.mp hnew
    have hhas : c.has e.id = false := by simp [has, hnewe]
    have hstep : c.addLine strict number (.read e.sourceLine) = .ok { c with entries := c.entries.insert e } := by
      simp [Line.read_sourceLine hwe, addLine, hhas]
    have hnext := ih hwes hids (number + 1) (c := { c with entries := c.entries.insert e }) (Entries.find?_insert_eq_none he hnewes)
    simp only [List.map_cons, List.cons_append, addLines, hstep]
    rw [hnext, List.length_cons, List.foldl_cons, Nat.add_right_comm, Nat.add_assoc number]

/-- What a closed source ends with says nothing. -/
theorem addLines_closing (strict closed : Bool) (number : Nat) {c : Catalog} (hc : c.isEmpty = false) :
    addLines strict number c (if closed then [[]] else []) = (c, none) := by
  cases closed with
  | false => simp [addLines, hc]
  | true =>
    have hidle : Line.read [] = .idle := rfl
    simp [addLines, hidle, addLine, hc]

/-- A catalog holds some metadata and some entries: these and nothing else. -/
structure Holds (c : Catalog) (m : Metadata) (es : List Entry) : Prop where
  metadata : c.metadata = m
  entries : c.entries.toList.Perm es
  found : ∀ id e, c.find? id = some e ↔ e ∈ es ∧ e.id = id
  plural : ∀ id, c.isPlural id = true ↔ ∃ e ∈ es, e.id = id ∧ e.label.lower = utf8 "plural"

/-- What a catalog holds is told by its metadata and the list of its entries. -/
theorem holds_of_perm {c : Catalog} {m : Metadata} {es : List Entry} (hm : c.metadata = m) (he : c.entries.toList.Perm es) :
    c.Holds m es := by
  have hfound : ∀ id e, c.find? id = some e ↔ e ∈ es ∧ e.id = id := by
    intro id e
    rw [find?, Entries.find?_eq_some_iff, he.mem_iff]
  refine ⟨hm, he, hfound, fun id => ?_⟩
  simp only [isPlural, Option.any_eq_true, hfound, Entry.isPlural, beq_iff_eq, and_assoc]

/-- Written lines, read from the start, make the metadata and put in the entries, and there is no fault in either mode. -/
theorem addLines_writtenLines (strict closed : Bool) {settings : List (Bytes × Bytes)} (hs : ∀ s ∈ settings, WritableSetting s)
    {es : List Entry} (hne : es ≠ []) (hes : ∀ e ∈ es, e.Writable) (hids : (es.map Entry.id).Nodup) :
    ∃ c, addLines strict 1 {} (writtenLines settings es ++ (if closed then [[]] else [])) = (c, none) ∧
      c.metadata = settings.foldl Metadata.withSetting {} ∧ c.entries.toList.Perm es := by
  have hnew : ∀ e ∈ es, Entries.empty.find? e.id = none := fun e _ => Entries.find?_empty e.id
  have hperm : (es.foldl Entries.insert .empty).toList.Perm es := by
    simpa [Entries.empty] using Entries.perm_foldl_insert hids hnew
  have hfilled : isEmpty ⟨settings.foldl Metadata.withSetting {}, es.foldl Entries.insert .empty⟩ = false := by
    rw [isEmpty, hperm.isEmpty_eq]
    simpa using hne
  refine ⟨⟨settings.foldl Metadata.withSetting {}, es.foldl Entries.insert .empty⟩, ?_, rfl, hperm⟩
  rw [writtenLines, List.append_assoc, addLines_settings strict hs 1 (c := {}) rfl,
    addLines_entries strict hes hids _ (c := ⟨settings.foldl Metadata.withSetting {}, .empty⟩) hnew,
    addLines_closing strict closed _ hfilled]

/-- A source of written settings, in any order, and written entries loads into a catalog that holds just that: the loading has no
fault in either mode, and what the catalog held before does not count. -/
theorem load_writtenLines (strict closed : Bool) (prior : Catalog) {m : Metadata} (hm : m.Writable)
    {settings : List (Bytes × Bytes)} (hs : settings.Perm m.settings) {es : List Entry} (hne : es ≠ [])
    (hes : ∀ e ∈ es, e.Writable) (hids : (es.map Entry.id).Nodup) :
    ∃ c, prior.load strict (joinLines closed (writtenLines settings es)) = (c, none) ∧ c.Holds m es := by
  have hw : ∀ s ∈ settings, WritableSetting s := fun s h => hm.setting (hs.mem_iff.mp h)
  obtain ⟨hsource, hlines⟩ := sourceLines_writtenLines closed hw hne hes
  obtain ⟨c, hload, hmeta, hperm⟩ := addLines_writtenLines strict closed hw hne hes hids
  refine ⟨c, ?_, holds_of_perm (hmeta.trans (Metadata.foldl_withSetting hs)) hperm⟩
  rw [load, if_neg hsource, hlines, hload]

/-- Values with the marks of lines in them, and a text of a blank, a backslash and the three ends of lines, come back from a source;
the setting of the note stands first in it. -/
theorem load_writtenLines_sample :
    ∃ c, load true {} (utf8 "@meta note = a=b: (c)\n@meta locale = de\nz.1(Plural): \\ \\\\\\n\\r\\t\na-b: \n") = (c, none) ∧
      c.Holds { locale := utf8 "de", note := utf8 "a=b: (c)" }
        [⟨utf8 "z.1", utf8 "Plural", [32, 92, 10, 13, 9]⟩, ⟨utf8 "a-b", [], []⟩] := by
  have hm : Metadata.Writable { locale := utf8 "de", note := utf8 "a=b: (c)" } := by
    intro s hs
    have hs : s ∈ [(utf8 "locale", utf8 "de"), (utf8 "note", utf8 "a=b: (c)")] := hs
    simp only [List.mem_cons, List.not_mem_nil, or_false] at hs
    rcases hs with rfl | rfl
    · exact ⟨Bytes.isTrimmed_trim (utf8 "de"), by decide⟩
    · exact ⟨Bytes.isTrimmed_trim (utf8 "a=b: (c)"), by decide⟩
  have hperm : [(utf8 "note", utf8 "a=b: (c)"), (utf8 "locale", utf8 "de")].Perm
      (Metadata.settings { locale := utf8 "de", note := utf8 "a=b: (c)" }) := List.Perm.swap _ _ _
  have hes : ∀ e ∈ [(⟨utf8 "z.1", utf8 "Plural", [32, 92, 10, 13, 9]⟩ : Entry), ⟨utf8 "a-b", [], []⟩], e.Writable := by
    intro e he
    simp only [List.mem_cons, List.not_mem_nil, or_false] at he
    rcases he with rfl | rfl
    · exact ⟨by decide, Bytes.isTrimmed_trim (utf8 "Plural"), by decide, fun b hb => Option.some.inj hb ▸ rfl⟩
    · exact ⟨by decide, Bytes.isTrimmed_trim [], by decide, nofun⟩
  have hids : ([(⟨utf8 "z.1", utf8 "Plural", [32, 92, 10, 13, 9]⟩ : Entry), ⟨utf8 "a-b", [], []⟩].map Entry.id).Nodup := by decide
  have h := load_writtenLines true true {} hm hperm (List.cons_ne_nil _ _) hes hids
  have hsource : joinLines true (writtenLines [(utf8 "note", utf8 "a=b: (c)"), (utf8 "locale", utf8 "de")]
      [⟨utf8 "z.1", utf8 "Plural", [32, 92, 10, 13, 9]⟩, ⟨utf8 "a-b", [], []⟩]) =
      utf8 "@meta note = a=b: (c)\n@meta locale = de\nz.1(Plural): \\ \\\\\\n\\r\\t\na-b: \n" := by decide +kernel
  rwa [hsource] at h

end Catalog

end Phrasebook
