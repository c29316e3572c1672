import Phrasebook.Proofs.Catalog.Ending

/-!
# The order of entries

Behind the settings of a source, its entries may stand in any order. What lines make is told by their settings before the first entry and
by their entries as a collection (`Catalog.ReadsTo.entries_perm`), and whether one of them is at fault is told without their order as well
(`SettingsFirst.faultless_iff`): an id is given twice in one order just when it is in any other. So a source with its entries in another
order loads into the same catalog, and nothing that can be asked of a handle tells the two apart (`Handle.load_perm`).
-/

namespace Phrasebook

/-! ## The entries in lines -/

/-- The entry in a line, if it is one. -/
def Line.entryIn? : Line → Option Entry
  | .entry e => some e
  | _ => none

/-- The key and the value of the setting in a line, if it is one. -/
def Line.settingIn? : Line → Option (Bytes × Bytes)
  | .setting key value => some (key, value)
  | _ => none

/-- The entries in lines, in their order. -/
def entriesIn (lines : List Bytes) : List Entry := lines.filterMap fun raw => (Line.read raw).entryIn?

theorem Line.map_id_entryIn? (line : Line) : line.entryIn?.map Entry.id = line.id? := by
  cases line <;> rfl

theorem map_id_entriesIn (lines : List Bytes) : (entriesIn lines).map Entry.id = entryIds lines := by
  simp only [entriesIn, entryIds, List.map_filterMap, Line.map_id_entryIn?]

theorem entryIds_perm {lines lines' : List Bytes} (h : lines.Perm lines') : (entryIds lines).Perm (entryIds lines') :=
  h.filterMap _

namespace Catalog

section

variable {strict : Bool} {c : Catalog} {lines before after : List Bytes}

/-- What lines make holds the entries in them. -/
theorem ReadsTo.entries_perm (h : c.ReadsTo strict lines) : c.entries.toList.Perm (entriesIn lines) := by
  induction h with
  | start => exact List.Perm.refl _
  | @line lines raw c c' _ hadds ih =>
    have hsplit : entriesIn (lines ++ [raw]) = entriesIn lines ++ (Line.read raw).entryIn?.toList := by
      rw [entriesIn, List.filterMap_append, List.filterMap_cons, List.filterMap_nil]
      cases (Line.read raw).entryIn? <;> rfl
    rw [hsplit]
    generalize Line.read raw = line at hadds
    cases hadds with
    | @entry e hnew =>
      have hnew : c.entries.find? e.id = none := by simpa [has, find?] using hnew
      have hins : (c.entries.insert e).toList.Perm (e :: c.entries.toList) := perm_insertEntry (Entries.find?_eq_none_iff.mp hnew)
      exact (hins.trans (ih.cons e)).trans (List.perm_append_singleton e _).symm
    | _ => simpa [Line.entryIn?] using ih

/-- The lines at the start make a catalog of their own, and the others leave its metadata if there is no setting among them. -/
theorem ReadsTo.exists_of_append (h : c.ReadsTo strict (before ++ after)) (hnone : ∀ raw ∈ after, (Line.read raw).settingIn? = none) :
    ∃ c₀ : Catalog, c₀.ReadsTo strict before ∧ c.metadata = c₀.metadata := by
  induction after using List.reverseRecOn generalizing c with
  | nil => exact ⟨c, List.append_nil before ▸ h, rfl⟩
  | append_singleton after last ih =>
    rw [← List.append_assoc] at h
    obtain ⟨c', hreads, hadds⟩ := readsTo_concat_iff.mp h
    obtain ⟨hafter, hlast⟩ := List.forall_mem_append.mp hnone
    obtain ⟨c₀, hc₀, hmeta⟩ := ih hreads hafter
    have hset := hlast last (List.mem_singleton_self _)
    refine ⟨c₀, hc₀, Eq.trans ?_ hmeta⟩
    generalize Line.read last = line at hadds hset
    cases hadds with
    | setting => cases hset
    | _ => rfl

end

end Catalog

/-! ## Settings before entries -/

/-- Lines in two parts: no entry in the first, and no setting in the second. -/
structure SettingsFirst (settings entries : List Bytes) : Prop where
  entryIn?_eq_none : ∀ raw ∈ settings, (Line.read raw).entryIn? = none
  settingIn?_eq_none : ∀ raw ∈ entries, (Line.read raw).settingIn? = none

/-- No line in strict mode offends among lines without a fault, whatever its place. -/
theorem Faultless.not_offends {lines : List Bytes} (h : Faultless true lines) :
    ∀ raw ∈ lines, ¬(Line.read raw).Offends [] := by
  intro raw hraw ho
  obtain ⟨before, after, hlines⟩ := List.append_of_mem hraw
  have hclean := h before raw after hlines
  generalize Line.read raw = line at ho hclean
  cases line with
  | idle => exact ho
  | setting key value =>
    have hkey : key ∉ settingKeys := ho.resolve_left fun hne => hne rfl
    by_cases hids : entryIds before = []
    · exact hclean _ (.unknownSetting rfl hids hkey)
    · exact hclean _ (.settingAfterEntries rfl hids)
  | entry e => exact ho
  | malformed why => exact hclean _ (.malformedLine rfl)

namespace SettingsFirst

variable {strict : Bool} {settings entries entries' : List Bytes}

theorem perm (h : SettingsFirst settings entries) (hperm : entries.Perm entries') : SettingsFirst settings entries' :=
  ⟨h.entryIn?_eq_none, fun raw hraw => h.settingIn?_eq_none raw (hperm.mem_iff.mpr hraw)⟩

/-- A line at the end that says nothing belongs to the second part. -/
theorem append_idle (h : SettingsFirst settings entries) {closing : List Bytes} (hidle : ∀ raw ∈ closing, Line.read raw = .idle) :
    SettingsFirst settings (entries ++ closing) := by
  refine ⟨h.entryIn?_eq_none, List.forall_mem_append.mpr ⟨h.settingIn?_eq_none, fun raw hraw => ?_⟩⟩
  rw [hidle raw hraw]
  rfl

theorem entryIds_settings (h : SettingsFirst settings entries) : entryIds settings = [] := by
  rw [← map_id_entriesIn, entriesIn, List.filterMap_eq_nil_iff.mpr h.entryIn?_eq_none, List.map_nil]

theorem entryIds_eq (h : SettingsFirst settings entries) : entryIds (settings ++ entries) = entryIds entries := by
  rw [entryIds_append, h.entryIds_settings, List.nil_append]

/-- A setting stands before all ids. -/
theorem entryIds_before_setting (h : SettingsFirst settings entries) {before after : List Bytes} {raw key value : Bytes}
    (hlines : settings ++ entries = before ++ raw :: after) (hset : Line.read raw = .setting key value) : entryIds before = [] := by
  rcases List.append_eq_append_iff.mp hlines with ⟨more, -, hmore⟩ | ⟨more, hmore, -⟩
  · have hraw : raw ∈ entries := hmore ▸ List.mem_append_right _ List.mem_cons_self
    have hsetting := h.settingIn?_eq_none raw hraw
    rw [hset] at hsetting
    cases hsetting
  · have hnone := h.entryIds_settings
    rw [hmore, entryIds_append] at hnone
    exact (List.append_eq_nil_iff.mp hnone).1

/-- Lines with their settings first are without a fault when no id is given twice and, in strict mode, each of them is a line that would
do at the start. The order of the second part does not count in this. -/
theorem faultless_iff (h : SettingsFirst settings entries) :
    Faultless strict (settings ++ entries) ↔
      (entryIds entries).Nodup ∧ (strict = true → ∀ raw ∈ settings ++ entries, ¬(Line.read raw).Offends []) := by
  constructor
  · intro hclean
    obtain ⟨c, hreads⟩ := hclean.exists_readsTo
    refine ⟨h.entryIds_eq ▸ hreads.follows.nodup, ?_⟩
    rintro rfl
    exact hclean.not_offends
  · rintro ⟨hnodup, hgood⟩ before raw after hlines f hf
    have hraw : raw ∈ settings ++ entries := hlines ▸ List.mem_append_right _ List.mem_cons_self
    generalize hline : Line.read raw = line at hf
    cases hf with
    | @duplicateId e hid =>
      rw [← h.entryIds_eq, hlines, entryIds_append] at hnodup
      have hhere : e.id ∈ entryIds (raw :: after) := by
        rw [entryIds, List.filterMap_cons, hline]
        exact List.mem_cons_self
      exact List.disjoint_of_nodup_append hnodup hid hhere
    | settingAfterEntries _ hids => exact hids (h.entryIds_before_setting hlines hline)
    | unknownSetting hstrict _ hkey =>
      refine hgood hstrict raw hraw ?_
      rw [hline]
      exact Or.inr hkey
    | malformedLine hstrict =>
      refine hgood hstrict raw hraw ?_
      rw [hline]
      trivial

/-- What lines make with their settings first, they make in any order of the second part. -/
theorem readsTo_perm (h : SettingsFirst settings entries) (hperm : entries.Perm entries') {c : Catalog}
    (hreads : c.ReadsTo strict (settings ++ entries)) : c.ReadsTo strict (settings ++ entries') := by
  have hlines : (settings ++ entries).Perm (settings ++ entries') := hperm.append_left settings
  obtain ⟨hnodup, hgood⟩ := h.faultless_iff.mp hreads.faultless
  have hclean : Faultless strict (settings ++ entries') :=
    (h.perm hperm).faultless_iff.mpr
      ⟨(entryIds_perm hperm).nodup_iff.mp hnodup, fun hstrict raw hraw => hgood hstrict raw (hlines.mem_iff.mpr hraw)⟩
  obtain ⟨c', hreads'⟩ := hclean.exists_readsTo
  have hentries : c.entries.toList.Perm c'.entries.toList :=
    hreads.entries_perm.trans ((hlines.filterMap _).trans hreads'.entries_perm.symm)
  obtain ⟨c₀, hc₀, hmeta⟩ := hreads.exists_of_append h.settingIn?_eq_none
  obtain ⟨c₁, hc₁, hmeta'⟩ := hreads'.exists_of_append (h.perm hperm).settingIn?_eq_none
  obtain rfl := hc₀.unique hc₁
  obtain rfl := Catalog.eq_of_perm (hmeta.trans hmeta'.symm) hentries
  exact hreads'

end SettingsFirst

/-! ## Loading entries in another order -/

/-- Loading succeeds just when the lines of the source make a catalog and one of them gives an id; then the handle has that catalog and no
last error. -/
theorem Handle.load_eq_true_iff {strict : Bool} {source : Bytes} (hs : source ≠ []) {h k : Handle} :
    h.load strict source = (k, true) ↔
      k.catalog.ReadsTo strict (sourceLines source) ∧ k.lastError = {} ∧ entryIds (sourceLines source) ≠ [] := by
  constructor
  · intro hload
    have hending : Ending strict (sourceLines source) (k, true) := hload ▸ ending_load hs h
    cases hending with
    | success _ hids hreads => exact ⟨hreads, rfl, hids⟩
  · obtain ⟨c, e⟩ := k
    rintro ⟨hreads, rfl, hids⟩
    have hfilled : c.entries ≠ .empty := mt (fun h => hreads.follows.isEmpty_iff.mp (Catalog.isEmpty_iff.mpr h)) hids
    exact (ending_load hs h).unique (.success hreads.faultless hids hreads hfilled)

theorem read_closing (closed : Bool) : ∀ raw ∈ (if closed then [[]] else [] : List Bytes), Line.read raw = .idle := by
  cases closed with
  | false => exact nofun
  | true => exact fun raw hraw => List.mem_singleton.mp hraw ▸ rfl

/-- A source of lines that do not start with the mark of UTF-8 has these lines, and one more if it is closed. -/
theorem sourceLines_joinLines_of_forall (closed : Bool) {lines : List Bytes} (hne : lines ≠ [])
    (h : ∀ line ∈ lines, lineFeed ∉ line ∧ ¬byteOrderMark <+: line) :
    sourceLines (joinLines closed lines) = lines ++ (if closed then [[]] else []) := by
  obtain ⟨first, rest, rfl⟩ := List.exists_cons_of_ne_nil hne
  exact sourceLines_joinLines closed (h first List.mem_cons_self).2 fun line hline => (h line hline).1

/-- A source with its settings first that loads does so with its entries in any order, and the handle is the same then. -/
theorem Handle.load_eq_of_perm {strict closed : Bool} {settings entries entries' : List Bytes} (hfirst : SettingsFirst settings entries)
    (hplain : ∀ line ∈ settings ++ entries, lineFeed ∉ line ∧ ¬byteOrderMark <+: line) (hperm : entries.Perm entries') {h k : Handle}
    (hload : h.load strict (joinLines closed (settings ++ entries)) = (k, true)) (h' : Handle) :
    h'.load strict (joinLines closed (settings ++ entries')) = (k, true) := by
  have hsource : joinLines closed (settings ++ entries) ≠ [] := by
    intro hs
    rw [hs] at hload
    cases congrArg Prod.snd hload
  obtain ⟨hreads, herror, hids⟩ := (load_eq_true_iff hsource).mp hload
  have hlines : (settings ++ entries).Perm (settings ++ entries') := hperm.append_left settings
  have hne : settings ++ entries ≠ [] := by
    intro hnil
    rw [hnil] at hids
    exact hids (by cases closed <;> rfl)
  have hne' : settings ++ entries' ≠ [] := by
    intro hnil
    rw [hnil] at hlines
    exact hne hlines.eq_nil
  rw [sourceLines_joinLines_of_forall closed hne hplain] at hreads hids
  have hsame := sourceLines_joinLines_of_forall closed hne' fun line hline => hplain line (hlines.mem_iff.mpr hline)
  have hreads' : k.catalog.ReadsTo strict (sourceLines (joinLines closed (settings ++ entries'))) := by
    rw [hsame]
    rw [List.append_assoc] at hreads ⊢
    exact (hfirst.append_idle (read_closing closed)).readsTo_perm (hperm.append_right _) hreads
  have hids' : entryIds (sourceLines (joinLines closed (settings ++ entries'))) ≠ [] := by
    rw [hsame]
    intro hnil
    have hperm := entryIds_perm (hlines.append_right (if closed then [[]] else []))
    rw [hnil] at hperm
    exact hids hperm.eq_nil
  have hsource' : joinLines closed (settings ++ entries') ≠ [] := by
    intro hs
    rw [hs] at hids'
    exact hids' rfl
  exact (load_eq_true_iff hsource').mpr ⟨hreads', herror, hids'⟩

/-- Handles that cannot be told apart by asking them for what their catalogs hold or say, with whatever arguments, or by checking them,
each as the one that is checked or as the base. -/
structure Handle.Alike (h k : Handle) : Prop where
  size : h.catalog.size = k.catalog.size
  has : ∀ id, h.catalog.has id = k.catalog.has id
  isPlural : ∀ id, h.catalog.isPlural id = k.catalog.isPlural id
  message? : ∀ id, h.catalog.message? id = k.catalog.message? id
  pluralLocale : h.catalog.pluralLocale = k.catalog.pluralLocale
  phrase : ∀ id values, (h.phrase id values).2 = (k.phrase id values).2
  phrase_lastError : ∀ id values, (h.phrase id values).1.lastError = (k.phrase id values).1.lastError
  phraseForCount : ∀ id n values, (h.phraseForCount id n values).2 = (k.phraseForCount id n values).2
  phraseForCount_lastError : ∀ id n values,
    (h.phraseForCount id n values).1.lastError = (k.phraseForCount id n values).1.lastError
  table : h.catalog.table = k.catalog.table
  searchText : ∀ query, h.catalog.searchText query = k.catalog.searchText query
  check_code : ∀ base : Catalog, (h.catalog.check base).code = (k.catalog.check base).code
  check_text : ∀ base : Catalog, (h.catalog.check base).text = (k.catalog.check base).text
  code_check : ∀ target : Catalog, (target.check h.catalog).code = (target.check k.catalog).code
  text_check : ∀ target : Catalog, (target.check h.catalog).text = (target.check k.catalog).text

theorem Handle.Alike.refl (h : Handle) : h.Alike h := by
  constructor <;> intros <;> rfl

/-- A source with its settings first, none of its lines starting with the mark of UTF-8, that loads in a mode loads in it with its entries
in any order, too, and the two handles cannot be told apart: they have the same catalog. -/
theorem Handle.load_perm {strict closed : Bool} {settings entries entries' : List Bytes} (hfirst : SettingsFirst settings entries)
    (hplain : ∀ line ∈ settings ++ entries, lineFeed ∉ line ∧ ¬byteOrderMark <+: line) (hperm : entries.Perm entries') {h : Handle}
    (hload : (h.load strict (joinLines closed (settings ++ entries))).2 = true) (h' : Handle) :
    (h'.load strict (joinLines closed (settings ++ entries'))).2 = true ∧
      (h.load strict (joinLines closed (settings ++ entries))).1.Alike (h'.load strict (joinLines closed (settings ++ entries'))).1 ∧
      (h.load strict (joinLines closed (settings ++ entries))).1.catalog =
        (h'.load strict (joinLines closed (settings ++ entries'))).1.catalog := by
  obtain ⟨k, hk⟩ : ∃ k, h.load strict (joinLines closed (settings ++ entries)) = (k, true) := ⟨_, Prod.ext rfl hload⟩
  rw [hk, Handle.load_eq_of_perm hfirst hplain hperm hk h']
  exact ⟨rfl, .refl k, rfl⟩

/-- A comment, a setting, and two entries, one of them with a fault in its text: with the entries the other way round the same is loaded,
and the report of a check has the same findings in the same order. -/
theorem Handle.load_perm_sample :
    (({} : Handle).load true (utf8 "# x\n@meta locale = de\nb: <i>\na(Plural): y\n")).2 = true ∧
      (({} : Handle).load true (utf8 "# x\n@meta locale = de\na(Plural): y\nb: <i>\n")).2 = true ∧
      (({} : Handle).load true (utf8 "# x\n@meta locale = de\nb: <i>\na(Plural): y\n")).1.Alike
        (({} : Handle).load true (utf8 "# x\n@meta locale = de\na(Plural): y\nb: <i>\n")).1 := by
  have hfirst : SettingsFirst [utf8 "# x", utf8 "@meta locale = de"] [utf8 "b: <i>", utf8 "a(Plural): y"] :=
    ⟨by decide +kernel, by decide +kernel⟩
  have hplain : ∀ line ∈ [utf8 "# x", utf8 "@meta locale = de"] ++ [utf8 "b: <i>", utf8 "a(Plural): y"],
      lineFeed ∉ line ∧ ¬byteOrderMark <+: line := by decide +kernel
  have hsource : joinLines true ([utf8 "# x", utf8 "@meta locale = de"] ++ [utf8 "b: <i>", utf8 "a(Plural): y"]) =
      utf8 "# x\n@meta locale = de\nb: <i>\na(Plural): y\n" := by decide +kernel
  have hsource' : joinLines true ([utf8 "# x", utf8 "@meta locale = de"] ++ [utf8 "a(Plural): y", utf8 "b: <i>"]) =
      utf8 "# x\n@meta locale = de\na(Plural): y\nb: <i>\n" := by decide +kernel
  have hload : (({} : Handle).load true (utf8 "# x\n@meta locale = de\nb: <i>\na(Plural): y\n")).2 = true := by decide +kernel
  rw [← hsource] at hload ⊢
  rw [← hsource']
  obtain ⟨hload', halike, -⟩ := Handle.load_perm hfirst hplain (.swap _ _ _) hload {}
  exact ⟨hload, hload', halike⟩

end Phrasebook
