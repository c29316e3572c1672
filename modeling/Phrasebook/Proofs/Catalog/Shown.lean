import Phrasebook.Proofs.Catalog.Containers
import Phrasebook.Proofs.Catalog.Findings

/-!
# What containers show

Containers show a handle when every lookup gives what the entries of its catalog give (`Containers.Shows`). New containers show a new
handle; one line keeps it so, hence all lines do, and so does loading a source (`Shows.load`). The ids of containers, once they are sorted,
are those of the catalog in its order (`Shows.sortedIds`), so that phrases, checks and listings come out alike. Used alike, containers and
handles therefore cannot be told apart (`Shows.use`, `Containers.shows_after`).
-/

namespace Phrasebook

/-- The label of an id, if its entry has one. -/
def Catalog.label? (c : Catalog) (id : Bytes) : Option Bytes := ((c.find? id).map Entry.label).filter (fun label => label != [])

theorem Catalog.find?_insert (c : Catalog) (e : Entry) (id : Bytes) :
    ({ c with entries := c.entries.insert e } : Catalog).find? id = if id = e.id then some e else c.find? id :=
  Entries.find?_insert c.entries e id

/-- Every lookup in the containers gives what the entries of the catalog give. -/
structure Containers.Shows (k : Containers) (h : Handle) : Prop where
  texts : ∀ id, k.texts[id]? = h.catalog.message? id
  labels : ∀ id, k.labels[id]? = h.catalog.label? id
  plurals : ∀ id, k.plurals.contains id = h.catalog.isPlural id
  metadata : k.metadata = h.catalog.metadata
  lastError : k.lastError = h.lastError

namespace Containers

variable {k k' : Containers} {h h' : Handle} {id : Bytes}

theorem shows_empty : Shows {} {} where
  texts _ := Std.HashMap.getElem?_empty
  labels _ := Std.HashMap.getElem?_empty
  plurals _ := Std.HashSet.contains_empty
  metadata := rfl
  lastError := rfl

/-! ## Loading -/

theorem Shows.has (hk : k.Shows h) (id : Bytes) : k.has id = h.catalog.has id := by
  rw [Containers.has, Std.HashMap.contains_eq_isSome_getElem?, hk.texts, Catalog.message?, Option.isSome_map]
  rfl

/-- Putting an entry of a new id into the containers shows putting it into the catalog. -/
theorem Shows.put (hk : k.Shows h) {e : Entry} (hnew : h.catalog.has e.id = false) :
    (k.put e).Shows { h with catalog := { h.catalog with entries := h.catalog.entries.insert e } } := by
  have hnone : h.catalog.find? e.id = none := by simpa [Catalog.has] using hnew
  have htexts : e.id ∉ k.texts := by
    rw [Std.HashMap.mem_iff_isSome_getElem?, hk.texts, Catalog.message?, hnone]
    exact Bool.false_ne_true
  have hlabels : e.id ∉ k.labels := by
    rw [Std.HashMap.mem_iff_isSome_getElem?, hk.labels, Catalog.label?, hnone]
    exact Bool.false_ne_true
  constructor
  case texts =>
    intro id
    rw [texts_put, Std.HashMap.getElem?_insertIfNew, hk.texts, Catalog.message?, Catalog.message?, Catalog.find?_insert]
    by_cases hid : id = e.id
    · simp [hid, htexts]
    · simp [hid, Ne.symm hid]
  case labels =>
    intro id
    rw [getElem?_labels_put hlabels, Catalog.label?, Catalog.find?_insert]
    by_cases hid : id = e.id
    · subst hid
      by_cases hlabel : e.label = []
      · simp [hlabel, Std.HashMap.getElem?_eq_none hlabels, Option.filter_some]
      · simp [hlabel, Option.filter_some]
    · rw [if_neg fun h => hid h.1, if_neg hid, hk.labels, Catalog.label?]
  case plurals =>
    intro id
    rw [Bool.eq_iff_iff, Std.HashSet.contains_iff_mem, mem_plurals_put, Catalog.isPlural, Catalog.find?_insert]
    by_cases hid : id = e.id
    · subst hid
      have hplurals : e.id ∉ k.plurals := by
        rw [← Std.HashSet.contains_iff_mem, hk.plurals, Catalog.isPlural, hnone]
        exact Bool.false_ne_true
      simp [hplurals, Entry.isPlural]
    · rw [if_neg hid, ← Catalog.isPlural, ← hk.plurals, Std.HashSet.contains_iff_mem]
      simp [hid]
  case metadata => rw [metadata_put, hk.metadata]
  case lastError => rw [lastError_put, hk.lastError]

theorem Shows.withMetadata {c : Catalog} {e : LastError} (hk : k.Shows ⟨c, e⟩) (m : Metadata) :
    ({ k with metadata := m } : Containers).Shows ⟨{ c with metadata := m }, e⟩ :=
  ⟨hk.texts, hk.labels, hk.plurals, rfl, hk.lastError⟩

theorem Shows.withError (hk : k.Shows h) (e : LastError) : ({ k with lastError := e } : Containers).Shows (h.withError e) :=
  ⟨hk.texts, hk.labels, hk.plurals, hk.metadata, rfl⟩

/-- A loading has come to what the catalog has become, and it knows whether there is an entry. -/
structure Filling.Shows (s : Filling) (c : Catalog) : Prop where
  containers : s.containers.Shows ⟨c, {}⟩
  loaded : s.loaded = 0 ↔ c.isEmpty = true
  seen : s.seen = !c.isEmpty

namespace Filling

variable {s : Filling} {c : Catalog}

theorem Shows.withMetadata (hs : s.Shows c) (m : Metadata) :
    ({ s with containers.metadata := m } : Filling).Shows { c with metadata := m } :=
  ⟨hs.containers.withMetadata m, hs.loaded, hs.seen⟩

theorem Shows.put (hs : s.Shows c) {e : Entry} (hnew : c.has e.id = false) :
    (⟨s.containers.put e, s.loaded + 1, true⟩ : Filling).Shows { c with entries := c.entries.insert e } := by
  have hfilled : ({ c with entries := c.entries.insert e } : Catalog).isEmpty = false := by
    have hmem : e ∈ (c.entries.insert e).toList :=
      (Entries.find?_eq_some_iff.mp ((Entries.find?_insert c.entries e e.id).trans (if_pos rfl))).1
    exact List.isEmpty_eq_false_iff.mpr (List.ne_nil_of_mem hmem)
  exact ⟨hs.containers.put hnew, by simp [hfilled], by simp [hfilled]⟩

/-- Two lines come to the same: they are at the same fault, or what one leaves shows what the other leaves. -/
inductive ShowsResult : Except LoadFault Filling → Except LoadFault Catalog → Prop
  | ok {s : Filling} {c : Catalog} : s.Shows c → ShowsResult (.ok s) (.ok c)
  | error (f : LoadFault) : ShowsResult (.error f) (.error f)

/-- One line comes to the same in the containers and in the catalog. -/
theorem Shows.addLine (hs : s.Shows c) (strict : Bool) (number : Nat) (line : Line) :
    ShowsResult (s.addLine strict number line) (c.addLine strict number line) := by
  cases line with
  | idle => exact .ok hs
  | malformed why =>
    cases strict with
    | true => exact .error _
    | false => exact .ok hs
  | entry e =>
    have hsame : s.containers.texts.contains e.id = c.has e.id := hs.containers.has e.id
    rw [Filling.addLine, hsame, Catalog.addLine]
    cases hnew : c.has e.id with
    | true => exact .error _
    | false => exact .ok (hs.put hnew)
  | setting key value =>
    have hseen := hs.seen
    cases hempty : c.isEmpty with
    | false =>
      rw [hempty, Bool.not_false] at hseen
      rw [addLine_setting_of_seen hseen, Catalog.addLine, hempty]
      cases strict with
      | true => exact .error _
      | false => exact .ok hs
    | true =>
      rw [hempty, Bool.not_true] at hseen
      rw [addLine_setting hseen, Catalog.addLine, if_pos hempty, hs.containers.metadata]
      cases c.metadata.set? key value with
      | some m => exact .ok (hs.withMetadata m)
      | none =>
        cases strict with
        | true => exact .error _
        | false => exact .ok hs

/-- All lines end at the same fault, or at none, in the containers and in the catalog, and the containers are left showing what the catalog
is left as. -/
theorem Shows.addLines (hs : s.Shows c) (strict : Bool) (number : Nat) (lines : List Bytes) :
    (s.addLines strict number lines).1.Shows (c.addLines strict number lines).1 ∧
      (s.addLines strict number lines).2 = (c.addLines strict number lines).2 := by
  induction lines generalizing s c number with
  | nil =>
    refine ⟨hs, ?_⟩
    cases hempty : c.isEmpty with
    | true => simp [Filling.addLines, Catalog.addLines, hs.loaded, hempty]
    | false => simp [Filling.addLines, Catalog.addLines, hs.loaded, hempty]
  | cons raw rest ih =>
    have hline := hs.addLine strict number (.read raw)
    rw [Filling.addLines, Catalog.addLines]
    generalize s.addLine strict number (.read raw) = r, c.addLine strict number (.read raw) = r' at hline
    cases hline with
    | ok hshows => exact ih hshows (number + 1)
    | error f => exact ⟨hs, rfl⟩

end Filling

/-- Loading a source succeeds in both or in neither, and the containers are left showing what the catalog is left as. -/
theorem Shows.load (hk : k.Shows h) (strict : Bool) (source : Bytes) :
    (k.load strict source).1.Shows (h.load strict source).1 ∧ (k.load strict source).2 = (h.load strict source).2 := by
  by_cases hsource : source = []
  · rw [Containers.load, if_pos hsource, Handle.load, Catalog.load, if_pos hsource]
    exact ⟨hk.withError _, rfl⟩
  · have hstart : (⟨{}, 0, false⟩ : Filling).Shows {} := ⟨shows_empty, by simp [Catalog.isEmpty, Entries.empty], rfl⟩
    obtain ⟨hshows, hfault⟩ := hstart.addLines strict 1 (sourceLines source)
    rw [Containers.load, if_neg hsource, Handle.load, Catalog.load, if_neg hsource]
    revert hshows hfault
    rcases Filling.addLines strict 1 {} (sourceLines source) with ⟨s, _ | f⟩
    · rcases Catalog.addLines strict 1 {} (sourceLines source) with ⟨c, _ | f'⟩
      · exact fun hshows _ => ⟨hshows.containers, rfl⟩
      · rintro - hfault
        cases hfault
    · rcases Catalog.addLines strict 1 {} (sourceLines source) with ⟨c, _ | f'⟩
      · rintro - hfault
        cases hfault
      · rintro hshows hfault
        cases hfault
        exact ⟨hshows.containers.withError f.lastError, rfl⟩

/-! ## Reading -/

theorem Shows.pluralLocale (hk : k.Shows h) : k.pluralLocale = h.catalog.pluralLocale := by
  have hempty : hasPluralRules [] = false := by decide
  have hset : ∀ locale : Bytes, (locale ≠ [] ∧ hasPluralRules locale = true) = (hasPluralRules locale = true) := by
    intro locale
    refine propext ⟨And.right, fun h => ⟨?_, h⟩⟩
    rintro rfl
    rw [hempty] at h
    cases h
  simp only [Containers.pluralLocale, Catalog.pluralLocale, hk.metadata, hset]

/-- Keeping the fault of an outcome shows keeping it. -/
theorem Shows.settle (hk : k.Shows h) (r : Except Fault Bytes) :
    (k.settle r).1.Shows (h.settle r).1 ∧ (k.settle r).2 = (h.settle r).2 := by
  cases r with
  | ok out => exact ⟨hk.withError {}, rfl⟩
  | error f => exact ⟨hk.withError f.lastError, rfl⟩

theorem Shows.phrase (hk : k.Shows h) (id : Bytes) (vs : Values Bytes) :
    (k.phrase id vs).1.Shows (h.phrase id vs).1 ∧ (k.phrase id vs).2 = (h.phrase id vs).2 := by
  have hmessage : k.message? id = h.catalog.message? id := hk.texts id
  rw [Containers.phrase, hmessage]
  exact hk.settle (h.catalog.phrase id vs)

theorem Shows.phraseForCount (hk : k.Shows h) (id : Bytes) (n : Int) (vs : Values Bytes) :
    (k.phraseForCount id n vs).1.Shows (h.phraseForCount id n vs).1 ∧ (k.phraseForCount id n vs).2 = (h.phraseForCount id n vs).2 := by
  have hmessage : k.message? id = h.catalog.message? id := hk.texts id
  rw [Containers.phraseForCount, hmessage, hk.pluralLocale]
  exact hk.settle (h.catalog.phraseForCount id n vs)

/-- The ids come in no order, each once. -/
theorem Shows.keys_perm (hk : k.Shows h) : k.texts.keys.Perm h.catalog.ids := by
  refine (List.perm_ext_iff_of_nodup Std.HashMap.nodup_keys h.catalog.nodup_ids).mpr fun id => ?_
  rw [Std.HashMap.mem_keys, Catalog.mem_ids, ← hk.has]
  rfl

/-- Once they are sorted, the ids come in the order of the catalog. -/
theorem Shows.sortedIds (hk : k.Shows h) : k.sortedIds = h.catalog.ids := by
  have hsorted : k.sortedIds.Pairwise (· ≤ ·) := by
    have hpairwise : k.sortedIds.Pairwise fun a b => decide (a ≤ b) = true :=
      List.pairwise_mergeSort (fun a b c hab hbc => by simpa using List.le_trans (by simpa using hab) (by simpa using hbc))
        (fun a b => by simpa using List.le_total a b) k.texts.keys
    simpa using hpairwise
  have hincreasing : h.catalog.ids.Pairwise (· ≤ ·) := h.catalog.ids_increasing.imp List.le_of_lt
  exact ((List.mergeSort_perm _ _).trans hk.keys_perm).eq_of_pairwise (fun _ _ _ _ => List.le_antisymm) hsorted hincreasing

theorem Shows.size (hk : k.Shows h) : k.size = h.catalog.size := by
  rw [Containers.size, ← Std.HashMap.length_keys, hk.keys_perm.length_eq, Catalog.ids, List.length_map]
  rfl

theorem Shows.isEmpty (hk : k.Shows h) : k.texts.isEmpty = h.catalog.isEmpty := by
  have hsize : k.texts.size = h.catalog.entries.toList.length := hk.size
  rw [Std.HashMap.isEmpty_eq_size_eq_zero, hsize, Catalog.isEmpty]
  cases h.catalog.entries.toList <;> rfl

theorem Shows.getD_texts (hk : k.Shows h) {e : Entry} (he : e ∈ h.catalog.entries.toList) : k.texts.getD e.id [] = e.text := by
  rw [Std.HashMap.getD_eq_getD_getElem?, hk.texts, Catalog.message?_of_find? (Catalog.find?_of_mem he)]
  rfl

theorem Shows.getD_labels (hk : k.Shows h) {e : Entry} (he : e ∈ h.catalog.entries.toList) : k.labels.getD e.id [] = e.label := by
  rw [Std.HashMap.getD_eq_getD_getElem?, hk.labels, Catalog.label?, Catalog.find?_of_mem he, Option.map_some, Option.filter_some]
  by_cases hlabel : e.label = []
  · simp [hlabel]
  · simp [hlabel]

/-- What the listings show of the ids are the entries of the catalog. -/
theorem Shows.entries (hk : k.Shows h) : k.sortedIds.map k.entry = h.catalog.entries.toList := by
  rw [hk.sortedIds, Catalog.ids, List.map_map]
  have hentry : ∀ e ∈ h.catalog.entries.toList, (k.entry ∘ Entry.id) e = e := by
    intro e he
    rw [Function.comp_apply, Containers.entry, hk.getD_texts he, hk.getD_labels he]
  exact (List.map_congr_left hentry).trans (List.map_id' _)

theorem Shows.table (hk : k.Shows h) : k.table = h.catalog.table := by
  have hrows : (k.sortedIds.map fun id => Catalog.row id (k.labels.getD id []) (k.texts.getD id [])) =
      h.catalog.entries.toList.map fun e => Catalog.row e.id e.label e.text := by
    rw [← hk.entries, List.map_map]
    rfl
  rw [Containers.table, hrows, Catalog.table]

theorem Shows.searchText (hk : k.Shows h) (query : Bytes) : k.searchText query = h.catalog.searchText query := by
  rw [Containers.searchText, hk.entries, Catalog.searchText, Catalog.search]
  cases h.catalog.entries.toList.filter fun e => e.holds query with
  | nil => rfl
  | cons e es =>
    have hline : (e :: es).flatMap Entry.line ≠ [] := by simp [Entry.line, lineFeed]
    exact if_neg hline

/-- What is wrong with the text of an id is what is wrong with it for the entry of the base. -/
theorem Shows.finding? (hb : k'.Shows h') {e : Entry} (he : e ∈ h'.catalog.entries.toList) (locale text : Bytes) :
    k'.finding? locale e.id text = e.finding? locale text := by
  have hplural : k'.isPlural e.id = e.isPlural :=
    (hb.plurals e.id).trans (Catalog.isPlural_of_find? (Catalog.find?_of_mem he))
  rw [Containers.finding?, hplural, hb.getD_texts he]
  rfl

/-- The findings at the ids of entries of the base are the findings on the entries. -/
theorem Shows.findings (hk : k.Shows h) (hb : k'.Shows h') (said : Bool) {es : List Entry}
    (hes : ∀ e ∈ es, e ∈ h'.catalog.entries.toList) : k.findings k' said (es.map Entry.id) = h.catalog.findings said es := by
  induction es generalizing said with
  | nil => rfl
  | cons e es ih =>
    obtain ⟨he, hes⟩ := List.forall_mem_cons.mp hes
    have hmessage : k.message? e.id = h.catalog.message? e.id := hk.texts e.id
    have hplural : k'.isPlural e.id = e.isPlural :=
      (hb.plurals e.id).trans (Catalog.isPlural_of_find? (Catalog.find?_of_mem he))
    rw [List.map_cons, Containers.findings, Catalog.findings, hmessage, Catalog.message?]
    cases h.catalog.find? e.id with
    | none => simp only [Option.map_none, ih _ hes]
    | some t => simp only [Option.map_some, hplural, hk.pluralLocale, hb.finding? he, ih _ hes]

theorem Shows.check (hk : k.Shows h) (hb : k'.Shows h') : k.check k' = h.catalog.check h'.catalog := by
  have hfindings : k.findings k' false k'.sortedIds = h.catalog.findings false h'.catalog.entries.toList := by
    rw [hb.sortedIds]
    exact hk.findings hb false fun _ he => he
  have hextra : (k.sortedIds.filter fun id => !k'.has id) =
      (h.catalog.entries.toList.map Entry.id).filter fun id => !h'.catalog.has id := by
    simp only [hk.sortedIds, hb.has]
    rfl
  rw [Containers.check, hk.isEmpty, hb.isEmpty, hb.size, hfindings, hextra, Catalog.check]

/-! ## Uses -/

/-- Two uses are alike when they are the same, and the base of a check shows the base of the other. -/
inductive Alike : Use Containers → Use Handle → Prop
  | load (strict : Bool) (source : Bytes) : Alike (.load strict source) (.load strict source)
  | phrase (id : Bytes) (vs : Values Bytes) : Alike (.phrase id vs) (.phrase id vs)
  | phraseForCount (id : Bytes) (n : Int) (vs : Values Bytes) : Alike (.phraseForCount id n vs) (.phraseForCount id n vs)
  | check {k : Containers} {h : Handle} : k.Shows h → Alike (.check k) (.check h)
  | table : Alike .table .table
  | search (query : Bytes) : Alike (.search query) (.search query)

/-- Uses that are alike have the same outcome, and the containers are left showing what the catalog is left as. -/
theorem Shows.use (hk : k.Shows h) {u : Use Containers} {v : Use Handle} (huv : Alike u v) :
    (k.use u).1.Shows (h.use v).1 ∧ (k.use u).2 = (h.use v).2 := by
  cases huv with
  | load strict source => exact (hk.load strict source).imp_right (congrArg Outcome.loaded)
  | phrase id vs => exact (hk.phrase id vs).imp_right (congrArg Outcome.phrased)
  | phraseForCount id n vs => exact (hk.phraseForCount id n vs).imp_right (congrArg Outcome.phrased)
  | check hb =>
    refine ⟨hk, ?_⟩
    simp only [Containers.use, Handle.use, hk.check hb]
  | table => exact ⟨hk, congrArg Outcome.listed hk.table⟩
  | search query => exact ⟨hk, congrArg Outcome.listed (hk.searchText query)⟩

/-- Containers show a handle that was used alike. -/
theorem shows_after {us : List (Use Containers)} {vs : List (Use Handle)} (h : List.Forall₂ Alike us vs) :
    (after us).Shows (Handle.after vs) := by
  have hrun : ∀ {k h}, Shows k h → (us.foldl (fun k u => (k.use u).1) k).Shows (vs.foldl (fun h v => (h.use v).1) h) := by
    induction h with
    | nil => exact fun hk => hk
    | cons huv _ ih => exact fun hk => ih (hk.use huv).1
  exact hrun shows_empty

end Containers

end Phrasebook
