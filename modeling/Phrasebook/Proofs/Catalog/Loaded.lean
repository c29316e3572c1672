import Phrasebook.Proofs.Catalog.Findings
import Phrasebook.Proofs.Catalog.LineReading
import Phrasebook.Proofs.Catalog.SourceWriting

/-!
# What loading leaves in a catalog

A line of a source makes a setting, puts in an entry or does nothing (`Catalog.Adds`). As what it makes or puts in can be written, so can
what a catalog holds, however far the loading of a source came (`Catalog.Writable.load`): every catalog that something was loaded into is
the one that some source loads into, in either mode (`Catalog.Writable.exists_source`).
-/

namespace Phrasebook

/-! ## Lines of a source -/

theorem lineFeed_notMem_of_mem_sourceLines {source raw : Bytes} (h : raw ∈ sourceLines source) : lineFeed ∉ raw :=
  Bytes.notMem_of_mem_splitOn h

theorem exists_sourceLines_eq_cons (source : Bytes) : ∃ first rest, sourceLines source = first :: rest :=
  List.exists_cons_of_ne_nil (List.splitOn_ne_nil _ _)

/-! ## Metadata -/

namespace Metadata

/-- Metadata can be written when each of its three values is trimmed and holds no line feed; an empty value is and does. -/
theorem writable_iff {m : Metadata} :
    m.Writable ↔ ∀ v ∈ [m.locale, m.fallback, m.note], Bytes.IsTrimmed v ∧ lineFeed ∉ v := by
  have hempty : ∀ {v : Bytes}, (v ≠ [] → Bytes.IsTrimmed v ∧ lineFeed ∉ v) → Bytes.IsTrimmed v ∧ lineFeed ∉ v := by
    intro v h
    by_cases hv : v = []
    · rw [hv]
      exact ⟨Bytes.isTrimmed_trim [], List.not_mem_nil⟩
    · exact h hv
  simp only [Writable, settings, List.mem_filter, List.mem_cons, List.not_mem_nil, or_false, decide_eq_true_eq]
  constructor
  · rintro h v (rfl | rfl | rfl)
    · exact hempty fun hne => h (utf8 "locale", m.locale) ⟨Or.inl rfl, by simpa using hne⟩
    · exact hempty fun hne => h (utf8 "fallback", m.fallback) ⟨Or.inr (Or.inl rfl), by simpa using hne⟩
    · exact hempty fun hne => h (utf8 "note", m.note) ⟨Or.inr (Or.inr rfl), by simpa using hne⟩
  · rintro h s ⟨rfl | rfl | rfl, -⟩
    · exact h _ (Or.inl rfl)
    · exact h _ (Or.inr (Or.inl rfl))
    · exact h _ (Or.inr (Or.inr rfl))

/-- What holds of a value and of all settings holds of them after the setting is made. -/
theorem forall_of_set? {P : Bytes → Prop} {m m' : Metadata} {key value : Bytes} (h : m.set? key value = some m') (hv : P value)
    (hm : ∀ v ∈ [m.locale, m.fallback, m.note], P v) : ∀ v ∈ [m'.locale, m'.fallback, m'.note], P v := by
  simp only [List.forall_mem_cons, List.not_mem_nil, false_implies, implies_true, and_true] at hm ⊢
  obtain ⟨hlocale, hfallback, hnote⟩ := hm
  unfold Metadata.set? at h
  split at h
  · cases h
    exact ⟨hv, hfallback, hnote⟩
  · split at h
    · cases h
      exact ⟨hlocale, hv, hnote⟩
    · split at h
      · cases h
        exact ⟨hlocale, hfallback, hv⟩
      · cases h

/-- Metadata stays as it can be written when a setting is made that can be. -/
theorem Writable.set? {m m' : Metadata} (hm : m.Writable) {key value : Bytes} (hv : Bytes.IsTrimmed value ∧ lineFeed ∉ value)
    (h : m.set? key value = some m') : m'.Writable :=
  writable_iff.mpr (forall_of_set? h hv (writable_iff.mp hm))

end Metadata

namespace Catalog

/-! ## One line -/

/-- What a line that is not at fault makes of a catalog. Before the first entry a setting of a known key is made; an entry of a new id is
put in. Every other line leaves the catalog as it is: a line that says nothing, and in lenient mode a setting of an unknown key, a setting
behind an entry and a malformed line. -/
inductive Adds (strict : Bool) (c : Catalog) : Line → Catalog → Prop
  | idle : Adds strict c .idle c
  | setting {key value : Bytes} {m : Metadata} : c.isEmpty = true → c.metadata.set? key value = some m →
      Adds strict c (.setting key value) { c with metadata := m }
  | unknownSetting {key value : Bytes} : strict = false → c.isEmpty = true → c.metadata.set? key value = none →
      Adds strict c (.setting key value) c
  | lateSetting {key value : Bytes} : strict = false → c.isEmpty = false → Adds strict c (.setting key value) c
  | entry {e : Entry} : c.has e.id = false → Adds strict c (.entry e) { c with entries := c.entries.insert e }
  | malformed {why : Malformed} : strict = false → Adds strict c (.malformed why) c

/-- A line that is not at fault makes of a catalog what `Adds` says. -/
theorem adds_of_addLine {strict : Bool} {number : Nat} {c c' : Catalog} {line : Line}
    (h : c.addLine strict number line = .ok c') : c.Adds strict line c' := by
  cases line with
  | idle =>
    cases h
    exact .idle
  | setting key value =>
    rw [addLine] at h
    split at h
    · rename_i hempty
      split at h
      · rename_i m hm
        cases h
        exact .setting hempty hm
      · rename_i hnone
        split at h
        · cases h
        · rename_i hstrict
          cases h
          exact .unknownSetting (by simpa using hstrict) hempty hnone
    · rename_i hfilled
      split at h
      · cases h
      · rename_i hstrict
        cases h
        exact .lateSetting (by simpa using hstrict) (by simpa using hfilled)
  | entry e =>
    rw [addLine] at h
    split at h
    · cases h
    · rename_i hnew
      cases h
      exact .entry (by simpa using hnew)
  | malformed why =>
    rw [addLine] at h
    split at h
    · cases h
    · rename_i hstrict
      cases h
      exact .malformed (by simpa using hstrict)

/-! ## All lines -/

/-- A catalog that can be written: its metadata can, and each of its entries. -/
structure Writable (c : Catalog) : Prop where
  metadata : c.metadata.Writable
  entries : ∀ e ∈ c.entries.toList, e.Writable

theorem writable_empty : Writable {} where
  metadata := by simp [Metadata.Writable, Metadata.settings]
  entries := nofun

/-- A line of a source keeps a catalog as it can be written. -/
theorem Writable.adds {strict : Bool} {c c' : Catalog} (hc : c.Writable) {raw : Bytes} (hlf : lineFeed ∉ raw)
    (h : c.Adds strict (.read raw) c') : c'.Writable := by
  generalize hline : Line.read raw = line at h
  cases h with
  | idle => exact hc
  | setting _ hm => exact ⟨hc.metadata.set? (Line.value_of_read hlf hline) hm, hc.entries⟩
  | unknownSetting => exact hc
  | lateSetting => exact hc
  | entry =>
    refine ⟨hc.metadata, fun x hx => ?_⟩
    rcases mem_insertEntry hx with rfl | hx
    · exact Line.writable_of_read hlf hline
    · exact hc.entries x hx
  | malformed => exact hc

/-- The lines of a source keep a catalog as it can be written, up to the line at fault if there is one. -/
theorem Writable.addLines {strict : Bool} {c : Catalog} (hc : c.Writable) {lines : List Bytes}
    (hlf : ∀ raw ∈ lines, lineFeed ∉ raw) (number : Nat) : (Catalog.addLines strict number c lines).1.Writable := by
  induction lines generalizing c number with
  | nil => exact hc
  | cons raw rest ih =>
    obtain ⟨hraw, hrest⟩ := List.forall_mem_cons.mp hlf
    rw [Catalog.addLines]
    split
    · rename_i c' hline
      exact ih (hc.adds hraw (adds_of_addLine hline)) hrest (number + 1)
    · exact hc

/-- Loading a source leaves a catalog that can be written, whether the source could be loaded or not. -/
theorem Writable.load {c : Catalog} (hc : c.Writable) (strict : Bool) (source : Bytes) : (c.load strict source).1.Writable := by
  rw [Catalog.load]
  split
  · exact hc
  · exact writable_empty.addLines (fun _ => lineFeed_notMem_of_mem_sourceLines) 1

/-- A catalog is told by its metadata and by its entries as a collection. -/
theorem eq_of_perm {c c' : Catalog} (hmeta : c.metadata = c'.metadata) (hperm : c.entries.toList.Perm c'.entries.toList) : c = c' := by
  refine Catalog.ext hmeta (Entries.ext (hperm.eq_of_pairwise (fun a b _ _ hab hba => ?_) c.entries.sorted c'.entries.sorted))
  exact absurd (List.lt_trans hab hba) (List.lt_irrefl a.id)

/-- A catalog with an entry that can be written is what some source loads, in either mode and whatever was there before. -/
theorem Writable.exists_source {c : Catalog} (hc : c.Writable) (hne : c.isEmpty = false) :
    ∃ source, ∀ (strict : Bool) (prior : Catalog), prior.load strict source = (c, none) := by
  have hes : c.entries.toList ≠ [] := by simpa [isEmpty] using hne
  have hids : (c.entries.toList.map Entry.id).Nodup := c.nodup_ids
  have hset : ∀ s ∈ c.metadata.settings, WritableSetting s := fun s hs => hc.metadata.setting hs
  refine ⟨joinLines false (writtenLines c.metadata.settings c.entries.toList), fun strict prior => ?_⟩
  obtain ⟨hsource, hlines⟩ := sourceLines_writtenLines false hset hes hc.entries
  obtain ⟨c', hload, hmeta, hperm⟩ := addLines_writtenLines strict false hset hes hc.entries hids
  have heq : c' = c := eq_of_perm (hmeta.trans (Metadata.foldl_withSetting (List.Perm.refl _))) hperm
  rw [Catalog.load, if_neg hsource, hlines, hload, heq]

end Catalog

end Phrasebook
