import Phrasebook.Proofs.Catalog.Loaded
import Phrasebook.Proofs.Catalog.Shown

/-!
# Catalogs in use

A catalog is used in any order: sources are loaded into it, well or not, it is asked for phrases, checked, listed and searched. Its
containers are updated apart from one another, and a line at fault leaves them as they are in the middle of a source. They belong together
all the same (`Containers.WellFormed`): so it is with new containers, one line keeps it so, hence all lines do, and every use does. And
nothing but loading a source that is not empty changes anything but the last error (`Containers.wellFormed_of_uses`).
-/

namespace Phrasebook

/-! ## Ids -/

/-- The bytes of ids. -/
def idBytes : Bytes := utf8 "ABCDEFGHIJKLMNOPQRSTUVWXYZabcdefghijklmnopqrstuvwxyz0123456789_.-"

theorem isIdByte_iff {b : UInt8} : isIdByte b = true ↔ b ∈ idBytes := by
  have hlisted : ∀ n : Fin 256, isIdByte (UInt8.ofNat n) = true → UInt8.ofNat n ∈ idBytes := by decide +kernel
  have hmay : ∀ b ∈ idBytes, isIdByte b = true := by decide +kernel
  refine ⟨fun h => ?_, hmay b⟩
  simpa [h] using hlisted ⟨b.toNat, b.toNat_lt⟩

/-- An id has one to 128 bytes, each of them one that an id may hold. -/
theorem length_of_isMessageId {id : Bytes} (h : isMessageId id = true) :
    1 ≤ id.length ∧ id.length ≤ 128 ∧ ∀ b ∈ id, b ∈ idBytes := by
  simp only [isMessageId, Bool.and_eq_true, bne_iff_ne, ne_eq, List.all_eq_true] at h
  obtain ⟨⟨hne, hle⟩, hbytes⟩ := h
  exact ⟨List.length_pos_iff.mpr hne, of_decide_eq_true hle, fun b hb => isIdByte_iff.mp (hbytes b hb)⟩

namespace Containers

/-- What the containers can be relied on for: ids of one to 128 bytes, labels and plural ids of ids that have a text, labels that are not
empty and can be told from the rest of their line, plural ids just where the label says so, and settings of one line each. -/
structure WellFormed (k : Containers) : Prop where
  id : ∀ id ∈ k.texts, 1 ≤ id.length ∧ id.length ≤ 128 ∧ ∀ b ∈ id, b ∈ idBytes
  texts_of_label : ∀ id ∈ k.labels, id ∈ k.texts
  texts_of_plural : ∀ id ∈ k.plurals, id ∈ k.texts
  label : ∀ id label : Bytes, k.labels[id]? = some label → label ≠ [] ∧ Bytes.IsTrimmed label ∧ 58 ∉ label ∧ 41 ∉ label
  plural : ∀ id : Bytes, id ∈ k.plurals ↔ ∃ label, k.labels[id]? = some label ∧ label.lower = utf8 "plural"
  metadata : ∀ v ∈ [k.metadata.locale, k.metadata.fallback, k.metadata.note], v = [] ∨ lineFeed ∉ v ∧ Bytes.IsTrimmed v

theorem wellFormed_empty : WellFormed {} where
  id _ h := absurd h Std.HashMap.not_mem_empty
  texts_of_label _ h := absurd h Std.HashMap.not_mem_empty
  texts_of_plural _ h := absurd h Std.HashSet.not_mem_empty
  label _ _ h := by
    rw [Std.HashMap.getElem?_empty] at h
    cases h
  plural id := by
    simp
  metadata := by simp

variable {k : Containers}

/-! ## One line -/

theorem WellFormed.withError (hk : k.WellFormed) (e : LastError) : WellFormed { k with lastError := e } :=
  ⟨hk.id, hk.texts_of_label, hk.texts_of_plural, hk.label, hk.plural, hk.metadata⟩

/-- An id without a text has neither a label nor a place among the plural ids. -/
theorem WellFormed.notMem (hk : k.WellFormed) {id : Bytes} (hnew : id ∉ k.texts) : id ∉ k.labels ∧ id ∉ k.plurals :=
  ⟨fun h => hnew (hk.texts_of_label id h), fun h => hnew (hk.texts_of_plural id h)⟩

/-- An entry of a new id, as a line of a source has it, keeps the containers together. -/
theorem WellFormed.put (hk : k.WellFormed) {e : Entry} (he : e.Writable) (hnew : e.id ∉ k.texts) : (k.put e).WellFormed := by
  obtain ⟨hlabels, hplurals⟩ := hk.notMem hnew
  have hlabel := getElem?_labels_put hlabels
  constructor
  case id =>
    intro id hid
    rw [texts_put, Std.HashMap.mem_insertIfNew, beq_iff_eq] at hid
    rcases hid with rfl | hid
    · exact length_of_isMessageId he.id
    · exact hk.id id hid
  case texts_of_label =>
    intro id hid
    rw [texts_put, Std.HashMap.mem_insertIfNew, beq_iff_eq]
    rw [Std.HashMap.mem_iff_isSome_getElem?, hlabel] at hid
    split at hid
    · rename_i hput
      exact Or.inl hput.1.symm
    · exact Or.inr (hk.texts_of_label id (Std.HashMap.mem_iff_isSome_getElem?.mpr hid))
  case texts_of_plural =>
    intro id hid
    rw [texts_put, Std.HashMap.mem_insertIfNew, beq_iff_eq]
    exact (mem_plurals_put.mp hid).imp (fun h => h.1.symm) (hk.texts_of_plural id)
  case label =>
    intro id label hid
    rw [hlabel] at hid
    split at hid
    · rename_i hnotEmpty
      cases hid
      exact ⟨hnotEmpty.2, he.label, he.labelBytes.2⟩
    · exact hk.label id label hid
  case plural =>
    intro id
    rw [mem_plurals_put, hlabel]
    by_cases hid : id = e.id
    · subst hid
      constructor
      · rintro (⟨-, hlower⟩ | hplural)
        · have hnotEmpty : e.label ≠ [] := by
            intro hempty
            rw [hempty] at hlower
            exact absurd hlower (by decide)
          exact ⟨e.label, if_pos ⟨rfl, hnotEmpty⟩, hlower⟩
        · exact absurd hplural hplurals
      · rintro ⟨label, hput, hlower⟩
        split at hput
        · cases hput
          exact Or.inl ⟨rfl, hlower⟩
        · rw [Std.HashMap.getElem?_eq_none hlabels] at hput
          cases hput
    · rw [if_neg fun h => hid h.1]
      simpa [hid] using hk.plural id
  case metadata =>
    rw [metadata_put]
    exact hk.metadata

/-- A line of a source that is not at fault keeps the containers together. -/
theorem Filling.wellFormed_addLine {strict : Bool} {number : Nat} {s s' : Filling} (hs : s.containers.WellFormed) {raw : Bytes}
    (hlf : lineFeed ∉ raw) (h : s.addLine strict number (.read raw) = .ok s') : s'.containers.WellFormed := by
  cases hline : Line.read raw with
  | idle =>
    rw [hline] at h
    cases h
    exact hs
  | malformed why =>
    rw [hline, addLine] at h
    split at h
    · cases h
    · cases h
      exact hs
  | entry e =>
    rw [hline, addLine] at h
    split at h
    · cases h
    · rename_i hnew
      cases h
      exact hs.put (Line.writable_of_read hlf hline) fun hmem => hnew (Std.HashMap.contains_iff_mem.mpr hmem)
  | setting key value =>
    rw [hline] at h
    cases hseen : s.seen with
    | true =>
      rw [addLine_setting_of_seen hseen] at h
      split at h
      · cases h
      · cases h
        exact hs
    | false =>
      rw [addLine_setting hseen] at h
      split at h
      · rename_i m hset
        cases h
        have hvalue := (Line.value_of_read hlf hline).symm
        exact ⟨hs.id, hs.texts_of_label, hs.texts_of_plural, hs.label, hs.plural, Metadata.forall_of_set? hset (Or.inr hvalue) hs.metadata⟩
      · split at h
        · cases h
        · cases h
          exact hs

/-! ## All lines, and all uses -/

/-- The lines of a source keep the containers together, up to the line at fault if there is one. -/
theorem Filling.wellFormed_addLines {s : Filling} (hs : s.containers.WellFormed) {lines : List Bytes}
    (hlf : ∀ raw ∈ lines, lineFeed ∉ raw) (strict : Bool) (number : Nat) :
    (s.addLines strict number lines).1.containers.WellFormed := by
  induction lines generalizing s number with
  | nil => exact hs
  | cons raw rest ih =>
    obtain ⟨hraw, hrest⟩ := List.forall_mem_cons.mp hlf
    rw [addLines]
    split
    · rename_i s' hline
      exact ih (wellFormed_addLine hs hraw hline) hrest (number + 1)
    · exact hs

/-- Loading a source leaves the containers together, whether the source could be loaded or not. -/
theorem WellFormed.load (hk : k.WellFormed) (strict : Bool) (source : Bytes) : (k.load strict source).1.WellFormed := by
  rw [Containers.load]
  split
  · exact hk.withError _
  · have hlines : (Filling.addLines strict 1 {} (sourceLines source)).1.containers.WellFormed :=
      Filling.wellFormed_addLines wellFormed_empty (fun _ => lineFeed_notMem_of_mem_sourceLines) strict 1
    split
    · rename_i s hs
      rw [hs] at hlines
      exact hlines
    · rename_i s f hs
      rw [hs] at hlines
      exact hlines.withError _

theorem fst_settle (k : Containers) (r : Except Fault Bytes) : ∃ e, (k.settle r).1 = { k with lastError := e } := by
  cases r with
  | ok out => exact ⟨{}, rfl⟩
  | error f => exact ⟨f.lastError, rfl⟩

/-- A use changes nothing but the last error, unless a source that is not empty is loaded. -/
theorem fst_use (k : Containers) (u : Use Containers) :
    (∃ strict source, source ≠ [] ∧ u = .load strict source) ∨ ∃ e, (k.use u).1 = { k with lastError := e } := by
  cases u with
  | load strict source =>
    by_cases hs : source = []
    · refine Or.inr ⟨LoadFault.emptySource.lastError, ?_⟩
      rw [use, load, if_pos hs]
      rfl
    · exact Or.inl ⟨strict, source, hs, rfl⟩
  | phrase => exact Or.inr (fst_settle k _)
  | phraseForCount => exact Or.inr (fst_settle k _)
  | check => exact Or.inr ⟨k.lastError, rfl⟩
  | table => exact Or.inr ⟨k.lastError, rfl⟩
  | search => exact Or.inr ⟨k.lastError, rfl⟩

/-- A use keeps the containers together. -/
theorem WellFormed.use (hk : k.WellFormed) (u : Use Containers) : (k.use u).1.WellFormed := by
  obtain ⟨strict, source, -, rfl⟩ | ⟨e, he⟩ := k.fst_use u
  · exact hk.load strict source
  · rw [he]
    exact hk.withError e

/-- Uses of containers that belong together keep them so. -/
theorem WellFormed.uses (hk : k.WellFormed) (uses : List (Use Containers)) :
    (uses.foldl (fun k u => (k.use u).1) k).WellFormed := by
  induction uses generalizing k with
  | nil => exact hk
  | cons u uses ih => exact ih (hk.use u)

/-- Whatever new containers were used for, they belong together, and they show a handle that was used alike; and a use of any containers
changes nothing but the last error, unless a source that is not empty is loaded. -/
theorem wellFormed_of_uses (uses : List (Use Containers)) :
    (after uses).WellFormed ∧
      (∀ vs, List.Forall₂ Alike uses vs → (after uses).Shows (Handle.after vs)) ∧
      ∀ (k : Containers) (u : Use Containers),
        (∃ strict source, source ≠ [] ∧ u = .load strict source) ∨ ∃ e, (k.use u).1 = { k with lastError := e } :=
  ⟨wellFormed_empty.uses uses, fun _ => shows_after, fst_use⟩

/-- A loading that fails at its last line leaves what stood before that line, and an empty source leaves even that. -/
example :
    let h := Handle.after
      [.load true (utf8 "x: 1"), .load true (utf8 "@meta locale = de \na(PLURAL): b|c\na: d"), .load false []]
    h.catalog.metadata = { locale := utf8 "de" } ∧ h.catalog.entries.toList = [⟨utf8 "a", utf8 "PLURAL", utf8 "b|c"⟩] :=
  ⟨rfl, rfl⟩

end Containers

end Phrasebook
