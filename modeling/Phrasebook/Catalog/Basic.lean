import Phrasebook.Plural.Locale

/-!
# Catalogs

A catalog holds the messages of one locale: entries, each with an id of its own, and the metadata that names the locale. The entries
are kept in increasing order of their ids (`Entries.sorted`), so that a catalog is told by what it holds and not by the order in
which it was filled, and every report goes through it in that order.
-/

namespace Phrasebook

/-- An entry: its id, a label, empty when it has none, and the source of its message. -/
structure Entry where
  id : Bytes
  label : Bytes
  text : Bytes
  deriving DecidableEq, Repr

/-- An entry whose label is `plural`, in any mixture of cases, holds plural forms. -/
def Entry.isPlural (e : Entry) : Bool := e.label.lower == utf8 "plural"

/-! ## Entries in order -/

/-- The entries with one more, at its place in the order of ids; an entry of the same id gives way to it. -/
def insertEntry (e : Entry) : List Entry → List Entry
  | [] => [e]
  | x :: xs => if e.id < x.id then e :: x :: xs else if x.id < e.id then x :: insertEntry e xs else e :: xs

/-- An inserted entry brings in no other id than its own. -/
theorem mem_insertEntry {e x : Entry} {xs : List Entry} (h : x ∈ insertEntry e xs) : x = e ∨ x ∈ xs := by
  induction xs with
  | nil => exact Or.inl (List.mem_singleton.mp h)
  | cons y ys ih =>
    unfold insertEntry at h
    split at h
    · exact List.mem_cons.mp h
    · split at h
      · rcases List.mem_cons.mp h with rfl | h
        · exact Or.inr List.mem_cons_self
        · exact (ih h).imp_right (List.mem_cons_of_mem _)
      · exact (List.mem_cons.mp h).imp_right (List.mem_cons_of_mem _)

/-- Insertion keeps the order. -/
theorem pairwise_insertEntry (e : Entry) {xs : List Entry} (h : xs.Pairwise (fun a b => a.id < b.id)) :
    (insertEntry e xs).Pairwise (fun a b => a.id < b.id) := by
  induction xs with
  | nil => exact List.pairwise_singleton _ _
  | cons x xs ih =>
    obtain ⟨hx, hxs⟩ := List.pairwise_cons.mp h
    unfold insertEntry
    split
    · rename_i hlt
      refine List.pairwise_cons.mpr ⟨fun y hy => ?_, h⟩
      rcases List.mem_cons.mp hy with rfl | hy
      · exact hlt
      · exact List.lt_trans hlt (hx y hy)
    · rename_i hge
      split
      · rename_i hlt
        refine List.pairwise_cons.mpr ⟨fun y hy => ?_, ih hxs⟩
        rcases mem_insertEntry hy with rfl | hy
        · exact hlt
        · exact hx y hy
      · rename_i hle
        have heq : e.id = x.id := Std.le_antisymm (by simpa using hle) (by simpa using hge)
        exact List.pairwise_cons.mpr ⟨fun y hy => heq ▸ hx y hy, hxs⟩

/-- Entries in increasing order of their ids, no two of the same id. -/
structure Entries where
  toList : List Entry
  sorted : toList.Pairwise (fun a b => a.id < b.id)

namespace Entries

/-- No entries. -/
def empty : Entries := ⟨[], List.Pairwise.nil⟩

/-- The entries with one more. -/
def insert (es : Entries) (e : Entry) : Entries := ⟨insertEntry e es.toList, pairwise_insertEntry e es.sorted⟩

/-- The entry of an id. -/
def find? (es : Entries) (id : Bytes) : Option Entry := es.toList.find? (fun e => e.id == id)

/-- Entries are equal when their lists are. -/
@[ext] theorem ext {es fs : Entries} (h : es.toList = fs.toList) : es = fs := by
  cases es
  cases fs
  cases h
  rfl

theorem id_of_find? {es : Entries} {id : Bytes} {e : Entry} (h : es.find? id = some e) : e.id = id := by
  simpa using List.find?_some h

theorem eq_of_id_eq {es : Entries} {x y : Entry} (hx : x ∈ es.toList) (hy : y ∈ es.toList) (h : x.id = y.id) : x = y := by
  have hp : ∀ {a b : Entry}, a.id < b.id → a.id = b.id → a = b := fun hlt he => absurd (he ▸ hlt) (List.lt_irrefl _)
  have hq : ∀ {a b : Entry}, a.id < b.id → b.id = a.id → b = a := fun hlt he => absurd (he ▸ hlt) (List.lt_irrefl _)
  exact List.Pairwise.forall_of_forall_of_flip (fun _ _ _ => rfl) (es.sorted.imp hp) (es.sorted.imp hq) hx hy h

/-- What is found under an id is the one entry that has it. -/
theorem find?_eq_some_iff {es : Entries} {id : Bytes} {e : Entry} : es.find? id = some e ↔ e ∈ es.toList ∧ e.id = id := by
  constructor
  · intro h
    exact ⟨List.mem_of_find?_eq_some h, id_of_find? h⟩
  · rintro ⟨he, rfl⟩
    cases hf : es.find? e.id with
    | none => exact absurd (List.find?_eq_none.mp hf e he) (by simp)
    | some x => rw [eq_of_id_eq (List.mem_of_find?_eq_some hf) he (id_of_find? hf)]

@[simp] theorem find?_empty (id : Bytes) : empty.find? id = none := rfl

/-- Under the id of the entry inserted that entry is found, and under any other id what was found before. -/
theorem find?_insert (es : Entries) (e : Entry) (id : Bytes) :
    (es.insert e).find? id = if id = e.id then some e else es.find? id := by
  obtain ⟨xs, hs⟩ := es
  simp only [find?, insert]
  induction xs with
  | nil =>
    by_cases h : id = e.id
    · simp [insertEntry, h]
    · simp [insertEntry, h, Ne.symm h]
  | cons x xs ih =>
    have ih := ih (List.pairwise_cons.mp hs).2
    unfold insertEntry
    by_cases h : id = e.id
    · subst h
      rw [if_pos rfl] at ih ⊢
      split
      · simp
      · split
        · rename_i hlt
          have hne : x.id ≠ e.id := fun h => List.lt_irrefl e.id (h ▸ hlt)
          simp [hne, ih]
        · simp
    · rw [if_neg h] at ih ⊢
      split
      · simp [Ne.symm h]
      · split
        · simp only [List.find?_cons, ih]
        · rename_i h₁ h₂
          have heq : e.id = x.id := Std.le_antisymm (by simpa using h₂) (by simpa using h₁)
          have hne : ¬x.id = id := fun e' => h (by rw [← e', heq])
          simp [Ne.symm h, hne]

end Entries

/-! ## Catalogs -/

/-- What a catalog says about itself: its locale, a locale to fall back on, and a note. A setting that is not made is empty. -/
structure Metadata where
  locale : Bytes := []
  fallback : Bytes := []
  note : Bytes := []
  deriving DecidableEq, Repr

/-- A catalog of messages. It starts out empty. -/
@[ext] structure Catalog where
  metadata : Metadata := {}
  entries : Entries := .empty

namespace Catalog

/-- How many entries a catalog has. -/
def size (c : Catalog) : Nat := c.entries.toList.length

/-- Whether a catalog has no entry. -/
def isEmpty (c : Catalog) : Bool := c.entries.toList.isEmpty

/-- The entry of an id. -/
def find? (c : Catalog) (id : Bytes) : Option Entry := c.entries.find? id

/-- Whether a catalog has an entry of an id. -/
def has (c : Catalog) (id : Bytes) : Bool := (c.find? id).isSome

/-- Whether the entry of an id holds plural forms. -/
def isPlural (c : Catalog) (id : Bytes) : Bool := (c.find? id).any Entry.isPlural

/-- The source of the message of an id. -/
def message? (c : Catalog) (id : Bytes) : Option Bytes := (c.find? id).map Entry.text

/-- The locale whose plural rules count: the catalog's own if it has plural rules, otherwise the one to fall back on if that has,
and otherwise its own all the same. -/
def pluralLocale (c : Catalog) : Bytes :=
  if hasPluralRules c.metadata.locale then c.metadata.locale
  else if hasPluralRules c.metadata.fallback then c.metadata.fallback
  else c.metadata.locale

end Catalog

end Phrasebook
