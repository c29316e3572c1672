import Phrasebook.Catalog.Listing
import Phrasebook.Proofs.Catalog.Findings
import Mathlib.Data.List.Forall2

/-!
# Searching a catalog

A search shows the entries of a catalog that mention the query, in the order of the table and each once, and says that there is none just
when there is none (`Catalog.searches`). What is mentioned does not depend on the case of letters, and what is mentioned is mentioned in
its parts, so that a shorter query finds no fewer entries and the empty one finds all of them.
-/

namespace Phrasebook

/-- An entry mentions a query when, in lower case, the query is a part of its id, its text or its label. -/
def Entry.Mentions (query : Bytes) (e : Entry) : Prop :=
  query.lower <:+: e.id.lower ∨ query.lower <:+: e.text.lower ∨ query.lower <:+: e.label.lower

/-- Two bytes are the same, or a capital letter of ASCII and its small letter. -/
def SameLetter (b b' : UInt8) : Prop := b = b' ∨ (65 ≤ b ∧ b ≤ 90 ∧ b' = b + 32) ∨ (65 ≤ b' ∧ b' ≤ 90 ∧ b = b' + 32)

/-- Two texts are the same up to the case of their letters. -/
def Bytes.SameLetters : Bytes → Bytes → Prop := List.Forall₂ SameLetter

/-! ## What mentions a query -/

theorem lowerByte_eq_of_sameLetter {b b' : UInt8} (h : SameLetter b b') : lowerByte b = lowerByte b' := by
  unfold SameLetter at h
  unfold lowerByte
  grind

/-- Texts that are the same up to the case of their letters are the same in lower case. -/
theorem Bytes.SameLetters.lower_eq {s s' : Bytes} (h : s.SameLetters s') : s.lower = s'.lower := by
  induction h with
  | nil => rfl
  | cons hb _ ih =>
    rw [lower, List.map_cons, lowerByte_eq_of_sameLetter hb]
    exact congrArg _ ih

/-- What an entry mentions it holds: a label that is left out mentions nothing that the id does not. -/
theorem Entry.holds_iff {query : Bytes} {e : Entry} : e.holds query = true ↔ e.Mentions query := by
  have hlabel : e.label = [] → query.lower <:+: e.label.lower → query.lower <:+: e.id.lower := by
    intro hnone h
    rw [hnone, Bytes.lower, Bytes.lower, List.map_nil, List.infix_nil] at h
    rw [Bytes.lower, h]
    exact List.nil_infix
  simp only [holds, Bool.or_eq_true, Bool.and_eq_true, bne_iff_ne, Bytes.occursIn_iff, Mentions, or_assoc]
  refine or_congr_right' fun hid => or_congr_right ⟨And.right, fun h => ⟨fun hnone => hid (hlabel hnone h), h⟩⟩

theorem Entry.Mentions.of_infix {query part : Bytes} {e : Entry} (h : e.Mentions query) (hpart : part <:+: query) :
    e.Mentions part := by
  have hlower : part.lower <:+: query.lower := hpart.map lowerByte
  exact h.imp hlower.trans (Or.imp hlower.trans hlower.trans)

theorem Entry.mentions_nil (e : Entry) : e.Mentions [] := Or.inl List.nil_infix

namespace Catalog

variable {c : Catalog} {query : Bytes}

/-! ## What a search finds -/

/-- A search finds the entries of the catalog that mention the query. -/
theorem mem_search {e : Entry} : e ∈ c.search query ↔ c.find? e.id = some e ∧ e.Mentions query := by
  rw [search, List.mem_filter, Entry.holds_iff, find?, Entries.find?_eq_some_iff]
  simp

theorem search_nil (c : Catalog) : c.search [] = c.entries.toList :=
  List.filter_eq_self.mpr fun e _ => Entry.holds_iff.mpr e.mentions_nil

/-- A search finds nothing when no entry mentions the query. -/
theorem search_eq_nil_iff : c.search query = [] ↔ ∀ id e, c.find? id = some e → ¬e.Mentions query := by
  rw [List.eq_nil_iff_forall_not_mem]
  simp only [mem_search, not_and]
  constructor
  · intro h id e he
    exact h e (Entries.id_of_find? he ▸ he)
  · exact fun h e he => h e.id e he

/-- What a search finds does not depend on the case of letters. -/
theorem search_congr {query' : Bytes} (h : query.SameLetters query') (c : Catalog) : c.search query' = c.search query := by
  simp only [search, Entry.holds, h.lower_eq]

/-! ## What a search shows -/

/-- What is found is shown line by line. -/
theorem searchText_of_ne_nil (h : c.search query ≠ []) : c.searchText query = (c.search query).flatMap Entry.line := by
  rw [searchText]
  split
  · rename_i hnone
    exact absurd hnone h
  · rfl

/-- The search says that there is no match just when it finds nothing: every line of an entry has a colon, and what is said then has none. -/
theorem searchText_eq_noMatches_iff : c.searchText query = utf8 "(no matches)\n" ↔ c.search query = [] := by
  constructor
  · intro h
    by_contra hfound
    obtain ⟨e, es, hes⟩ := List.exists_cons_of_ne_nil hfound
    rw [searchText_of_ne_nil hfound, hes, List.flatMap_cons] at h
    have hcolon : (58 : UInt8) ∈ e.line := by
      simp [Entry.line, utf8, String.utf8EncodeChar]
    have hsaid : (58 : UInt8) ∉ utf8 "(no matches)\n" := by decide
    exact hsaid (h ▸ List.mem_append_left _ hcolon)
  · intro h
    rw [searchText, h]

/-- What it comes to that a catalog is searched for a query. It finds just the entries that mention the query, in increasing order of their
ids and so each once, and shows the id of each, its label in parentheses, its text and the end of a line; it says that there is no match
just when no entry mentions the query. The case of letters does not count. The empty query finds the entries of the table in their order,
and what is found for a query is found for every part of it. -/
structure Searches (c : Catalog) (query : Bytes) : Prop where
  increasing : (c.search query).Pairwise fun e e' => e.id < e'.id
  found : ∀ e, e ∈ c.search query ↔ c.find? e.id = some e ∧ e.Mentions query
  shown : (∃ id e, c.find? id = some e ∧ e.Mentions query) →
    c.searchText query =
      (c.search query).flatMap fun e => e.id ++ utf8 "(" ++ e.label ++ utf8 "): " ++ e.text ++ utf8 "\n"
  noMatches : c.searchText query = utf8 "(no matches)\n" ↔ ¬∃ id e, c.find? id = some e ∧ e.Mentions query
  letterCase : ∀ query', query.SameLetters query' → c.searchText query' = c.searchText query
  all : ∀ id e, c.find? id = some e → e ∈ c.search []
  table : c.table = row (utf8 "Id") (utf8 "Label") (utf8 "Message") ++ tableRule ++
    (c.search []).flatMap fun e => row e.id e.label e.text
  parts : ∀ part, part <:+: query → ∀ e ∈ c.search query, e ∈ c.search part

/-- Every catalog finds the entries that mention a query, and shows them, or says that there are none. -/
theorem searches (c : Catalog) (query : Bytes) : c.Searches query where
  increasing := c.entries.sorted.filter _
  found e := mem_search
  shown := by
    rintro ⟨id, e, he, hmentions⟩
    have hfound : c.search query ≠ [] := fun hnone => search_eq_nil_iff.mp hnone id e he hmentions
    rw [searchText_of_ne_nil hfound]
    refine congrArg (List.flatMap · (c.search query)) (funext fun e => ?_)
    simp [Entry.line, utf8, String.utf8EncodeChar, lineFeed]
  noMatches := by
    rw [searchText_eq_noMatches_iff, search_eq_nil_iff]
    simp
  letterCase query' h := by
    rw [searchText, searchText, search_congr h]
  all id e he := mem_search.mpr ⟨Entries.id_of_find? he ▸ he, e.mentions_nil⟩
  table := by
    rw [search_nil, Catalog.table]
    simp [List.flatMap]
  parts := by
    intro part hpart e he
    obtain ⟨hfind, hmentions⟩ := mem_search.mp he
    exact mem_search.mpr ⟨hfind, hmentions.of_infix hpart⟩

end Catalog

end Phrasebook
