import Phrasebook.Handle
import Phrasebook.Proofs.Catalog.Loaded
import Mathlib.Data.List.Nodup

/-!
# Lenient loading

Lenient loading passes over lines that strict loading finds at fault: a setting behind an entry, a setting of an unknown key, and a
malformed line (`Line.Offends`). So it does to a source what strict loading does to the source with these lines commented out, and the two
agree on a source without such a line; strict loading succeeds on no other (`Handle.load_lenient`). The two runs are taken step by step:
what they know of the lines read so far are the ids that were given in them (`Catalog.Follows`).
-/

namespace Phrasebook

/-! ## Lines that offend -/

/-- The id of the entry that a line is. -/
def Line.id? : Line → Option Bytes
  | .entry e => some e.id
  | _ => none

/-- The ids of the entries in lines, in their order. -/
def entryIds (lines : List Bytes) : List Bytes := lines.filterMap fun raw => (Line.read raw).id?

/-- A line that lenient loading passes over, given the ids of the entries before it: a setting behind an entry or of an unknown key, or a
malformed line. -/
def Line.Offends (ids : List Bytes) : Line → Prop
  | .idle => False
  | .setting key _ => ids ≠ [] ∨ key ∉ settingKeys
  | .entry _ => False
  | .malformed _ => True

instance (ids : List Bytes) (line : Line) : Decidable (line.Offends ids) := by
  cases line <;> unfold Line.Offends <;> infer_instance

/-- A line offends behind the lines before it: loading comes to it, as no id was given twice before, and passes over it. -/
def OffendsAfter (before : List Bytes) (raw : Bytes) : Prop :=
  (entryIds before).Nodup ∧ (Line.read raw).Offends (entryIds before)

instance (before : List Bytes) (raw : Bytes) : Decidable (OffendsAfter before raw) := inferInstanceAs (Decidable (_ ∧ _))

/-- Lines behind others, with a number sign in the place of each one that offends. -/
def commentOut (before : List Bytes) : List Bytes → List Bytes
  | [] => []
  | raw :: rest => (if OffendsAfter before raw then [35] else raw) :: commentOut (before ++ [raw]) rest

/-- A source with a number sign in the place of each line that offends. -/
def commentedSource (source : Bytes) : Bytes :=
  (if byteOrderMark.isPrefixOf source then byteOrderMark else []) ++ joinLines false (commentOut [] (sourceLines source))

/-- A source has a line that offends. -/
def HasOffendingLine (source : Bytes) : Prop :=
  ∃ before raw after, sourceLines source = before ++ raw :: after ∧ OffendsAfter before raw

/-! ## One line in the two modes -/

theorem entryIds_append (lines lines' : List Bytes) : entryIds (lines ++ lines') = entryIds lines ++ entryIds lines' :=
  List.filterMap_append

theorem entryIds_concat (lines : List Bytes) (raw : Bytes) :
    entryIds (lines ++ [raw]) = entryIds lines ++ (Line.read raw).id?.toList := by
  rw [entryIds_append, entryIds, entryIds, List.filterMap_cons, List.filterMap_nil]
  cases (Line.read raw).id? <;> rfl

/-- A setting cannot be made when its key is unknown. -/
theorem Metadata.set?_eq_none_iff {m : Metadata} {key value : Bytes} : m.set? key value = none ↔ key ∉ settingKeys := by
  constructor
  · intro h hkey
    rw [Metadata.set?_eq_some hkey] at h
    cases h
  · intro h
    simp only [settingKeys, List.mem_cons, List.not_mem_nil, or_false, not_or] at h
    rw [Metadata.set?, if_neg h.1, if_neg h.2.1, if_neg h.2.2]

namespace Catalog

/-- A catalog follows lines when it has the ids that are given in them, none of them twice. -/
structure Follows (c : Catalog) (lines : List Bytes) : Prop where
  nodup : (entryIds lines).Nodup
  has_iff : ∀ id, c.has id = true ↔ id ∈ entryIds lines

theorem follows_nil : Follows {} [] where
  nodup := List.nodup_nil
  has_iff := fun _ => ⟨nofun, nofun⟩

section

variable {c c' : Catalog} {before : List Bytes} {raw : Bytes}

theorem Follows.isEmpty_iff (hc : c.Follows before) : c.isEmpty = true ↔ entryIds before = [] := by
  have hids : c.isEmpty = true ↔ c.ids = [] := by simp [isEmpty, ids]
  rw [hids, List.eq_nil_iff_forall_not_mem, List.eq_nil_iff_forall_not_mem]
  exact forall_congr' fun id => not_congr (mem_ids.trans (hc.has_iff id))

/-- A catalog follows one more line. -/
theorem Follows.adds (hc : c.Follows before) {strict : Bool} (h : c.Adds strict (.read raw) c') : c'.Follows (before ++ [raw]) := by
  obtain ⟨hnodup, hhas⟩ := hc
  have hids := entryIds_concat before raw
  generalize hline : Line.read raw = line at h hids
  cases h with
  | entry hnew =>
    rename_i e
    have hnew : e.id ∉ entryIds before := fun hm => by
      rw [(hhas e.id).mpr hm] at hnew
      cases hnew
    have hids : entryIds (before ++ [raw]) = (entryIds before).concat e.id := hids.trans List.concat_eq_append.symm
    refine ⟨hids ▸ hnodup.concat hnew, fun id => ?_⟩
    · have hfind : has { c with entries := c.entries.insert e } id = true ↔ id = e.id ∨ c.has id = true := by
        rw [has, find?, Entries.find?_insert]
        split <;> simp_all [has, find?]
      rw [hfind, hids, hhas, List.concat_eq_append, List.mem_append, List.mem_singleton, or_comm]
  | _ =>
    have hids : entryIds (before ++ [raw]) = entryIds before := hids.trans (List.append_nil _)
    exact ⟨hids ▸ hnodup, fun id => hids ▸ hhas id⟩

/-- A line that offends is passed over in lenient mode and at fault in strict mode. -/
theorem Follows.addLine_of_offends (hc : c.Follows before) (h : (Line.read raw).Offends (entryIds before)) (number : Nat) :
    c.addLine false number (.read raw) = .ok c ∧ ∃ f, c.addLine true number (.read raw) = .error f := by
  cases hline : Line.read raw with
  | idle => rw [hline] at h; exact h.elim
  | setting key value =>
    rw [hline] at h
    by_cases hempty : c.isEmpty = true
    · have hkey : key ∉ settingKeys := h.resolve_left fun hne => hne (hc.isEmpty_iff.mp hempty)
      simp [addLine, hempty, Metadata.set?_eq_none_iff.mpr hkey]
    · simp [addLine, hempty]
  | entry e => rw [hline] at h; exact h.elim
  | malformed why => simp [addLine]

/-- A line that does not offend is the same in both modes. -/
theorem Follows.addLine_of_not_offends (hc : c.Follows before) (h : ¬(Line.read raw).Offends (entryIds before)) (number : Nat) :
    c.addLine true number (.read raw) = c.addLine false number (.read raw) := by
  cases hline : Line.read raw with
  | idle => rfl
  | setting key value =>
    rw [hline] at h
    simp only [Line.Offends, not_or, not_not] at h
    obtain ⟨hids, hkey⟩ := h
    simp [addLine, hc.isEmpty_iff.mpr hids, Metadata.set?_eq_some hkey]
  | entry e => rfl
  | malformed why => rw [hline] at h; exact absurd trivial h

/-! ## All lines in the two modes -/

/-- Lenient loading of lines does what strict loading does with the lines that offend commented out. -/
theorem Follows.addLines_commentOut (hc : c.Follows before) (lines : List Bytes) (number : Nat) :
    addLines true number c (commentOut before lines) = addLines false number c lines := by
  induction lines generalizing c before number with
  | nil => rfl
  | cons raw rest ih =>
    rw [commentOut]
    by_cases h : OffendsAfter before raw
    · obtain ⟨hlenient, -⟩ := hc.addLine_of_offends h.2 number
      have hcomment : c.addLine true number (.read [35]) = .ok c := rfl
      rw [if_pos h, addLines, addLines, hcomment, hlenient]
      exact ih (hc.adds (adds_of_addLine hlenient)) (number + 1)
    · have hmode := hc.addLine_of_not_offends (fun ho => h ⟨hc.nodup, ho⟩) number
      rw [if_neg h, addLines, addLines, hmode]
      cases hline : c.addLine false number (.read raw) with
      | error f => rfl
      | ok c' => exact ih (hc.adds (adds_of_addLine hline)) (number + 1)

/-- Where strict loading of lines has no fault, none of them offends. -/
theorem Follows.not_offendsAfter (hc : c.Follows before) {lines : List Bytes} {number : Nat}
    (h : (addLines true number c lines).2 = none) {pre post : List Bytes} (hlines : lines = pre ++ raw :: post) :
    ¬OffendsAfter (before ++ pre) raw := by
  induction pre generalizing c before number lines with
  | nil =>
    rw [hlines, List.nil_append, addLines] at h
    rw [List.append_nil]
    intro ho
    obtain ⟨-, f, hf⟩ := hc.addLine_of_offends ho.2 number
    rw [hf] at h
    cases h
  | cons first pre ih =>
    rw [hlines, List.cons_append, addLines] at h
    cases hline : c.addLine true number (.read first) with
    | error f =>
      rw [hline] at h
      cases h
    | ok c' =>
      rw [hline] at h
      have hnext := ih (hc.adds (adds_of_addLine hline)) h rfl
      rwa [List.append_assoc] at hnext

end

end Catalog

/-! ## Sources in the two modes -/

/-- Lines stay as they are when none of them offends. -/
theorem commentOut_eq_self {before lines : List Bytes}
    (h : ∀ pre raw post, lines = pre ++ raw :: post → ¬OffendsAfter (before ++ pre) raw) : commentOut before lines = lines := by
  induction lines generalizing before with
  | nil => rfl
  | cons raw rest ih =>
    have hraw : ¬OffendsAfter before raw := by simpa using h [] raw rest rfl
    rw [commentOut, if_neg hraw, ih fun pre x post hrest => ?_]
    have hx := h (raw :: pre) x post (by rw [hrest, List.cons_append])
    rwa [List.append_assoc]

/-- No line commented out holds a line feed. -/
theorem lineFeed_notMem_commentOut {before lines : List Bytes} (h : ∀ raw ∈ lines, lineFeed ∉ raw) :
    ∀ raw ∈ commentOut before lines, lineFeed ∉ raw := by
  induction lines generalizing before with
  | nil => exact nofun
  | cons raw rest ih =>
    obtain ⟨hraw, hrest⟩ := List.forall_mem_cons.mp h
    rw [commentOut]
    refine List.forall_mem_cons.mpr ⟨?_, ih hrest⟩
    split
    · decide
    · exact hraw

/-- The lines of a source with the offending lines commented out are its lines with those commented out. -/
theorem sourceLines_commentedSource (source : Bytes) :
    sourceLines (commentedSource source) = commentOut [] (sourceLines source) := by
  have hlf : ∀ raw ∈ commentOut [] (sourceLines source), lineFeed ∉ raw :=
    lineFeed_notMem_commentOut fun _ => lineFeed_notMem_of_mem_sourceLines
  obtain ⟨first, rest, hlines⟩ := exists_sourceLines_eq_cons source
  have hsplit : (joinLines false (commentOut [] (sourceLines source))).splitOn lineFeed = commentOut [] (sourceLines source) := by
    rw [joinLines, if_neg Bool.false_ne_true, List.append_nil]
    exact List.splitOn_intercalate lineFeed hlf (by simp [hlines, commentOut])
  rw [commentedSource]
  split
  · rw [sourceLines_mark_append, hsplit]
  · rename_i hmark
    rw [List.isPrefixOf_iff_prefix] at hmark
    rw [List.nil_append, sourceLines_of_not_mark, hsplit]
    -- the mark holds no line feed, so it would have to stand in the first line, which is that of the source or a number sign
    have hnofeed : lineFeed ∉ byteOrderMark := by decide
    rw [hlines, commentOut, joinLines, if_neg Bool.false_ne_true, List.append_nil]
    rw [hlines, commentOut] at hlf
    rw [prefix_intercalate_iff hnofeed (List.forall_mem_cons.mp hlf).1]
    split
    · decide
    · rw [← prefix_intercalate_iff hnofeed (lineFeed_notMem_of_mem_sourceLines (hlines ▸ List.mem_cons_self)) rest, ← hlines,
        sourceLines_of_not_mark hmark, List.intercalate_splitOn]
      exact hmark

/-- A source is not empty with its offending lines commented out if it is not as it is. -/
theorem commentedSource_ne_nil {source : Bytes} (h : source ≠ []) : commentedSource source ≠ [] := by
  intro hempty
  have hmark : ¬byteOrderMark <+: source := by
    intro hmark
    rw [commentedSource, if_pos (List.isPrefixOf_iff_prefix.mpr hmark)] at hempty
    exact absurd (List.append_eq_nil_iff.mp hempty).1 (by decide)
  have hlines := sourceLines_commentedSource source
  obtain ⟨first, rest, hsource⟩ := exists_sourceLines_eq_cons source
  rw [hempty, hsource, commentOut, show sourceLines [] = [[]] from rfl, List.cons.injEq] at hlines
  obtain ⟨hfirst, hrest⟩ := hlines
  have hfirst : first = [] := by
    split at hfirst
    · cases hfirst
    · exact hfirst.symm
  have hrest : rest = [] := by
    cases rest with
    | nil => rfl
    | cons => cases hrest
  have hjoin : [lineFeed].intercalate (source.splitOn lineFeed) = source := List.intercalate_splitOn lineFeed
  rw [← sourceLines_of_not_mark hmark, hsource, hfirst, hrest] at hjoin
  exact h hjoin.symm

/-- Loading ends at the second entry of an id, so a line behind it does not offend. -/
example : commentedSource (utf8 "@meta x = 1\na: b\n@meta note = c\na\na: d\na") = utf8 "#\na: b\n#\n#\na: d\na" := by
  decide +kernel

namespace Catalog

/-- Lenient loading of a source is strict loading of it with the offending lines commented out. -/
theorem load_lenient_eq (c : Catalog) (source : Bytes) : c.load false source = c.load true (commentedSource source) := by
  by_cases hs : source = []
  · rw [hs]
    rfl
  · rw [load, load, if_neg hs, if_neg (commentedSource_ne_nil hs), sourceLines_commentedSource]
    exact (follows_nil.addLines_commentOut _ _).symm

/-- Where no line of a source offends, the two modes do the same. -/
theorem load_strict_eq {source : Bytes} (h : ¬HasOffendingLine source) (c : Catalog) :
    c.load true source = c.load false source := by
  have hlines : commentOut [] (sourceLines source) = sourceLines source :=
    commentOut_eq_self fun pre raw post hsplit ho => h ⟨pre, raw, post, hsplit, ho⟩
  have hrun := follows_nil.addLines_commentOut (sourceLines source) 1
  rw [hlines] at hrun
  rw [load, load, hrun]

/-- Strict loading has no fault only where no line of the source offends. -/
theorem not_hasOffendingLine_of_load {c : Catalog} {source : Bytes} (h : (c.load true source).2 = none) :
    ¬HasOffendingLine source := by
  rintro ⟨before, raw, after, hlines, ho⟩
  rw [load] at h
  split at h
  · cases h
  · exact follows_nil.not_offendsAfter h hlines ho

end Catalog

theorem Handle.load_succeeds_iff {h : Handle} {strict : Bool} {source : Bytes} :
    (h.load strict source).2 = true ↔ (h.catalog.load strict source).2 = none := by
  rw [Handle.load]
  split <;> simp_all

/-- Lenient loading of a source does what strict loading does with the source when its offending lines are commented out: the catalog, the
last error and the success are the same. Strict loading of the source itself succeeds just when lenient loading does and no line offends,
and then the two do the same. -/
theorem Handle.load_lenient (h : Handle) (source : Bytes) :
    h.load false source = h.load true (commentedSource source) ∧
      ((h.load true source).2 = true ↔ (h.load false source).2 = true ∧ ¬HasOffendingLine source) ∧
      ((h.load true source).2 = true → h.load true source = h.load false source) := by
  have hclean : ¬HasOffendingLine source → h.load true source = h.load false source := fun hno => by
    rw [Handle.load, Handle.load, Catalog.load_strict_eq hno]
  have hno : (h.load true source).2 = true → ¬HasOffendingLine source := fun hok =>
    Catalog.not_hasOffendingLine_of_load (Handle.load_succeeds_iff.mp hok)
  refine ⟨?commented, ⟨?succeeds, ?agrees⟩, fun hok => hclean (hno hok)⟩
  case commented => rw [Handle.load, Handle.load, Catalog.load_lenient_eq]
  case succeeds =>
    intro hok
    rw [← hclean (hno hok)]
    exact ⟨hok, hno hok⟩
  case agrees =>
    rintro ⟨hok, hnone⟩
    rw [hclean hnone]
    exact hok

end Phrasebook
