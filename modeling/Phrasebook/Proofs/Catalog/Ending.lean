import Phrasebook.Proofs.Catalog.Leniency
import Mathlib.Data.List.Induction

/-!
# How loading ends

The lines of a source are read one by one from an empty catalog (`Catalog.ReadsTo`). Loading fails at the first line that is at fault
(`Line.AtFault`), and what the lines before it made stays. Where no line is at fault it comes to the end, and fails only if there was no
entry (`Handle.load_ending`).
-/

namespace Phrasebook

/-! ## The number of a line -/

namespace LoadFault

/-- The number of the line that is at fault, if a line is. -/
def line? : LoadFault → Option Nat
  | .emptySource => none
  | .settingAfterEntries line => some line
  | .unknownSetting line _ => some line
  | .malformedLine line _ => some line
  | .duplicateId line _ => some line
  | .noEntry => none

/-- The wording of a fault at a line names the number of the line. -/
theorem at_line_infix_message {f : LoadFault} {number : Nat} (h : f.line? = some number) :
    utf8 " at line " ++ numeral number <:+: f.message := by
  have hsplit : ∀ head : String, utf8 (head ++ " at line ") = utf8 head ++ utf8 " at line " := fun head => by simp [utf8]
  cases f with
  | emptySource | noEntry => cases h
  | settingAfterEntries line =>
    cases h
    refine ⟨utf8 "Meta line after entries", [], ?_⟩
    simp [message, show utf8 "Meta line after entries at line " = _ from hsplit "Meta line after entries"]
  | unknownSetting line key =>
    cases h
    refine ⟨utf8 "Unknown meta key '" ++ key ++ utf8 "'", [], ?_⟩
    simp [message, show utf8 "' at line " = _ from hsplit "'"]
  | malformedLine line why =>
    cases h
    refine ⟨utf8 "Parse error", utf8 ": " ++ why.message, ?_⟩
    simp [message, show utf8 "Parse error at line " = _ from hsplit "Parse error"]
  | duplicateId line id =>
    cases h
    refine ⟨utf8 "Duplicate id", utf8 ": " ++ id, ?_⟩
    simp [message, show utf8 "Duplicate id at line " = _ from hsplit "Duplicate id"]

end LoadFault

/-! ## Lines at fault -/

/-- Why a line is at fault behind the lines before it: it gives an id that was given before or, in strict mode, it is a setting behind an
entry, a setting of an unknown key or a malformed line. -/
inductive Line.AtFault (strict : Bool) (before : List Bytes) : Line → LoadFault → Prop
  | duplicateId {e : Entry} : e.id ∈ entryIds before → AtFault strict before (.entry e) (.duplicateId (before.length + 1) e.id)
  | settingAfterEntries {key value : Bytes} : strict = true → entryIds before ≠ [] →
      AtFault strict before (.setting key value) (.settingAfterEntries (before.length + 1))
  | unknownSetting {key value : Bytes} : strict = true → entryIds before = [] → key ∉ settingKeys →
      AtFault strict before (.setting key value) (.unknownSetting (before.length + 1) key)
  | malformedLine {why : Malformed} : strict = true →
      AtFault strict before (.malformed why) (.malformedLine (before.length + 1) why)

/-- None of some lines is at fault behind those before it. -/
def Faultless (strict : Bool) (lines : List Bytes) : Prop :=
  ∀ before raw after, lines = before ++ raw :: after → ∀ f, ¬(Line.read raw).AtFault strict before f

/-- Lines without a fault stay so with a last line that is not at fault behind them. -/
theorem Faultless.concat {strict : Bool} {lines : List Bytes} {last : Bytes} (h : Faultless strict lines)
    (hlast : ∀ f, ¬(Line.read last).AtFault strict lines f) : Faultless strict (lines ++ [last]) := by
  intro before raw after hsplit f hf
  rcases List.eq_nil_or_concat after with rfl | ⟨after, x, rfl⟩
  · obtain ⟨rfl, hraw⟩ := List.append_inj' hsplit rfl
    obtain rfl := List.singleton_inj.mp hraw
    exact hlast f hf
  · rw [List.concat_eq_append, ← List.cons_append, ← List.append_assoc] at hsplit
    exact h before raw after (List.append_inj' hsplit rfl).1 f hf

theorem Line.AtFault.line?_eq {strict : Bool} {before : List Bytes} {line : Line} {f : LoadFault} (h : line.AtFault strict before f) :
    f.line? = some (before.length + 1) := by
  cases h <;> rfl

namespace Catalog

/-! ## One line -/

/-- A line is added to a catalog just as `Adds` says. -/
theorem addLine_eq_ok_iff {strict : Bool} {number : Nat} {c c' : Catalog} {line : Line} :
    c.addLine strict number line = .ok c' ↔ c.Adds strict line c' := by
  refine ⟨adds_of_addLine, fun h => ?_⟩
  cases h with
  | idle => rfl
  | setting hempty hm => simp [addLine, hempty, hm]
  | unknownSetting hstrict hempty hm => simp [addLine, hstrict, hempty, hm]
  | lateSetting hstrict hfilled => simp [addLine, hstrict, hfilled]
  | entry hnew => simp [addLine, hnew]
  | malformed hstrict => simp [addLine, hstrict]

section

variable {strict : Bool} {c c' : Catalog} {before lines : List Bytes} {raw : Bytes} {f : LoadFault}

/-- A line is at fault for what it says and for the ids and the number of the lines before it. -/
theorem Follows.addLine_eq_error_iff (hc : c.Follows before) :
    c.addLine strict (before.length + 1) (.read raw) = .error f ↔ (Line.read raw).AtFault strict before f := by
  generalize Line.read raw = line
  constructor
  · intro h
    cases line with
    | idle => cases h
    | setting key value =>
      rw [addLine] at h
      split at h
      · rename_i hempty
        split at h
        · cases h
        · rename_i hnone
          split at h
          · rename_i hstrict
            cases h
            exact .unknownSetting hstrict (hc.isEmpty_iff.mp hempty) (Metadata.set?_eq_none_iff.mp hnone)
          · cases h
      · rename_i hfilled
        split at h
        · rename_i hstrict
          cases h
          exact .settingAfterEntries hstrict fun hids => hfilled (hc.isEmpty_iff.mpr hids)
        · cases h
    | entry e =>
      rw [addLine] at h
      split at h
      · rename_i hhas
        cases h
        exact .duplicateId ((hc.has_iff e.id).mp hhas)
      · cases h
    | malformed why =>
      rw [addLine] at h
      split at h
      · rename_i hstrict
        cases h
        exact .malformedLine hstrict
      · cases h
  · intro h
    cases h with
    | duplicateId hid => simp [addLine, (hc.has_iff _).mpr hid]
    | settingAfterEntries hstrict hids =>
      have hfilled : c.isEmpty = false := by simpa using mt hc.isEmpty_iff.mp hids
      simp [addLine, hstrict, hfilled]
    | unknownSetting hstrict hids hkey =>
      simp [addLine, hstrict, hc.isEmpty_iff.mpr hids, Metadata.set?_eq_none_iff.mpr hkey]
    | malformedLine hstrict => simp [addLine, hstrict]

/-! ## Lines one by one -/

/-- A catalog is what lines make, one by one from an empty catalog and none of them at fault. -/
inductive ReadsTo (strict : Bool) : List Bytes → Catalog → Prop
  | start : ReadsTo strict [] {}
  | line {lines : List Bytes} {raw : Bytes} {c c' : Catalog} : ReadsTo strict lines c → c.Adds strict (.read raw) c' →
      ReadsTo strict (lines ++ [raw]) c'

theorem ReadsTo.follows (h : ReadsTo strict lines c) : c.Follows lines := by
  induction h with
  | start => exact follows_nil
  | line _ hadds ih => exact ih.adds hadds

/-- No lines make the empty catalog. -/
theorem readsTo_nil_iff : ReadsTo strict [] c ↔ c = {} := by
  constructor
  · intro h
    generalize hlines : ([] : List Bytes) = lines at h
    cases h with
    | start => rfl
    | line => simp at hlines
  · rintro rfl
    exact .start

/-- The last line is added to what the lines before it make. -/
theorem readsTo_concat_iff : ReadsTo strict (lines ++ [raw]) c' ↔ ∃ c, ReadsTo strict lines c ∧ c.Adds strict (.read raw) c' := by
  constructor
  · intro h
    generalize hall : lines ++ [raw] = all at h
    cases h with
    | start => simp at hall
    | @line before last c _ hbefore hadds =>
      obtain ⟨rfl, hlast⟩ := List.append_inj' hall rfl
      obtain rfl := List.singleton_inj.mp hlast
      exact ⟨c, hbefore, hadds⟩
  · rintro ⟨c, hlines, hadds⟩
    exact hlines.line hadds

/-- Lines make one catalog. -/
theorem ReadsTo.unique (h : ReadsTo strict lines c) (h' : ReadsTo strict lines c') : c = c' := by
  induction lines using List.reverseRecOn generalizing c c' with
  | nil => rw [readsTo_nil_iff.mp h, readsTo_nil_iff.mp h']
  | append_singleton lines raw ih =>
    obtain ⟨c₀, hlines, hadds⟩ := readsTo_concat_iff.mp h
    obtain ⟨c₁, hlines', hadds'⟩ := readsTo_concat_iff.mp h'
    obtain rfl := ih hlines hlines'
    have hsame : Catalog.addLine strict 0 c₀ (.read raw) = .ok c := addLine_eq_ok_iff.mpr hadds
    rw [addLine_eq_ok_iff.mpr hadds'] at hsame
    exact (Except.ok.inj hsame).symm

/-- Lines that make a catalog are not at fault. -/
theorem ReadsTo.faultless (h : ReadsTo strict lines c) : Faultless strict lines := by
  induction h with
  | start => exact fun before raw after hlines => absurd hlines (by simp)
  | @line lines last c c' hlines hadds ih =>
    refine ih.concat fun f hf => ?_
    have herror := hlines.follows.addLine_eq_error_iff.mpr hf
    rw [addLine_eq_ok_iff.mpr hadds] at herror
    cases herror

/-- Behind the lines that made a catalog, further lines are all read, or up to the first of them that is at fault. -/
theorem ReadsTo.addLines (h : ReadsTo strict before c) (lines : List Bytes) :
    (∃ c', ReadsTo strict (before ++ lines) c' ∧
      Catalog.addLines strict (before.length + 1) c lines = (c', if c'.isEmpty then some .noEntry else none)) ∨
    ∃ pre raw after c' f, lines = pre ++ raw :: after ∧ ReadsTo strict (before ++ pre) c' ∧
      (Line.read raw).AtFault strict (before ++ pre) f ∧
      Catalog.addLines strict (before.length + 1) c lines = (c', some f) := by
  induction lines generalizing before c with
  | nil =>
    rw [List.append_nil]
    exact Or.inl ⟨c, h, rfl⟩
  | cons raw rest ih =>
    rw [Catalog.addLines]
    cases hline : c.addLine strict (before.length + 1) (.read raw) with
    | error f =>
      refine Or.inr ⟨[], raw, rest, c, f, rfl, ?_, ?_, rfl⟩
      · rwa [List.append_nil]
      · rw [List.append_nil]
        exact h.follows.addLine_eq_error_iff.mp hline
    | ok c₁ =>
      have hnext := ih (h.line (adds_of_addLine hline))
      simp only [List.length_append, List.length_singleton, List.append_assoc, List.singleton_append] at hnext
      rcases hnext with hend | ⟨pre, x, after, c', f, rfl, hreads, hf, hrun⟩
      · exact Or.inl hend
      · exact Or.inr ⟨raw :: pre, x, after, c', f, rfl, hreads, hf, hrun⟩

end

end Catalog

/-! ## The ending -/

/-- How loading lines ends: what the handle is then, and whether the loading succeeded. It fails at the first line that is at fault, with
the number of that line in the error, and leaves what the lines before it make; or it fails behind the last line, as no line gave an
entry, and leaves settings at most; or it succeeds. -/
inductive Ending (strict : Bool) (lines : List Bytes) : Handle × Bool → Prop
  | atLine {before after : List Bytes} {raw : Bytes} {c : Catalog} {f : LoadFault} : lines = before ++ raw :: after →
      Faultless strict before → (Line.read raw).AtFault strict before f →
      utf8 " at line " ++ numeral (before.length + 1) <:+: f.message → c.ReadsTo strict before →
      Ending strict lines (⟨c, ⟨.catalog, f.message⟩⟩, false)
  | noEntry {c : Catalog} : Faultless strict lines → entryIds lines = [] → c.ReadsTo strict lines → c.entries = .empty →
      Ending strict lines (⟨c, ⟨.catalog, utf8 "No valid entry loaded (empty catalog?)"⟩⟩, false)
  | success {c : Catalog} : Faultless strict lines → entryIds lines ≠ [] → c.ReadsTo strict lines → c.entries ≠ .empty →
      Ending strict lines (⟨c, {}⟩, true)

theorem Catalog.isEmpty_iff {c : Catalog} : c.isEmpty = true ↔ c.entries = .empty := by
  rw [Catalog.isEmpty, List.isEmpty_iff]
  exact ⟨fun h => Entries.ext h, fun h => by rw [h]; rfl⟩

/-- Loading a source that is not empty ends as loading its lines does. -/
theorem Handle.ending_load {strict : Bool} {source : Bytes} (hs : source ≠ []) (h : Handle) :
    Ending strict (sourceLines source) (h.load strict source) := by
  have hload : h.catalog.load strict source = Catalog.addLines strict 1 {} (sourceLines source) := by rw [Catalog.load, if_neg hs]
  rw [Handle.load, hload]
  rcases Catalog.ReadsTo.start.addLines (sourceLines source) with ⟨c, hreads, hrun⟩ | ⟨before, raw, after, c, f, hlines, hreads, hf, hrun⟩
  · rw [List.nil_append] at hreads
    rw [show Catalog.addLines strict 1 {} (sourceLines source) = _ from hrun]
    by_cases hempty : c.isEmpty = true
    · rw [if_pos hempty]
      exact .noEntry hreads.faultless (hreads.follows.isEmpty_iff.mp hempty) hreads (Catalog.isEmpty_iff.mp hempty)
    · rw [if_neg hempty]
      exact .success hreads.faultless (mt hreads.follows.isEmpty_iff.mpr hempty) hreads (mt Catalog.isEmpty_iff.mpr hempty)
  · rw [List.nil_append] at hreads hf
    rw [show Catalog.addLines strict 1 {} (sourceLines source) = _ from hrun]
    exact .atLine hlines hreads.faultless hf (LoadFault.at_line_infix_message hf.line?_eq) hreads

/-- The first line at fault is none of the lines before another first line at fault. -/
theorem Faultless.eq_nil {strict : Bool} {before more after : List Bytes} {raw : Bytes} {rest : List Bytes} {f : LoadFault}
    (h : Faultless strict (before ++ more)) (hsplit : raw :: after = more ++ rest) (hf : (Line.read raw).AtFault strict before f) :
    more = [] := by
  cases more with
  | nil => rfl
  | cons x more =>
    rw [List.cons_append, List.cons.injEq] at hsplit
    exact absurd hf (h before raw more (by rw [hsplit.1]) f)

/-- Lines end loading in one way. -/
theorem Ending.unique {strict : Bool} {lines : List Bytes} {outcome outcome' : Handle × Bool} (h : Ending strict lines outcome)
    (h' : Ending strict lines outcome') : outcome = outcome' := by
  cases h with
  | @atLine before after raw c f hlines hclean hf _ hreads =>
    cases h' with
    | @atLine before' after' raw' c' f' hlines' hclean' hf' _ hreads' =>
      have hbefore : before = before' := by
        rcases List.append_eq_append_iff.mp (hlines.symm.trans hlines') with ⟨more, rfl, hmore⟩ | ⟨more, rfl, hmore⟩
        · rw [hclean'.eq_nil hmore hf, List.append_nil]
        · rw [hclean.eq_nil hmore hf', List.append_nil]
      subst hbefore
      obtain ⟨rfl, -⟩ := List.cons.inj (List.append_cancel_left (hlines.symm.trans hlines'))
      obtain rfl := hreads.unique hreads'
      have hsame := (hreads.follows.addLine_eq_error_iff.mpr hf).symm.trans (hreads.follows.addLine_eq_error_iff.mpr hf')
      rw [Except.error.inj hsame]
    | noEntry hclean' => exact absurd hf (hclean' before raw after hlines f)
    | success hclean' => exact absurd hf (hclean' before raw after hlines f)
  | noEntry hclean hids hreads =>
    cases h' with
    | @atLine before after raw _ f hlines _ hf => exact absurd hf (hclean before raw after hlines f)
    | noEntry _ _ hreads' => rw [hreads.unique hreads']
    | success _ hids' => exact absurd hids hids'
  | success hclean hids hreads =>
    cases h' with
    | @atLine before after raw _ f hlines _ hf => exact absurd hf (hclean before raw after hlines f)
    | noEntry _ hids' => exact absurd hids' hids
    | success _ _ hreads' => rw [hreads.unique hreads']

theorem Faultless.exists_readsTo {strict : Bool} {lines : List Bytes} (h : Faultless strict lines) :
    ∃ c : Catalog, c.ReadsTo strict lines := by
  rcases Catalog.ReadsTo.start.addLines lines with ⟨c, hreads, -⟩ | ⟨before, raw, after, c, f, hlines, -, hf, -⟩
  · exact ⟨c, hreads⟩
  · exact absurd hf (h before raw after hlines f)

/-- Loading a source fails at the first line that is at fault, whatever the handle was before. -/
theorem Handle.load_of_atFault {strict : Bool} {source raw : Bytes} {before after : List Bytes} {f : LoadFault} (hs : source ≠ [])
    (hlines : sourceLines source = before ++ raw :: after) (hclean : Faultless strict before)
    (hf : (Line.read raw).AtFault strict before f) :
    ∃ c : Catalog, c.ReadsTo strict before ∧ ∀ h : Handle, h.load strict source = (⟨c, ⟨.catalog, f.message⟩⟩, false) := by
  obtain ⟨c, hreads⟩ := hclean.exists_readsTo
  exact ⟨c, hreads, fun h => (ending_load hs h).unique (.atLine hlines hclean hf (LoadFault.at_line_infix_message hf.line?_eq) hreads)⟩

/-- An empty source fails and leaves all but the last error as it is. Loading any other source, into whatever handle, ends as its lines
tell: at the first line at fault, or behind the last line. -/
theorem Handle.load_ending (strict : Bool) (source : Bytes) :
    (∀ h : Handle, h.load strict [] = (h.withError ⟨.catalog, utf8 "src is empty"⟩, false)) ∧
      (source ≠ [] → ∀ (h : Handle) (outcome : Handle × Bool),
        h.load strict source = outcome ↔ Ending strict (sourceLines source) outcome) := by
  refine ⟨fun h => rfl, fun hs h outcome => ⟨?ends, fun hending => (ending_load hs h).unique hending⟩⟩
  case ends =>
    rintro rfl
    exact ending_load hs h

/-- An id is given again behind a setting, a blank line and its first entry: the setting and that entry stay. -/
theorem Handle.load_ending_sample :
    utf8 "@meta note = n\n\na: b\na: c" ≠ [] ∧
      ∃ c : Catalog, Ending false (sourceLines (utf8 "@meta note = n\n\na: b\na: c"))
          (⟨c, ⟨.catalog, utf8 "Duplicate id at line 4: a"⟩⟩, false) ∧
        c.metadata = { note := utf8 "n" } ∧ c.entries.toList = [⟨utf8 "a", [], utf8 "b"⟩] := by
  have hs : utf8 "@meta note = n\n\na: b\na: c" ≠ [] := by decide
  exact ⟨hs, ⟨{ note := utf8 "n" }, .insert .empty ⟨utf8 "a", [], utf8 "b"⟩⟩, ((Handle.load_ending false _).2 hs {} _).mp rfl, rfl, rfl⟩

end Phrasebook
