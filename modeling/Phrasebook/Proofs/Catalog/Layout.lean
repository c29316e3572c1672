import Phrasebook.Proofs.Catalog.Ending
import Mathlib.Logic.Relation

/-!
# The layout of a source

How a source is laid out does not count: the mark of UTF-8 at its start, the ends of its lines, blanks at the two ends of a line, blank
lines and comments (`Layout.Edit`). What its lines say stays the same (`sayings`), and loading goes by that alone, but for the numbers of
lines (`Handle.load_relaid`).
-/

namespace Phrasebook

/-- A source as it is laid out: whether it starts with the mark of UTF-8, its lines, and whether the last of them is ended by a line feed
like the others. -/
structure Layout where
  marked : Bool
  lines : List Bytes
  closed : Bool

namespace Layout

/-- The source that is laid out. -/
def source (x : Layout) : Bytes := (if x.marked then byteOrderMark else []) ++ joinLines x.closed x.lines

/-- No line holds a line feed or starts, blanks aside, with the mark of UTF-8. -/
def Plain (x : Layout) : Prop := ∀ line ∈ x.lines, lineFeed ∉ line ∧ ¬byteOrderMark <+: line.trim

/-- An edit of the layout: the mark of UTF-8 is put at the start, the last line is ended, a line is ended with a carriage return before
its line feed, blanks are put at the two ends of a line, or a line is put in that is blank or a comment. -/
inductive Edit : Layout → Layout → Prop
  | mark {lines : List Bytes} {closed : Bool} : Edit ⟨false, lines, closed⟩ ⟨true, lines, closed⟩
  | close {marked : Bool} {lines : List Bytes} : Edit ⟨marked, lines, false⟩ ⟨marked, lines, true⟩
  | carriageReturn {marked closed : Bool} {before after : List Bytes} {line : Bytes} :
      Edit ⟨marked, before ++ line :: after, closed⟩ ⟨marked, before ++ (line ++ [13]) :: after, closed⟩
  | blanks {marked closed : Bool} {before after : List Bytes} {left line right : Bytes} : left.IsBlanks → right.IsBlanks →
      lineFeed ∉ left → lineFeed ∉ right →
      Edit ⟨marked, before ++ line :: after, closed⟩ ⟨marked, before ++ (left ++ line ++ right) :: after, closed⟩
  | idle {marked closed : Bool} {before after : List Bytes} {line : Bytes} : lineFeed ∉ line →
      line.trim = [] ∨ line.trim.head? = some 35 →
      Edit ⟨marked, before ++ after, closed⟩ ⟨marked, before ++ line :: after, closed⟩

/-- A layout comes from another by edits, each of them made or undone. -/
def Relaid : Layout → Layout → Prop := Relation.EqvGen Edit

end Layout

/-! ## What lines say -/

/-- What lines say, one after the other, without the lines that say nothing. -/
def sayings (lines : List Bytes) : List Line := (lines.map Line.read).filter fun line => line ≠ .idle

@[simp] theorem sayings_append (lines lines' : List Bytes) : sayings (lines ++ lines') = sayings lines ++ sayings lines' := by
  simp [sayings]

/-- A line says nothing just when it is blank or a comment. -/
theorem Line.read_eq_idle_iff {raw : Bytes} : Line.read raw = .idle ↔ raw.trim = [] ∨ raw.trim.head? = some 35 := by
  simp only [Line.read]
  split
  · rename_i h
    exact ⟨fun _ => h, fun _ => rfl⟩
  · rename_i h
    refine ⟨fun hread => ?_, fun hidle => absurd hidle h⟩
    split at hread
    · cases hread
    · split at hread
      · cases hread
      · cases hread

theorem sayings_cons_of_idle {raw : Bytes} (h : Line.read raw = .idle) (lines : List Bytes) : sayings (raw :: lines) = sayings lines := by
  simp [sayings, h]

theorem sayings_cons {raw : Bytes} (h : Line.read raw ≠ .idle) (lines : List Bytes) :
    sayings (raw :: lines) = .read raw :: sayings lines := by
  simp [sayings, h]

/-- What a line says is told by the line without the blanks at its ends. -/
theorem Line.read_congr {raw raw' : Bytes} (h : raw.trim = raw'.trim) : Line.read raw = Line.read raw' := by
  rw [Line.read, Line.read, h]

namespace Layout

/-! ## What edits keep -/

/-- An edit keeps what the lines say. -/
theorem Edit.sayings_eq {x y : Layout} (h : Edit x y) : sayings x.lines = sayings y.lines := by
  have hline : ∀ {before after : List Bytes} {line line' : Bytes}, line'.trim = line.trim →
      sayings (before ++ line :: after) = sayings (before ++ line' :: after) := by
    intro before after line line' htrim
    simp only [sayings, List.map_append, List.map_cons, Line.read_congr htrim]
  cases h with
  | mark => rfl
  | close => rfl
  | @carriageReturn _ _ _ _ line => exact hline (Bytes.trim_append (by decide) line)
  | @blanks _ _ _ _ left line right hleft hright =>
    refine hline ?_
    rw [Bytes.trim_append hright, Bytes.append_trim hleft]
  | idle _ hidle => rw [sayings_append, sayings_append, sayings_cons_of_idle (Line.read_eq_idle_iff.mpr hidle)]

/-- An edit keeps a layout plain, made or undone. -/
theorem Edit.plain_iff {x y : Layout} (h : Edit x y) : x.Plain ↔ y.Plain := by
  have hline : ∀ {marked closed : Bool} {before after : List Bytes} {line line' : Bytes}, line'.trim = line.trim →
      (lineFeed ∉ line ↔ lineFeed ∉ line') →
      (Plain ⟨marked, before ++ line :: after, closed⟩ ↔ Plain ⟨marked, before ++ line' :: after, closed⟩) := by
    intro marked closed before after line line' htrim hlf
    simp only [Plain, List.forall_mem_append, List.forall_mem_cons, htrim, hlf]
  cases h with
  | mark => exact Iff.rfl
  | close => exact Iff.rfl
  | @carriageReturn _ _ _ _ line =>
    refine hline (Bytes.trim_append (by decide) line) ?_
    simp [show lineFeed ≠ 13 by decide]
  | @blanks _ _ _ _ left line right hleft hright hlfleft hlfright =>
    refine hline (by rw [Bytes.trim_append hright, Bytes.append_trim hleft]) ?_
    simp [hlfleft, hlfright]
  | @idle _ _ before after line hlf hidle =>
    have hmark : ¬byteOrderMark <+: line.trim := by
      rintro ⟨t, ht⟩
      rw [← ht] at hidle
      exact hidle.elim (by simp [byteOrderMark]) (by simp [byteOrderMark])
    simp only [Plain, List.forall_mem_append, List.forall_mem_cons, hlf, hmark, not_false_eq_true, and_self, true_and]

/-- Edits keep what the lines say, and a layout plain. -/
theorem Relaid.spec {x y : Layout} (h : x.Relaid y) : sayings x.lines = sayings y.lines ∧ (x.Plain ↔ y.Plain) := by
  induction h with
  | rel x y h => exact ⟨h.sayings_eq, h.plain_iff⟩
  | refl x => exact ⟨rfl, Iff.rfl⟩
  | symm x y _ ih => exact ⟨ih.1.symm, ih.2.symm⟩
  | trans x y z _ _ ihxy ihyz => exact ⟨ihxy.1.trans ihyz.1, ihxy.2.trans ihyz.2⟩

/-! ## The lines of a source that is laid out -/

/-- A line that starts with the mark of UTF-8 does so without the blanks at its ends. -/
theorem mark_isPrefix_trim {line : Bytes} (h : byteOrderMark <+: line) : byteOrderMark <+: line.trim := by
  obtain ⟨t, rfl⟩ := h
  refine ⟨Bytes.trimEnd t, ?_⟩
  have hstart : Bytes.trimStart (byteOrderMark ++ t) = byteOrderMark ++ t := Bytes.dropWhile_eq_self fun b hb => by
    rw [← Option.some.inj hb]
    rfl
  rw [Bytes.trim, hstart]
  exact (Bytes.trimEnd_append_cons [0xEF, 0xBB] (by rfl) t).symm

/-- The lines of a source say what the lines say that it is laid out in. -/
theorem sayings_sourceLines {x : Layout} (h : x.Plain) : sayings (sourceLines x.source) = sayings x.lines := by
  obtain ⟨marked, lines, closed⟩ := x
  have hlf : ∀ line ∈ lines, lineFeed ∉ line := fun line hm => (h line hm).1
  have hclosed : sayings (if closed then [[]] else []) = [] := by cases closed <;> rfl
  have hsplit : sayings ((joinLines closed lines).splitOn lineFeed) = sayings lines := by
    cases lines with
    | nil => cases closed <;> rfl
    | cons first rest => rw [splitOn_joinLines closed (List.cons_ne_nil _ _) hlf, sayings_append, hclosed, List.append_nil]
  cases marked with
  | true =>
    rw [source, if_pos rfl, sourceLines_mark_append]
    exact hsplit
  | false =>
    have hmark : ¬byteOrderMark <+: joinLines closed lines := by
      cases lines with
      | nil => cases closed <;> decide
      | cons first rest =>
        obtain ⟨hfirst, hnomark⟩ := h first List.mem_cons_self
        exact fun hm => hnomark (mark_isPrefix_trim ((mark_isPrefix_joinLines_iff closed hfirst rest).mp hm))
    rw [source, if_neg Bool.false_ne_true, List.nil_append, sourceLines_of_not_mark hmark]
    exact hsplit

end Layout

/-! ## Loading by what lines say -/

namespace LoadFault

/-- The fault at a line of another number. -/
def atLine (number : Nat) : LoadFault → LoadFault
  | .emptySource => .emptySource
  | .settingAfterEntries _ => .settingAfterEntries number
  | .unknownSetting _ key => .unknownSetting number key
  | .malformedLine _ why => .malformedLine number why
  | .duplicateId _ id => .duplicateId number id
  | .noEntry => .noEntry

theorem atLine_of_line? {f : LoadFault} {number : Nat} (h : f.line? = some number) : f.atLine number = f := by
  cases f <;> cases h <;> rfl

@[simp] theorem atLine_atLine (f : LoadFault) (n k : Nat) : (f.atLine n).atLine k = f.atLine k := by
  cases f <;> rfl

theorem atLine_of_line?_eq_none {f : LoadFault} (h : f.line? = none) (number : Nat) : f.atLine number = f := by
  cases f with
  | emptySource | noEntry => rfl
  | _ => cases h

theorem line?_atLine (f : LoadFault) (number : Nat) : (f.atLine number).line? = f.line?.map fun _ => number := by
  cases f <;> rfl

end LoadFault

namespace Catalog

/-- A line adds the same to a catalog at another number, or is at fault for the same reason. -/
theorem addLine_number (strict : Bool) (c : Catalog) (line : Line) (n k : Nat) :
    c.addLine strict k line = (c.addLine strict n line).mapError (LoadFault.atLine k) := by
  cases line with
  | idle => rfl
  | setting key value =>
    simp only [addLine]
    split
    · split
      · rfl
      · split <;> rfl
    · split <;> rfl
  | entry e =>
    simp only [addLine]
    split <;> rfl
  | malformed why =>
    simp only [addLine]
    split <;> rfl

/-- The catalog after what lines say, and the fault that ended the loading, with no number of a line. -/
def addSayings (strict : Bool) (c : Catalog) : List Line → Catalog × Option LoadFault
  | [] => (c, if c.isEmpty then some .noEntry else none)
  | line :: rest =>
    match c.addLine strict 0 line with
    | .ok c' => c'.addSayings strict rest
    | .error f => (c, some f)

/-- Loading lines goes by what they say, but for the number of the line at fault. -/
theorem addLines_eq_addSayings (strict : Bool) (number : Nat) (c : Catalog) (lines : List Bytes) :
    (addLines strict number c lines).map id (Option.map (LoadFault.atLine 0)) = c.addSayings strict (sayings lines) := by
  induction lines generalizing number c with
  | nil =>
    rw [addLines]
    by_cases hempty : c.isEmpty = true
    · simp [addSayings, sayings, hempty, LoadFault.atLine]
    · simp [addSayings, sayings, hempty]
  | cons raw rest ih =>
    rw [addLines]
    by_cases hidle : Line.read raw = .idle
    · rw [hidle, sayings_cons_of_idle hidle]
      exact ih (number + 1) c
    · rw [sayings_cons hidle, addSayings, addLine_number strict c (.read raw) number 0]
      cases c.addLine strict number (.read raw) with
      | ok c' => exact ih (number + 1) c'
      | error f => rfl

end Catalog

/-- Two wordings are the same, or those of one fault at two lines. -/
def SameUpToLine (m m' : Bytes) : Prop :=
  m = m' ∨ ∃ (f : LoadFault) (k k' : Nat), m = (f.atLine k).message ∧ m' = (f.atLine k').message

/-- Faults that are the same but for the number of the line differ in wording in that number alone. -/
theorem LoadFault.sameUpToLine {f g : LoadFault} (h : f.atLine 0 = g.atLine 0) : SameUpToLine f.message g.message := by
  have hline := congrArg line? h
  rw [line?_atLine, line?_atLine] at hline
  cases hf : f.line? with
  | none =>
    have hg : g.line? = none := by simpa [hf] using hline.symm
    rw [atLine_of_line?_eq_none hf, atLine_of_line?_eq_none hg] at h
    exact Or.inl (by rw [h])
  | some k =>
    obtain ⟨k', hg⟩ : ∃ k', g.line? = some k' := by
      rw [hf] at hline
      simpa using hline.symm
    refine Or.inr ⟨f, k, k', by rw [atLine_of_line? hf], ?_⟩
    rw [← atLine_atLine f 0, h, atLine_atLine, atLine_of_line? hg]

/-- Loading sources of one layout, up to edits, does the same in each mode: it succeeds or not, it leaves the same catalog, and the last
errors have the same code and differ in wording in the number of the line at most. -/
theorem Handle.load_relaid {x y : Layout} (hx : x.Plain) (hxy : x.Relaid y) (hsx : x.source ≠ []) (hsy : y.source ≠ [])
    (strict : Bool) (h h' : Handle) :
    (h.load strict x.source).2 = (h'.load strict y.source).2 ∧
      (h.load strict x.source).1.catalog = (h'.load strict y.source).1.catalog ∧
      (h.load strict x.source).1.lastError.code = (h'.load strict y.source).1.lastError.code ∧
      SameUpToLine (h.load strict x.source).1.lastError.message (h'.load strict y.source).1.lastError.message := by
  obtain ⟨hsayings, hplain⟩ := hxy.spec
  have hsame : (h.catalog.load strict x.source).map id (Option.map (LoadFault.atLine 0)) =
      (h'.catalog.load strict y.source).map id (Option.map (LoadFault.atLine 0)) := by
    rw [Catalog.load, Catalog.load, if_neg hsx, if_neg hsy, Catalog.addLines_eq_addSayings, Catalog.addLines_eq_addSayings,
      Layout.sayings_sourceLines hx, Layout.sayings_sourceLines (hplain.mp hx), hsayings]
  rw [Handle.load, Handle.load]
  generalize h.catalog.load strict x.source = r at hsame ⊢
  generalize h'.catalog.load strict y.source = r' at hsame ⊢
  obtain ⟨c, fault⟩ := r
  obtain ⟨c', fault'⟩ := r'
  obtain ⟨rfl, hfault⟩ : c = c' ∧ fault.map (LoadFault.atLine 0) = fault'.map (LoadFault.atLine 0) := by simpa using hsame
  cases fault with
  | none =>
    obtain rfl : fault' = none := by simpa using hfault.symm
    exact ⟨rfl, rfl, rfl, Or.inl rfl⟩
  | some f =>
    obtain ⟨g, rfl, hg⟩ := Option.map_eq_some_iff.mp hfault.symm
    exact ⟨rfl, rfl, rfl, LoadFault.sameUpToLine hg.symm⟩

/-- With the mark of UTF-8, a comment, a carriage return, a tab and an ended last line, an id that is given twice is still at fault, at the
third line instead of the second. -/
theorem Handle.load_relaid_sample :
    ∃ x y : Layout, x.source = utf8 "a: b\na: c" ∧ y.source = byteOrderMark ++ utf8 "# x\na: b\r\n\ta: c\n" ∧
      (x.Plain ∧ x.Relaid y ∧ x.source ≠ [] ∧ y.source ≠ []) ∧
      (({} : Handle).load true x.source).1.lastError.message = utf8 "Duplicate id at line 2: a" ∧
      (({} : Handle).load true y.source).1.lastError.message = utf8 "Duplicate id at line 3: a" ∧
      (({} : Handle).load true x.source).1.catalog = (({} : Handle).load true y.source).1.catalog ∧
      SameUpToLine (({} : Handle).load true x.source).1.lastError.message (({} : Handle).load true y.source).1.lastError.message := by
  have hmarked : Layout.Relaid ⟨false, [utf8 "a: b", utf8 "a: c"], false⟩ ⟨true, [utf8 "a: b", utf8 "a: c"], true⟩ :=
    .trans _ _ _ (.rel _ _ .mark) (.rel _ _ .close)
  have hended : Layout.Relaid ⟨true, [utf8 "a: b", utf8 "a: c"], true⟩ ⟨true, [utf8 "a: b\r", utf8 "a: c"], true⟩ :=
    .rel _ _ (@Layout.Edit.carriageReturn _ _ [] [utf8 "a: c"] (utf8 "a: b"))
  have htab : Layout.Relaid ⟨true, [utf8 "a: b\r", utf8 "a: c"], true⟩ ⟨true, [utf8 "a: b\r", utf8 "\ta: c"], true⟩ :=
    .rel _ _ (@Layout.Edit.blanks _ _ [utf8 "a: b\r"] [] [9] (utf8 "a: c") [] (by decide) (by decide) (by decide) (by decide))
  have hcomment : Layout.Relaid ⟨true, [utf8 "a: b\r", utf8 "\ta: c"], true⟩ ⟨true, [utf8 "# x", utf8 "a: b\r", utf8 "\ta: c"], true⟩ :=
    .rel _ _ (@Layout.Edit.idle _ _ [] _ (utf8 "# x") (by decide) (Or.inr (by decide +kernel)))
  have hxy := hmarked.trans _ _ _ (hended.trans _ _ _ (htab.trans _ _ _ hcomment))
  have hx : Layout.Plain ⟨false, [utf8 "a: b", utf8 "a: c"], false⟩ := by
    intro line hm
    simp only [List.mem_cons, List.not_mem_nil, or_false] at hm
    rcases hm with rfl | rfl
    · decide +kernel
    · decide +kernel
  have hsx : Layout.source ⟨false, [utf8 "a: b", utf8 "a: c"], false⟩ ≠ [] := by decide +kernel
  have hsy : Layout.source ⟨true, [utf8 "# x", utf8 "a: b\r", utf8 "\ta: c"], true⟩ ≠ [] := by decide +kernel
  obtain ⟨-, hcatalog, -, hmessage⟩ := Handle.load_relaid hx hxy hsx hsy true {} {}
  exact ⟨_, _, by decide +kernel, by decide +kernel, ⟨hx, hxy, hsx, hsy⟩, by decide +kernel, by decide +kernel, hcatalog, hmessage⟩

end Phrasebook
