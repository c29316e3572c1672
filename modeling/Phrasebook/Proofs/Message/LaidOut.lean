import Phrasebook.Proofs.Message.Cursor
import Phrasebook.Proofs.Message.Tokens

/-!
# A reader laid out

`Cursor.ofReader` lays a reader out as a cursor: its levels, one above the other, are the stack, and what it has read in its mode is in
one of the buffers. A byte does the same to a reader and to the reader laid out (`Cursor.readsAlike`), as long as the last mark is where
the mode says (`Cursor.Marked`). So after any number of bytes the cursor is the reader laid out, or both have stopped
(`Cursor.after_eq`), and a cursor reads from every source what the reader reads (`Cursor.parse_eq`).
-/

namespace Phrasebook

/-! ## What the reader does -/

/-- The nodes of a level in order: the complete ones, and the text since the last of them. -/
theorem Reader.reverse_settled (r : Reader) :
    r.settled.reverse = r.level.reverse ++ if r.run.reverse = [] then [] else [.text r.run.reverse] := by
  by_cases h : r.run = []
  · rw [settled_of_run_eq_nil h, if_pos (by rw [h, List.reverse_nil]), List.append_nil]
  · rw [settled_of_run_ne_nil h, if_neg (by simpa using h), List.reverse_cons]

theorem Reader.mode_of_endTag? {r r' : Reader} {raw : Bytes} (h : r.endTag? (.ofRaw raw) = some r') : r'.mode = .text := by
  have htake := endTag?_ofRaw { r with mode := .text } r.mode raw
  exact mode_of_take? (htake.symm.trans h) rfl

/-- One more byte of a source is one more step of the reader. -/
theorem Reader.scan?_take_succ {source : Bytes} {k : Nat} (hk : k < source.length) :
    Reader.scan? (source.take (k + 1)) = (Reader.scan? (source.take k)).bind fun r => r.step source[k] := by
  rw [List.take_add_one, List.getElem?_eq_getElem hk, Option.toList_some, scan?_append]
  simp

/-! ## The layout -/

/-- Where a cursor is when the reader is in a mode. -/
@[simp] def Mode.phase : Mode → Cursor.Phase
  | .text => .text
  | .tag _ => .tag
  | .placeholder _ => .placeholder

/-- What was read since the start of a tag, in the order of the source; nothing outside a tag. -/
@[simp] def Mode.tagRead : Mode → Bytes
  | .tag raw => raw.reverse
  | _ => []

/-- What was read since the first mark of a placeholder, in the order of the source; nothing outside a placeholder. -/
@[simp] def Mode.nameRead : Mode → Bytes
  | .placeholder name => name.reverse
  | _ => []

theorem Mode.phase_eq_text_iff {m : Mode} : m.phase = .text ↔ m = .text := by
  cases m <;> simp

theorem Mode.phase_eq_tag_iff {m : Mode} : m.phase = .tag ↔ ∃ raw, m = .tag raw := by
  cases m <;> simp

theorem Mode.phase_eq_placeholder_iff {m : Mode} : m.phase = .placeholder ↔ ∃ name, m = .placeholder name := by
  cases m <;> simp

namespace Cursor

/-- The stack for the levels that are open, the innermost first: the nodes of a level, and below them the mark of the tag. The nodes of
the outermost level are not on it. -/
def items : List Node → List OpenTag → List Item
  | _, [] => []
  | level, t :: enclosing => level.map .node ++ .opening t.name :: items t.before enclosing

/-- The nodes of the outermost level. -/
def outermost : List Node → List OpenTag → List Node
  | level, [] => level
  | _, t :: enclosing => outermost t.before enclosing

/-- The cursor that has read what a reader has read, at a position, with the last mark behind it. -/
def ofReader (r : Reader) (mark position : Nat) : Cursor where
  phase := r.mode.phase
  stack := items r.level r.enclosing
  outside := (outermost r.level r.enclosing).reverse
  position := position
  mark := mark
  tag := r.mode.tagRead
  text := r.run.reverse
  placeholder := r.mode.nameRead

/-- What a mode tells of a source: the mark that led there, and what was read since. -/
def Marked (source : Bytes) (mark position : Nat) : Mode → Prop
  | .text => True
  | .tag raw => Begun source mark position tagStart raw.reverse
  | .placeholder name => Begun source mark position percent name.reverse

variable {r : Reader} {mark position : Nat}

theorem items_ne_nil {level : List Node} {t : OpenTag} {enclosing : List OpenTag} : items level (t :: enclosing) ≠ [] := by
  simp [items]

@[simp] theorem stack_ofReader (r : Reader) : (ofReader r mark position).stack = items r.level r.enclosing := rfl

theorem tag_ofReader {raw : Bytes} (h : r.mode = .tag raw) : (ofReader r mark position).tag = raw.reverse := by
  rw [ofReader, h, Mode.tagRead]

/-- A node goes on the innermost level. -/
theorem put_ofReader (r : Reader) (mark position : Nat) (n : Node) :
    (ofReader r mark position).put n = ofReader { r with level := n :: r.level } mark position := by
  obtain ⟨mode, run, level, enclosing⟩ := r
  cases enclosing with
  | nil => simp [ofReader, put, items, outermost]
  | cons t enclosing =>
    rw [put]
    split
    · rename_i h
      exact absurd h items_ne_nil
    · rfl

theorem push_ofReader (r : Reader) (mark position : Nat) (name : Bytes) :
    (ofReader r mark position).push name = ofReader { r with level := [], enclosing := ⟨name, r.level⟩ :: r.enclosing } mark position :=
  rfl

/-- The text since the last node goes on the innermost level. -/
theorem putText_ofReader (r : Reader) (mark position : Nat) :
    (ofReader r mark position).putText = ofReader { r with run := [], level := r.settled } mark position := by
  obtain ⟨mode, run, level, enclosing⟩ := r
  cases run with
  | nil => rfl
  | cons b run =>
    have htext : (ofReader ⟨mode, b :: run, level, enclosing⟩ mark position).text ≠ [] := by simp [ofReader]
    rw [putText_of_ne_nil htext, put_ofReader]
    rfl

/-- A closing tag finds the mark of the innermost open tag below the nodes of its level. -/
theorem gather_items (name : Bytes) (children level : List Node) (t : OpenTag) (enclosing : List OpenTag) :
    gather name children (items level (t :: enclosing)) =
      if t.name = name then .ok (level.reverse ++ children, items t.before enclosing) else .error .unbalanced := by
  induction level generalizing children with
  | nil => rfl
  | cons n level ih =>
    have hitems : items (n :: level) (t :: enclosing) = .node n :: items level (t :: enclosing) := rfl
    rw [hitems, gather, if_neg items_ne_nil, ih, List.reverse_cons, List.append_assoc, List.singleton_append]

/-! ## One byte does the same -/

theorem ofReader_of_tag {raw : Bytes} (h : r.mode = .tag raw) (mark position : Nat) :
    { ofReader r mark position with phase := .text, tag := [] } = ofReader { r with mode := .text } mark position := by
  simp [ofReader, h]

theorem ofReader_of_placeholder {name : Bytes} (h : r.mode = .placeholder name) (mark position : Nat) :
    { ofReader r mark position with phase := .text, placeholder := [] } = ofReader { r with mode := .text } mark position := by
  simp [ofReader, h]

/-- A closing tag does to a reader laid out what it does to the reader. -/
theorem close_ofReader {w : Bytes} (h : r.mode = .tag (slash :: w).reverse) :
    (ofReader r mark position).close =
      (r.leave? (Bytes.trim w)).elim (.error .unbalanced) fun r' => .ok (ofReader r' mark position) := by
  have htag : (ofReader r mark position).tag = slash :: w := by rw [tag_ofReader h, List.reverse_reverse]
  have hname : piece (slash :: w) 1 (slash :: w).length = .ok w := by
    rw [piece, if_pos ⟨by simp, Nat.le_refl _⟩, List.extract_eq_take_drop]
    simp
  rw [close, htag, hname, Except.bind, stack_ofReader, Reader.leave?]
  cases he : r.enclosing with
  | nil => rfl
  | cons t enclosing =>
    rw [gather_items]
    by_cases ht : t.name = Bytes.trim w
    · -- Below the mark of the tag, what is left is the level around the tag, laid out.
      have hbelow : { ofReader r mark position with phase := .text, stack := items t.before enclosing, tag := [], text := [] } =
          ofReader { level := t.before, enclosing := enclosing } mark position := by
        simp [ofReader, he, h, outermost]
      have hput := put_ofReader { level := t.before, enclosing := enclosing } mark position (.tag (Bytes.trim w) r.settled.reverse)
      rw [← hbelow, Reader.reverse_settled] at hput
      simp only [if_pos ht, Except.map, Option.elim_some, Reader.reverse_settled]
      exact congrArg _ hput
    · rw [if_neg ht]
      simp [ht, Except.map]

/-- The end of a tag does to a reader laid out what it does to the reader. -/
theorem endTag_ofReader {raw : Bytes} (h : r.mode = .tag raw) :
    (ofReader r mark position).endTag =
      (r.endTag? (.ofRaw raw.reverse)).elim (.error .unbalanced) fun r' => .ok (ofReader r' mark position) := by
  rw [endTag, tag_ofReader h, TagMark.ofRaw]
  split
  · rename_i hslash
    obtain ⟨w, hw⟩ := List.head?_eq_some_iff.mp hslash
    rw [hw, List.tail_cons]
    refine close_ofReader ?_
    rw [h, ← hw, List.reverse_reverse]
  · have htext := ofReader_of_tag (r := { r with run := [], level := r.settled }) h mark position
    rw [putText_ofReader, htext]
    split
    · rw [put_ofReader]
      rfl
    · rw [push_ofReader]
      rfl

/-- A byte does to a reader laid out what it does to the reader, with the last mark where it should be then. -/
def ReadsAlike (source : Bytes) (mark position : Nat) (r : Reader) (b : UInt8) : Prop :=
  ∃ mark', (ofReader r mark position).read source b =
      (r.step b).elim (.error .unbalanced) (fun r' => .ok (ofReader r' mark' position)) ∧
    ∀ r', r.step b = some r' → Marked source mark' (position + 1) r'.mode

section

variable {source : Bytes} {b : UInt8}

/-- A byte that the reader takes and the cursor takes to the same place. -/
theorem ReadsAlike.of_step (r' : Reader) (mark' : Nat) (hstep : r.step b = some r')
    (hread : (ofReader r mark position).read source b = .ok (ofReader r' mark' position))
    (hmark : Marked source mark' (position + 1) r'.mode) : ReadsAlike source mark position r b := by
  refine ⟨mark', by rw [hread, hstep]; rfl, fun s hs => ?_⟩
  obtain rfl := Option.some.inj (hstep.symm.trans hs)
  exact hmark

/-- In text a byte is text, or the mark that leads out of it. -/
theorem readsAlike_text (hr : r.mode = .text) (hb : source[position]? = some b) : ReadsAlike source mark position r b := by
  by_cases hs : b = tagStart
  · subst hs
    refine .of_step { r with mode := .tag [] } position ?_ ?_ (Begun.start hb)
    · simp [Reader.step, hr]
    · simp [read, ofReader, hr]
  · by_cases hpc : b = percent
    · subst hpc
      refine .of_step { r with mode := .placeholder [] } position ?_ ?_ (Begun.start hb)
      · simp [Reader.step, hr, hs]
      · simp [read, ofReader, hr, hs]
    · refine .of_step { r with run := b :: r.run } mark ?_ ?_ (by rw [hr]; trivial)
      · simp [Reader.step, hr, hs, hpc]
      · simp [read, ofReader, hr, hs, hpc]

/-- Behind a percent sign a byte is of the name, or the other percent sign. Whether there is a name is told by the position. -/
theorem readsAlike_placeholder {name : Bytes} (hr : r.mode = .placeholder name)
    (h : Begun source mark position percent name.reverse) (hp : position ≤ source.length) (hb : source[position]? = some b) :
    ReadsAlike source mark position r b := by
  -- The reader asks whether the name is empty, the cursor how far it is from the mark.
  have hempty : position - mark = 1 ↔ name = [] := by
    have hpos := h.position_eq hp
    rw [← List.length_eq_zero_iff, ← List.length_reverse]
    omega
  by_cases hpc : b = percent
  · subst hpc
    by_cases hname : name = []
    · refine .of_step { r with mode := .text, run := percent :: r.run } mark ?_ ?_ trivial
      · simp [Reader.step, hr, hname]
      · simp [read, ofReader, hr, hempty.mpr hname, hname]
    · refine .of_step (r.add (.placeholder name.reverse)) mark ?_ ?_ trivial
      · simp [Reader.step, hr, hname]
      · have hread : (ofReader r mark position).read source percent =
            .ok ({ (ofReader r mark position).putText with phase := .text, placeholder := [] }.put (.placeholder name.reverse)) := by
          simp [read, ofReader, hr, hempty, hname]
        have htext := ofReader_of_placeholder (r := { r with run := [], level := r.settled }) hr mark position
        rw [hread, putText_ofReader, htext, put_ofReader]
        rfl
  · refine .of_step { r with mode := .placeholder (b :: name) } mark ?_ ?_ ?_
    · simp [Reader.step, hr, hpc]
    · simp [read, ofReader, hr, hpc]
    · rw [Marked, List.reverse_cons]
      exact h.concat hb

/-- Behind the start of a tag a byte is of the tag, its end, or the start of another one, which makes text of it. -/
theorem readsAlike_tag {raw : Bytes} (hr : r.mode = .tag raw) (h : Begun source mark position tagStart raw.reverse)
    (hp : position ≤ source.length) (hb : source[position]? = some b) : ReadsAlike source mark position r b := by
  by_cases he : b = tagEnd
  · subst he
    have hread : (ofReader r mark position).read source tagEnd = (ofReader r mark position).endTag := by
      simp [read, ofReader, hr]
    have hstep : r.step tagEnd = r.endTag? (.ofRaw raw.reverse) := by
      simp [Reader.step, hr]
    refine ⟨mark, by rw [hread, hstep, endTag_ofReader hr], fun r' hr' => ?_⟩
    rw [Reader.mode_of_endTag? (hstep.symm.trans hr')]
    trivial
  · by_cases hs : b = tagStart
    · subst hs
      refine .of_step { r with mode := .tag [], run := raw ++ tagStart :: r.run } position ?_ ?_ (Begun.start hb)
      · simp [Reader.step, hr, he]
      · simp [read, ofReader, hr, he, h.piece_mark hp, Except.map]
    · refine .of_step { r with mode := .tag (b :: raw) } mark ?_ ?_ ?_
      · simp [Reader.step, hr, he, hs]
      · simp [read, ofReader, hr, he, hs]
      · rw [Marked, List.reverse_cons]
        exact h.concat hb

/-- A byte does the same to a reader and to the reader laid out, wherever they are. -/
theorem readsAlike (h : Marked source mark position r.mode) (hp : position ≤ source.length) (hb : source[position]? = some b) :
    ReadsAlike source mark position r b := by
  cases hr : r.mode with
  | text => exact readsAlike_text hr hb
  | tag raw =>
    rw [hr] at h
    exact readsAlike_tag hr h hp hb
  | placeholder name =>
    rw [hr] at h
    exact readsAlike_placeholder hr h hp hb

end

/-! ## The same from end to end -/

variable {source : Bytes}

/-- A step of a cursor laid out is a step of the reader, and it stops only where the reader refuses the byte. -/
theorem step_ofReader (h : Marked source mark position r.mode) (hp : position < source.length) :
    ∃ mark', (ofReader r mark position).step source =
        (r.step source[position]).elim (.error .unbalanced) (fun r' => .ok (ofReader r' mark' (position + 1))) ∧
      ∀ r', r.step source[position] = some r' → Marked source mark' (position + 1) r'.mode := by
  have hb := List.getElem?_eq_getElem hp
  obtain ⟨mark', hread, hmark⟩ := readsAlike h (Nat.le_of_lt hp) hb
  refine ⟨mark', ?_, hmark⟩
  have hpos : (ofReader r mark position).position = position := rfl
  rw [step, hpos, hb]
  simp only [hread]
  cases r.step source[position] <;> rfl

/-- After a number of bytes a cursor is where the reader is, or both have stopped. -/
theorem after_eq {k : Nat} (hk : k ≤ source.length) :
    ∃ mark, after source k =
        (Reader.scan? (source.take k)).elim (.error .unbalanced) (fun r => .ok (ofReader r mark k)) ∧
      ∀ r, Reader.scan? (source.take k) = some r → Marked source mark k r.mode := by
  induction k with
  | zero =>
    refine ⟨0, rfl, ?_⟩
    rintro r ⟨⟩
    trivial
  | succ k ih =>
    obtain ⟨mark, hafter, hmark⟩ := ih (Nat.le_of_succ_le hk)
    rw [after, hafter, Reader.scan?_take_succ hk]
    cases hr : Reader.scan? (source.take k) with
    | none => exact ⟨mark, rfl, by simp⟩
    | some r =>
      exact step_ofReader (hmark r hr) hk

/-- A reader and the reader laid out end in the same text. -/
theorem lastText_ofReader (h : Marked source mark source.length r.mode) :
    (ofReader r mark source.length).lastText source = .ok r.tailRun.reverse := by
  cases hr : r.mode with
  | text => simp [lastText, ofReader, hr, Reader.tailRun]
  | tag raw =>
    rw [hr] at h
    simp [lastText, ofReader, hr, Reader.tailRun, h.piece_mark (Nat.le_refl _), Except.map]
  | placeholder name =>
    rw [hr] at h
    simp [lastText, ofReader, hr, Reader.tailRun, h.piece_mark (Nat.le_refl _), Except.map]

/-- The end of a source does the same to a reader and to the reader laid out. -/
theorem finish_ofReader (h : Marked source mark source.length r.mode) :
    (ofReader r mark source.length).finish source = r.finish?.elim (.error .unbalanced) .ok := by
  rw [finish, lastText_ofReader h, Except.bind, stack_ofReader, Reader.finish?]
  cases he : r.enclosing with
  | nil =>
    have houtside : (ofReader r mark source.length).outside = r.level.reverse := by rw [ofReader, he, outermost]
    rw [items, if_pos rfl, houtside]
    simp only [Option.elim_some, Reader.reverse_settled]
    split
    · rw [List.append_nil]
    · rfl
  | cons t enclosing =>
    rw [if_neg items_ne_nil]
    rfl

/-- A cursor reads from every source what the reader reads, and stops just where the reader refuses the source. -/
theorem parse_eq (source : Bytes) : parse source = (Message.parse source).mapError fun _ => .unbalanced := by
  obtain ⟨mark, hafter, hmark⟩ := after_eq (Nat.le_refl source.length)
  rw [List.take_length] at hafter hmark
  rw [parse, hafter, Message.parse, Message.read?]
  cases hr : Reader.scan? source with
  | none => rfl
  | some r =>
    simp only [Option.elim_some, Except.bind, Option.bind_some, finish_ofReader (hmark r hr)]
    cases r.finish? <;> rfl

end Cursor

end Phrasebook
