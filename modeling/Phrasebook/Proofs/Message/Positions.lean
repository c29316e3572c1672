import Phrasebook.Proofs.Message.Canonical
import Phrasebook.Proofs.Message.LaidOut

/-!
# A cursor keeps its place

Wherever a cursor is in a source, its buffers hold what stands there behind the last mark, and nothing else, and every node on its stack has
the mark of an open tag below it (`Cursor.Sound`). This is read off the reader that is laid out: which names open tags is the invariant
of the reader (`Reader.Sound`), and where the last mark stands is `Cursor.Marked`. So a cursor asks for no piece that the source does not
have, and no node is ever left over; all that stops it are tags that are not properly nested, a closing tag without a name among
them (`Cursor.keepsPlace`).
-/

namespace Phrasebook

/-! ## Where a source is refused -/

/-- A source is refused when the reader refuses the beginning of it. -/
theorem Message.parse_of_scan?_take {source : Bytes} {k : Nat} (h : Reader.scan? (source.take k) = none) :
    Message.parse source = .error (.unbalancedTags source) := by
  have hscan : Reader.scan? source = none := by
    rw [← List.take_append_drop k source, Reader.scan?_append, h, Option.bind_none]
  rw [parse, read?, hscan, Option.bind_none]

/-- No tag is open without a name, so a closing tag whose name is blank closes none. -/
theorem Reader.step_tagEnd_of_nameless {r : Reader} (h : r.Sound) {w : Bytes} (hr : r.mode = .tag (slash :: w).reverse)
    (hw : Bytes.trim w = []) : r.step tagEnd = none := by
  have hmark : TagMark.ofRaw (slash :: w) = .closing [] := by rw [TagMark.ofRaw, List.head?_cons, if_pos rfl, List.tail_cons, hw]
  have hleave : r.leave? [] = none := by
    unfold leave?
    split
    · rfl
    · rename_i t rest he
      rw [if_neg (h.enclosing t (he ▸ List.mem_cons_self)).1.ne_nil]
  simp only [step, hr, if_pos, List.reverse_reverse, hmark]
  exact hleave

/-! ## What a cursor holds -/

namespace Cursor

/-- A buffer holds what stands in a source between a mark and a position behind it, and the mark is the last one of its kind there. -/
structure Spans (source : Bytes) (mark position : Nat) (b : UInt8) (buffer : Bytes) : Prop where
  mark_lt : mark < position
  getElem?_mark : source[mark]? = some b
  eq_extract : buffer = source.extract (mark + 1) position
  notMem : b ∉ buffer

/-- What is true of a cursor wherever it is in a source: at the bottom of its stack is the mark of an open tag, every open tag has a name
that opens one, and the buffers are empty but for the one of its phase, which holds the source behind the last mark. -/
structure Sound (source : Bytes) (c : Cursor) : Prop where
  bottom : ∀ i, c.stack.getLast? = some i → ∃ name, i = .opening name
  names : ∀ name, .opening name ∈ c.stack → IsOpeningName name
  inText : c.phase = .text → c.tag = [] ∧ c.placeholder = []
  inTag : c.phase = .tag → Spans source c.mark c.position tagStart c.tag ∧ c.placeholder = []
  inPlaceholder : c.phase = .placeholder → Spans source c.mark c.position percent c.placeholder ∧ c.tag = []

variable {source : Bytes} {mark position : Nat} {r : Reader}

/-! ## The stack -/

/-- A stack that is not empty has the mark of an open tag at its bottom. -/
theorem items_eq_nil_or_concat (level : List Node) (enclosing : List OpenTag) :
    items level enclosing = [] ∨ ∃ above name, items level enclosing = above ++ [.opening name] := by
  induction enclosing generalizing level with
  | nil => exact Or.inl rfl
  | cons t enclosing ih =>
    right
    rcases ih t.before with h | ⟨above, name, h⟩
    · exact ⟨level.map .node, t.name, by rw [items, h]⟩
    · exact ⟨level.map .node ++ .opening t.name :: above, name, by rw [items, h, List.append_assoc, List.cons_append]⟩

/-- The marks on the stack are those of the open tags. -/
theorem exists_of_opening_mem_items {name : Bytes} {level : List Node} {enclosing : List OpenTag}
    (h : .opening name ∈ items level enclosing) : ∃ t ∈ enclosing, t.name = name := by
  induction enclosing generalizing level with
  | nil => cases h
  | cons t enclosing ih =>
    rcases List.mem_append.mp h with h | h
    · obtain ⟨n, -, hn⟩ := List.mem_map.mp h
      cases hn
    · rcases List.mem_cons.mp h with h | h
      · exact ⟨t, List.mem_cons_self, (Item.opening.inj h).symm⟩
      · obtain ⟨u, hu, rfl⟩ := ih h
        exact ⟨u, List.mem_cons_of_mem _ hu, rfl⟩

/-! ## The buffers -/

/-- What was read since a mark spans the source behind it. -/
theorem Begun.spans {b : UInt8} {w : Bytes} (h : Begun source mark position b w) (hp : position ≤ source.length) (hb : b ∉ w) :
    Spans source mark position b w where
  mark_lt := by
    have hpos := h.position_eq hp
    omega
  getElem?_mark := h.getElem?_mark hp
  eq_extract := (h.extract_succ hp).symm
  notMem := hb

/-- A sound reader with the last mark where its mode says is, laid out, a sound cursor. -/
theorem sound_ofReader (hr : r.Sound) (hm : Marked source mark position r.mode) (hp : position ≤ source.length) :
    (ofReader r mark position).Sound source where
  bottom := by
    intro i hi
    rw [stack_ofReader] at hi
    rcases items_eq_nil_or_concat r.level r.enclosing with h | ⟨above, name, h⟩
    · rw [h] at hi
      cases hi
    · rw [h, List.getLast?_concat] at hi
      exact ⟨name, (Option.some.inj hi).symm⟩
  names := by
    intro name hname
    obtain ⟨t, ht, rfl⟩ := exists_of_opening_mem_items hname
    exact (hr.enclosing t ht).1
  inText := by
    intro hphase
    have hmode := Mode.phase_eq_text_iff.mp hphase
    simp [ofReader, hmode]
  inTag := by
    intro hphase
    obtain ⟨raw, hmode⟩ := Mode.phase_eq_tag_iff.mp hphase
    have hsuits := hr.mode
    rw [hmode] at hm hsuits
    simpa [ofReader, hmode] using Begun.spans hm hp (List.mem_reverse.not.mpr hsuits.2.1)
  inPlaceholder := by
    intro hphase
    obtain ⟨name, hmode⟩ := Mode.phase_eq_placeholder_iff.mp hphase
    have hsuits := hr.mode
    rw [hmode] at hm hsuits
    simpa [ofReader, hmode] using Begun.spans hm hp (List.mem_reverse.not.mpr hsuits.2)

/-! ## Wherever a cursor is -/

/-- A cursor that has not stopped is a sound reader laid out. -/
theorem exists_ofReader_of_after {k : Nat} {c : Cursor} (hk : k ≤ source.length) (h : after source k = .ok c) :
    ∃ r mark, Reader.scan? (source.take k) = some r ∧ c = ofReader r mark k ∧ r.Sound ∧ Marked source mark k r.mode := by
  obtain ⟨mark, hafter, hmark⟩ := after_eq hk
  rw [hafter] at h
  cases hr : Reader.scan? (source.take k) with
  | none =>
    rw [hr] at h
    cases h
  | some r =>
    rw [hr] at h
    cases h
    exact ⟨r, mark, rfl, rfl, Reader.sound_start.foldlM hr, hmark r hr⟩

/-- An outcome of a cursor that is told by what the reader does is a stop for tags that are not properly nested, if it is one. -/
theorem stop_eq_of_elim {α β : Type} {o : Option α} {f : α → β} {s : Stop}
    (h : o.elim (.error .unbalanced) (fun a => Except.ok (f a)) = .error s) : s = .unbalanced := by
  cases o with
  | none =>
    cases h
    rfl
  | some a => cases h

/-- A cursor stops only for tags that are not properly nested. -/
theorem stop_eq_of_after {k : Nat} {s : Stop} (hk : k ≤ source.length) (h : after source k = .error s) : s = .unbalanced := by
  obtain ⟨mark, hafter, -⟩ := after_eq hk
  exact stop_eq_of_elim (hafter.symm.trans h)

/-- A cursor keeps its place in a source: it goes as far as the reader does, after any number of bytes it stands behind them and is sound,
and only tags that are not properly nested stop it, on the way or at the end. So no node on the stack is ever left without a tag, and every
piece that is asked for is there. A closing tag whose name is blank always stops it, and the source is refused. In the end it has read
what the reader reads. -/
structure KeepsPlace (source : Bytes) : Prop where
  goesOn : ∀ k, k ≤ source.length → ((∃ c, after source k = .ok c) ↔ ∃ r, Reader.scan? (source.take k) = some r)
  sound : ∀ k c, k ≤ source.length → after source k = .ok c → c.position = k ∧ c.Sound source
  stops : ∀ k s, k ≤ source.length → after source k = .error s → s = .unbalanced
  ends : ∀ c s, after source source.length = .ok c → c.finish source = .error s → s = .unbalanced
  nameless : ∀ k c w, after source k = .ok c → c.phase = .tag → c.tag = slash :: w → Bytes.trim w = [] →
    source[k]? = some tagEnd → c.step source = .error .unbalanced ∧ Message.parse source = .error (.unbalancedTags source)
  reads : parse source = (Message.parse source).mapError fun _ => .unbalanced

/-- In every source a cursor keeps its place. -/
theorem keepsPlace (source : Bytes) : KeepsPlace source where
  goesOn := by
    intro k hk
    constructor
    · rintro ⟨c, hc⟩
      obtain ⟨r, -, hr, -⟩ := exists_ofReader_of_after hk hc
      exact ⟨r, hr⟩
    · rintro ⟨r, hr⟩
      obtain ⟨mark, hafter, -⟩ := after_eq hk
      rw [hr] at hafter
      exact ⟨_, hafter⟩
  sound := by
    intro k c hk hc
    obtain ⟨r, mark, -, rfl, hr, hmark⟩ := exists_ofReader_of_after hk hc
    exact ⟨rfl, sound_ofReader hr hmark hk⟩
  stops := fun k s hk hs => stop_eq_of_after hk hs
  ends := by
    intro c s hc hs
    obtain ⟨r, mark, -, rfl, -, hmark⟩ := exists_ofReader_of_after (Nat.le_refl _) hc
    rw [finish_ofReader hmark] at hs
    exact stop_eq_of_elim hs
  nameless := by
    intro k c w hc hphase htag hw hb
    obtain ⟨hk, hbyte⟩ := List.getElem?_eq_some_iff.mp hb
    obtain ⟨r, mark, hscan, rfl, hr, hmark⟩ := exists_ofReader_of_after (Nat.le_of_lt hk) hc
    obtain ⟨raw, hraw⟩ := Mode.phase_eq_tag_iff.mp hphase
    rw [tag_ofReader hraw] at htag
    have hstep : r.step source[k] = none := by
      rw [hbyte]
      refine Reader.step_tagEnd_of_nameless hr ?_ hw
      rw [hraw, ← htag, List.reverse_reverse]
    obtain ⟨mark', hcursor, -⟩ := step_ofReader hmark hk
    refine ⟨by rw [hcursor, hstep]; rfl, Message.parse_of_scan?_take (k := k + 1) ?_⟩
    rw [Reader.scan?_take_succ hk, hscan, Option.bind_some, hstep]
  reads := parse_eq source

/-- A cursor in a source with a stray start of a tag, a doubled percent sign and a placeholder stands inside a closing tag without a name:
its stack, its buffers and the place of the last mark, and how it goes on. -/
theorem keepsPlace_sample :
    ∃ (source : Bytes) (c : Cursor), source = utf8 "a<<p>b%%%n%< </ >" ∧ after source 16 = .ok c ∧
      c = ⟨.tag, [.node (.placeholder (utf8 "n")), .node (.text (utf8 "b%")), .opening (utf8 "p")], [.text (utf8 "a<")], 16, 13,
        utf8 "/ ", utf8 "< ", []⟩ ∧
      c.Sound source ∧ c.step source = .error .unbalanced ∧ Message.parse source = .error (.unbalancedTags source) := by
  have hc : after (utf8 "a<<p>b%%%n%< </ >") 16 = .ok _ := rfl
  obtain ⟨hstep, hparse⟩ := (keepsPlace _).nameless 16 _ (utf8 " ") hc rfl rfl rfl rfl
  exact ⟨_, _, rfl, hc, rfl, ((keepsPlace _).sound 16 _ (by decide) hc).2, hstep, hparse⟩

end Cursor

end Phrasebook
