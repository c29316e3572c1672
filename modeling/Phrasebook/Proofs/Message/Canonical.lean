import Phrasebook.Message.Reader
import Phrasebook.Proofs.Trimming
import Mathlib.Data.List.Chain
import Mathlib.Data.List.TakeWhile

/-!
# Canonical messages

Not every message can be read from a source: the marks that a text or a name may hold depend on what stands around it. A message is
canonical (`Message.Canonical`) when it respects this on every level. Every message that was read is canonical
(`Message.canonical_of_read?`).

The invariant behind it is `Reader.Sound`: while a source is read, the nodes complete so far are canonical on their levels, the names
of the open tags are names of tags but for blanks around them, and the text since the last node has no start of a tag in it unless
the reader is inside a tag.
-/

namespace Phrasebook

/-! ## What texts and names may hold -/

/-- A text has no end of a tag behind its first start of a tag. -/
def NoLateEnd (s : Bytes) : Prop := tagEnd ∉ s.dropWhile (· != tagStart)

/-- A text ends in a placeholder that does not end: it has a percent sign, and no start of a tag before its last one. -/
def EndsInPlaceholder (s : Bytes) : Prop := ∃ u v, s = u ++ percent :: v ∧ tagStart ∉ u ∧ percent ∉ v

/-- What an opening tag may be named. -/
structure IsOpeningName (name : Bytes) : Prop where
  ne_nil : name ≠ []
  notMem_tagStart : tagStart ∉ name
  notMem_tagEnd : tagEnd ∉ name
  head : name.head? ≠ some slash
  last : name.getLast? ≠ some slash

/-- What a tag may be named: it is opened by that name, and closed by it, blanks around it left out. -/
structure IsTagName (name : Bytes) : Prop extends IsOpeningName name where
  trimmed : Bytes.IsTrimmed name

/-- What a void tag may be named. -/
structure IsVoidName (name : Bytes) : Prop where
  notMem_tagStart : tagStart ∉ name
  notMem_tagEnd : tagEnd ∉ name
  head : name.head? ≠ some slash

/-- What a placeholder may be named. -/
structure IsPlaceholderName (name : Bytes) : Prop where
  ne_nil : name ≠ []
  notMem_percent : percent ∉ name

/-! ## Canonical levels -/

/-- Whether a node may stand before another: a text not before a text, before a placeholder only without a start of a tag, and before
a tag only without an end of a tag behind such a start. -/
def Node.MayPrecede : Node → Node → Prop
  | .text _, .text _ => False
  | .text s, .placeholder _ => tagStart ∉ s
  | .text s, .tag .. | .text s, .voidTag _ => NoLateEnd s
  | _, _ => True

/-- Every text of a level suits what follows it: another node, or, for the last one, the end of the level. -/
structure Spaced (last : Bytes → Prop) (ns : List Node) : Prop where
  chain : ns.IsChain Node.MayPrecede
  last : ∀ s, ns.getLast? = some (.text s) → last s

/-- A node is canonical: its text is not empty, its name is one of its kind, and the level of its children is canonical. -/
inductive Node.Canonical : Node → Prop
  | text {s : Bytes} : s ≠ [] → Canonical (.text s)
  | tag {name : Bytes} {children : List Node} :
      IsTagName name → (∀ n ∈ children, n.Canonical) → Spaced NoLateEnd children → Canonical (.tag name children)
  | voidTag {name : Bytes} : IsVoidName name → Canonical (.voidTag name)
  | placeholder {name : Bytes} : IsPlaceholderName name → Canonical (.placeholder name)

/-- A level of canonical nodes, each text of which suits what follows it. -/
structure CanonicalLevel (last : Bytes → Prop) (ns : List Node) : Prop where
  nodes : ∀ n ∈ ns, n.Canonical
  spaced : Spaced last ns

/-- A message is canonical. Only its very last text may hold a start of a tag and an end behind it, if a placeholder that does not end
keeps them from being a tag. -/
def Message.Canonical (m : Message) : Prop := CanonicalLevel (fun s => NoLateEnd s ∨ EndsInPlaceholder s) m

/-- A text without a start of a tag has none with an end behind it. -/
theorem NoLateEnd.of_notMem {s : Bytes} (h : tagStart ∉ s) : NoLateEnd s := by
  have hd : s.dropWhile (· != tagStart) = [] := by
    rw [List.dropWhile_eq_nil_iff]
    intro b hb
    simpa using ne_of_mem_of_not_mem hb h
  simp [NoLateEnd, hd]

/-- A text without a late end has none with more bytes behind it that are no ends of tags. -/
theorem NoLateEnd.append {s w : Bytes} (h : NoLateEnd s) (hw : tagEnd ∉ w) : NoLateEnd (s ++ w) := by
  unfold NoLateEnd
  rw [List.dropWhile_append]
  split
  · intro hm
    exact hw ((List.dropWhile_suffix _).subset hm)
  · intro hm
    rcases List.mem_append.mp hm with hm | hm
    · exact h hm
    · exact hw hm

theorem Node.mayPrecede_text_placeholder {s name : Bytes} :
    (Node.text s).MayPrecede (.placeholder name) ↔ tagStart ∉ s := Iff.rfl

theorem Node.mayPrecede_of_not_text {n t : Node} (h : n.isText = false) : n.MayPrecede t := by
  cases n with
  | text => cases h
  | _ => trivial

namespace CanonicalLevel

variable {P Q : Bytes → Prop} {ns : List Node}

theorem nil : CanonicalLevel P [] := ⟨by simp, ⟨.nil, by simp⟩⟩

theorem mono (h : CanonicalLevel P ns) (hPQ : ∀ s, P s → Q s) : CanonicalLevel Q ns :=
  ⟨h.nodes, h.spaced.chain, fun s hs => hPQ s (h.spaced.last s hs)⟩

/-- One more node at the end of a level, which the last text must suit. -/
theorem snoc {n : Node} (h : CanonicalLevel (fun s => (Node.text s).MayPrecede n) ns) (hn : n.Canonical)
    (hlast : ∀ s, n = .text s → P s) : CanonicalLevel P (ns ++ [n]) where
  nodes := by
    intro m hm
    rcases List.mem_append.mp hm with hm | hm
    · exact h.nodes m hm
    · exact List.mem_singleton.mp hm ▸ hn
  spaced := by
    refine ⟨h.spaced.chain.append (.singleton n) ?_, ?_⟩
    · intro a ha b hb
      cases hb
      cases a with
      | text s => exact h.spaced.last s ha
      | _ => exact Node.mayPrecede_of_not_text rfl
    · intro s hs
      rw [List.getLast?_concat, Option.some.injEq] at hs
      exact hlast s hs

end CanonicalLevel

/-! ## The invariant of the reader -/

/-- Where the reader is, given the text since the last node: that text has no start of a tag in it, unless the reader is inside
another tag, and what was read since the mark has no mark in it that would end it. -/
def Mode.Suits (run : Bytes) : Mode → Prop
  | .text => tagStart ∉ run
  | .placeholder name => tagStart ∉ run ∧ percent ∉ name
  | .tag raw => NoLateEnd run.reverse ∧ tagStart ∉ raw ∧ tagEnd ∉ raw

namespace Reader

/-- What is true of the reader whatever it has read. -/
structure Sound (r : Reader) : Prop where
  mode : r.mode.Suits r.run
  level : CanonicalLevel (fun _ => False) r.level.reverse
  enclosing : ∀ t ∈ r.enclosing, IsOpeningName t.name ∧ CanonicalLevel NoLateEnd t.before.reverse

/-- The reader is sound before it has read anything. -/
theorem sound_start : Sound {} := ⟨by simp [Mode.Suits], .nil, by simp⟩

variable {r r' : Reader} {P : Bytes → Prop}

/-- With the text since the last node, the level is canonical as far as that text suits what follows. -/
theorem canonicalLevel_settled (h : CanonicalLevel (fun _ => False) r.level.reverse) (hP : P r.run.reverse) :
    CanonicalLevel P r.settled.reverse := by
  by_cases hr : r.run = []
  · rw [settled_of_run_eq_nil hr]
    refine h.mono ?_
    intro s hs
    exact hs.elim
  · rw [settled_of_run_ne_nil hr, List.reverse_cons]
    have hbefore : CanonicalLevel (fun s => (Node.text s).MayPrecede (.text r.run.reverse)) r.level.reverse := h
    refine hbefore.snoc (.text (by simpa using hr)) ?_
    intro s hs
    cases hs
    exact hP

/-- A canonical node that is no text may be added where the text before it suits it. -/
theorem Sound.add (h : r.Sound) {n : Node} (hn : n.Canonical) (ht : n.isText = false)
    (hrun : (Node.text r.run.reverse).MayPrecede n) : (r.add n).Sound where
  mode := by simp [Reader.add, Mode.Suits]
  level := by
    have hs := (canonicalLevel_settled (P := fun s => (Node.text s).MayPrecede n) h.level hrun).snoc (P := fun _ => False) hn ?_
    · simpa [Reader.add] using hs
    · rintro s rfl
      cases ht
  enclosing := h.enclosing

/-- A tag may open where the text before it suits a tag. -/
theorem Sound.enter (h : r.Sound) {name : Bytes} (hn : IsOpeningName name) (hrun : NoLateEnd r.run.reverse) :
    (r.enter name).Sound where
  mode := by simp [Reader.enter, Mode.Suits]
  level := .nil
  enclosing := by
    intro t ht
    rcases List.mem_cons.mp ht with rfl | ht
    · exact ⟨hn, canonicalLevel_settled h.level hrun⟩
    · exact h.enclosing t ht

/-- A tag may close where the text before it suits a tag, by a name without blanks around it. -/
theorem Sound.leave? (h : r.Sound) {name : Bytes} (hn : Bytes.IsTrimmed name) (hrun : NoLateEnd r.run.reverse)
    (hl : r.leave? name = some r') : r'.Sound := by
  unfold Reader.leave? at hl
  split at hl
  · cases hl
  · rename_i t rest he
    split at hl
    · rename_i hname
      cases hl
      obtain ⟨ho, hb⟩ := h.enclosing t (he ▸ List.mem_cons_self)
      have hc := canonicalLevel_settled h.level hrun
      refine ⟨by simp [Mode.Suits], ?_, fun u hu => h.enclosing u (he ▸ List.mem_cons_of_mem _ hu)⟩
      rw [List.reverse_cons]
      refine CanonicalLevel.snoc hb (.tag ⟨hname ▸ ho, hn⟩ hc.nodes hc.spaced) ?_
      intro s hs
      cases hs
    · cases hl

/-- A tag may end where the text before it suits a tag. -/
theorem Sound.endTag? (h : r.Sound) {raw : Bytes} (hs : tagStart ∉ raw) (he : tagEnd ∉ raw) (hrun : NoLateEnd r.run.reverse)
    (hr : r.endTag? (.ofRaw raw) = some r') : r'.Sound := by
  unfold TagMark.ofRaw at hr
  split at hr
  · exact h.leave? (Bytes.isTrimmed_trim _) hrun hr
  · rename_i hhead
    split at hr
    · cases hr
      refine h.add (.voidTag ⟨?_, ?_, ?_⟩) rfl hrun
      · intro hm
        exact hs (List.dropLast_subset raw hm)
      · intro hm
        exact he (List.dropLast_subset raw hm)
      · rcases raw with _ | ⟨b, _ | ⟨c, w⟩⟩
        · simp
        · simp
        · simpa using hhead
    · rename_i hlast
      obtain ⟨hnil, hlast⟩ := not_or.mp hlast
      cases hr
      exact h.enter ⟨hnil, hs, he, hhead, hlast⟩ hrun

/-- The reader stays sound inside a level, as long as the text since the last node suits where it is. -/
theorem Sound.within (h : r.Sound) {m : Mode} {run : Bytes} (hm : m.Suits run) : Sound { r with mode := m, run := run } :=
  ⟨hm, h.level, h.enclosing⟩

/-- A byte keeps the reader sound. -/
theorem Sound.step (h : r.Sound) {b : UInt8} (hb : r.step b = some r') : r'.Sound := by
  have hm := h.mode
  unfold Reader.step at hb
  split at hb
  · rename_i htext
    rw [htext] at hm
    have hrun : tagStart ∉ r.run := hm
    split at hb
    · cases hb
      exact h.within ⟨.of_notMem (by simpa using hrun), by simp, by simp⟩
    · rename_i hbs
      split at hb
      · cases hb
        exact h.within ⟨hrun, by simp⟩
      · cases hb
        refine h.within (m := r.mode) ?_
        rw [htext]
        exact List.not_mem_cons_of_ne_of_not_mem (Ne.symm hbs) hrun
  · rename_i name hname
    rw [hname] at hm
    obtain ⟨hrun, hp⟩ := hm
    split at hb
    · rename_i hbp
      cases hb
      exact h.within ⟨hrun, List.not_mem_cons_of_ne_of_not_mem (Ne.symm hbp) hp⟩
    · split at hb
      · cases hb
        exact h.within (m := .text) (List.not_mem_cons_of_ne_of_not_mem (by decide) hrun)
      · rename_i hne
        cases hb
        refine h.add (.placeholder ⟨by simpa using hne, by simpa using hp⟩) rfl ?_
        rwa [Node.mayPrecede_text_placeholder, List.mem_reverse]
  · rename_i raw hraw
    rw [hraw] at hm
    obtain ⟨hrun, hs, he⟩ := hm
    split at hb
    · exact h.endTag? (by simpa using hs) (by simpa using he) hrun hb
    · rename_i hbe
      split at hb
      · cases hb
        refine h.within ⟨?_, by simp, by simp⟩
        simpa using hrun.append (w := tagStart :: raw.reverse) (by simpa using ⟨by decide, he⟩)
      · rename_i hbs
        cases hb
        exact h.within ⟨hrun, List.not_mem_cons_of_ne_of_not_mem (Ne.symm hbs) hs,
          List.not_mem_cons_of_ne_of_not_mem (Ne.symm hbe) he⟩

/-- A source keeps the reader sound. -/
theorem Sound.foldlM {s : Bytes} (h : r.Sound) (hs : s.foldlM Reader.step r = some r') : r'.Sound := by
  induction s generalizing r with
  | nil =>
    cases hs
    exact h
  | cons b s ih =>
    rw [List.foldlM_cons] at hs
    obtain ⟨r₁, h₁, hs⟩ := Option.bind_eq_some_iff.mp hs
    exact ih (h.step h₁) hs

/-- A source may end wherever the reader is: what was begun and has not ended is text that suits the end of a message. -/
theorem Sound.tailRun (h : r.Sound) : NoLateEnd r.tailRun.reverse ∨ EndsInPlaceholder r.tailRun.reverse := by
  have hm := h.mode
  unfold Reader.tailRun
  split
  · rename_i htext
    rw [htext] at hm
    have hrun : tagStart ∉ r.run := hm
    exact Or.inl (.of_notMem (by simpa using hrun))
  · rename_i raw hraw
    rw [hraw] at hm
    obtain ⟨hrun, -, he⟩ := hm
    left
    simpa using hrun.append (w := tagStart :: raw.reverse) (by simpa using ⟨by decide, he⟩)
  · rename_i name hname
    rw [hname] at hm
    obtain ⟨hrun, hp⟩ := hm
    exact Or.inr ⟨r.run.reverse, name.reverse, by simp, by simpa using hrun, by simpa using hp⟩

/-- A message that a sound reader comes to the end of is canonical. -/
theorem Sound.finish? (h : r.Sound) {m : Message} (hf : r.finish? = some m) : m.Canonical := by
  unfold Reader.finish? at hf
  split at hf
  · cases hf
    exact canonicalLevel_settled (r := { r with run := r.tailRun }) h.level h.tailRun
  · cases hf

end Reader

/-! ## What is read is canonical -/

/-- Every message that was read is canonical. -/
theorem Message.canonical_of_read? {source : Bytes} {m : Message} (h : Message.read? source = some m) : m.Canonical := by
  obtain ⟨r, hr, hf⟩ := Option.bind_eq_some_iff.mp h
  exact (Reader.sound_start.foldlM hr).finish? hf

/-- Every message that parsing gives is canonical: no level of it has an empty text or two texts in a row, its names are names of their
kinds, and each text suits what follows it. Only tags have children at all, by the type of nodes. -/
theorem Message.canonical_of_parse {source : Bytes} {m : Message} (h : Message.parse source = .ok m) : m.Canonical :=
  Message.canonical_of_read? (Message.parse_eq_ok_iff.mp h)

/-- A source with every kind of node, a stray start of a tag, and an end of a tag behind a percent sign at its end. -/
theorem Message.canonical_of_parse_sample :
    ∃ m : Message, m = [.text (utf8 "<"), .tag (utf8 "p") [.text (utf8 "5%"), .placeholder (utf8 "n"), .voidTag (utf8 "a/"), .voidTag []],
        .text (utf8 "%<b>")] ∧ Message.parse (utf8 "<<p>5%%%n%<a//><></ p >%<b>") = .ok m ∧ m.Canonical := by
  have h : Message.parse (utf8 "<<p>5%%%n%<a//><></ p >%<b>") = .ok _ := rfl
  exact ⟨_, rfl, h, Message.canonical_of_parse h⟩

/-- Two texts may well stand on one level, with another node between them. -/
theorem Message.exists_parse_two_texts :
    ∃ m : Message, Message.parse (utf8 "a%n%b") = .ok m ∧ ¬m.Pairwise fun n t => ¬(n.isText = true ∧ t.isText = true) :=
  ⟨[.text (utf8 "a"), .placeholder (utf8 "n"), .text (utf8 "b")], rfl, by decide⟩

end Phrasebook
