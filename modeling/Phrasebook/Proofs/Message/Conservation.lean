import Phrasebook.Proofs.Message.Writing

/-!
# Reading loses nothing

What is read of a source can be written down again. The blanks around the names of closing tags are left out on the way, and these alone:
`tidied` is a source without them. As long as the source does not end inside a placeholder, writing down what was read of it gives it
back, tidied (`Message.levelSource_of_parse`).

The invariant is that the reader, wherever it is in the source, holds in its open tags, its level and its text all that it has read so
far (`Reader.written`), and that every token adds to this what it is in the source.
-/

namespace Phrasebook

/-! ## Tidied sources -/

/-- What stands between the marks of a tag, without the blanks around the name if it is a closing tag. -/
def tidiedTag : Bytes → Bytes
  | [] => []
  | b :: w => if b = slash then slash :: Bytes.trim w else b :: w

/-- A source without the blanks around the names of its closing tags, and in everything else as it is. -/
def tidied : Bytes → Bytes
  | [] => []
  | b :: s =>
    if b = tagStart then
      let w := s.takeWhile isTagByte
      let rest := s.dropWhile isTagByte
      if rest.head? = some tagEnd then tagStart :: (tidiedTag w ++ tagEnd :: tidied rest.tail) else tagStart :: (w ++ tidied rest)
    else if b = percent then
      let w := s.takeWhile (· != percent)
      let rest := s.dropWhile (· != percent)
      if rest = [] then percent :: w else percent :: (w ++ percent :: tidied rest.tail)
    else b :: tidied s
termination_by s => s.length
decreasing_by
  · have := List.length_dropWhile_le isTagByte s
    simp only [List.length_tail, List.length_cons]
    omega
  · exact Nat.lt_succ_of_le (List.length_dropWhile_le isTagByte s)
  · have := List.length_dropWhile_le (· != percent) s
    simp only [List.length_tail, List.length_cons]
    omega
  · exact Nat.lt_succ_self _

section

variable {w : Bytes}

theorem tidied_literal {b : UInt8} (hs : b ≠ tagStart) (hp : b ≠ percent) (rest : Bytes) :
    tidied (b :: rest) = b :: tidied rest := by
  rw [tidied, if_neg hs, if_neg hp]

/-- A tag that ends is tidied between its marks. -/
theorem tidied_tag (hs : tagStart ∉ w) (he : tagEnd ∉ w) (rest : Bytes) :
    tidied (tagStart :: (w ++ tagEnd :: rest)) = tagStart :: (tidiedTag w ++ tagEnd :: tidied rest) := by
  have hw := forall_isTagByte_iff.mpr ⟨hs, he⟩
  have hd : isTagByte tagEnd = false := by decide
  rw [tidied, if_pos rfl]
  simp only [List.takeWhile_append_of_pos hw, List.dropWhile_append_of_pos hw, List.takeWhile_cons, List.dropWhile_cons, hd]
  simp

/-- The start of a tag with another start behind it stays, up to that other start. -/
theorem tidied_stray (hs : tagStart ∉ w) (he : tagEnd ∉ w) (rest : Bytes) :
    tidied (tagStart :: (w ++ tagStart :: rest)) = tagStart :: (w ++ tidied (tagStart :: rest)) := by
  have hw := forall_isTagByte_iff.mpr ⟨hs, he⟩
  have hd : isTagByte tagStart = false := by decide
  have hne : tagStart ≠ tagEnd := by decide
  rw [tidied, if_pos rfl]
  simp only [List.takeWhile_append_of_pos hw, List.dropWhile_append_of_pos hw, List.takeWhile_cons, List.dropWhile_cons, hd]
  simp [hne]

/-- The start of a tag without another mark of tags behind it stays, up to the end. -/
theorem tidied_unendedTag (hs : tagStart ∉ w) (he : tagEnd ∉ w) : tidied (tagStart :: w) = tagStart :: w := by
  have hw := forall_isTagByte_iff.mpr ⟨hs, he⟩
  rw [tidied, if_pos rfl]
  simp only [List.takeWhile_eq_self_iff.mpr hw, List.dropWhile_eq_nil_iff.mpr hw]
  simp [tidied]

/-- A placeholder that ends, and a percent sign that was doubled, stay. -/
theorem tidied_placeholder (hp : percent ∉ w) (rest : Bytes) :
    tidied (percent :: (w ++ percent :: rest)) = percent :: (w ++ percent :: tidied rest) := by
  have hw := forall_ne_percent_iff.mpr hp
  have hne : percent ≠ tagStart := by decide
  rw [tidied, if_neg hne, if_pos rfl]
  simp only [List.takeWhile_append_of_pos hw, List.dropWhile_append_of_pos hw]
  simp

end

/-! ## Writing in pieces -/

/-- Nodes behind others are written behind them. -/
theorem Message.levelSource_append (ns ms : List Node) :
    Message.levelSource (ns ++ ms) = Message.levelSource ns ++ Message.levelSource ms := by
  induction ns with
  | nil => rfl
  | cons n ns ih => rw [List.cons_append, Message.levelSource, ih, Message.levelSource, List.append_assoc]

theorem Message.levelSource_concat (ns : List Node) (n : Node) :
    Message.levelSource (ns ++ [n]) = Message.levelSource ns ++ n.source := by
  rw [Message.levelSource_append, Message.levelSource, Message.levelSource, List.append_nil]

section

variable {s : Bytes}

theorem textSource_of_notMem (h : tagStart ∉ s) : textSource s = doubled s := by
  have hall : ∀ b ∈ s, (b != tagStart) = true := fun b hb => bne_iff_ne.mpr (ne_of_mem_of_not_mem hb h)
  rw [textSource, List.takeWhile_eq_self_iff.mpr hall, List.dropWhile_eq_nil_iff.mpr hall, List.append_nil]

/-- From a start of a tag on, text is written as it is. -/
theorem textSource_append_tagStart (s w : Bytes) : textSource (s ++ tagStart :: w) = textSource s ++ tagStart :: w := by
  by_cases h : tagStart ∈ s
  · have hd : s.dropWhile (· != tagStart) ≠ [] := by
      rw [ne_eq, List.dropWhile_eq_nil_iff]
      intro hall
      simpa using hall tagStart h
    have ht : ¬(s.takeWhile (· != tagStart)).length = s.length := by
      intro hl
      have := congrArg List.length (@List.takeWhile_append_dropWhile _ (· != tagStart) s)
      rw [List.length_append] at this
      exact hd (List.eq_nil_of_length_eq_zero (by omega))
    simp [textSource, List.takeWhile_append, List.dropWhile_append, hd, ht]
  · have hall : ∀ b ∈ s, (b != tagStart) = true := fun b hb => bne_iff_ne.mpr (ne_of_mem_of_not_mem hb h)
    rw [textSource_of_notMem h, textSource, List.takeWhile_append_of_pos hall, List.dropWhile_append_of_pos hall]
    simp

theorem textSource_concat (h : tagStart ∉ s) {b : UInt8} (hb : b ≠ tagStart) :
    textSource (s ++ [b]) = textSource s ++ if b = percent then [percent, percent] else [b] := by
  have hsb : tagStart ∉ s ++ [b] := by simpa using ⟨h, hb.symm⟩
  rw [textSource_of_notMem h, textSource_of_notMem hsb, doubled, doubled, List.flatMap_append, List.flatMap_singleton]

end

/-! ## What the reader holds -/

/-- A tag that is open, in writing: the nodes before it on its level and its opening tag. -/
def OpenTag.source (t : OpenTag) : Bytes := Message.levelSource t.before.reverse ++ tagStart :: (t.name ++ [tagEnd])

/-- A token in writing, where it is no text. -/
def Token.source : Token → Bytes
  | .literal b => [b]
  | .opening name => tagStart :: (name ++ [tagEnd])
  | .closing name => tagStart :: slash :: (name ++ [tagEnd])
  | .void name => (Node.voidTag name).source
  | .placeholder name => (Node.placeholder name).source

/-- Whether a token is text. -/
def Token.isLiteral : Token → Bool
  | .literal _ => true
  | _ => false

/-- The token of a tag is no text. -/
theorem Token.isLiteral_ofTag (w : Bytes) : (Token.ofTag w).isLiteral = false := by
  unfold Token.ofTag
  split
  · rfl
  · split
    · rfl
    · split
      · rfl
      · rfl

/-- The token of a tag is written as the tag stands in the source, tidied. -/
theorem Token.source_ofTag (w : Bytes) : (Token.ofTag w).source = tagStart :: (tidiedTag w ++ [tagEnd]) := by
  cases w with
  | nil => rfl
  | cons b w =>
    rw [Token.ofTag, tidiedTag]
    by_cases hb : b = slash
    · rw [if_pos hb, if_pos hb]
      rfl
    · rw [if_neg hb, if_neg hb]
      by_cases hl : (b :: w).getLast? = some slash
      · rw [if_pos hl]
        obtain ⟨name, hname⟩ := List.getLast?_eq_some_iff.mp hl
        have hne : name ≠ [] := by
          rintro rfl
          exact hb (List.cons.inj hname).1
        rw [hname, List.dropLast_concat, Token.source, Node.source, if_neg hne]
        simp
      · rw [if_neg hl]
        rfl

namespace Reader

variable {r r' : Reader}

/-- What the reader has read, in writing, when it is in text. -/
def written (r : Reader) : Bytes := r.enclosing.reverse.flatMap OpenTag.source ++ Message.levelSource r.settled.reverse

/-- The level is written with the text since its last node. -/
theorem levelSource_settled (r : Reader) :
    Message.levelSource r.settled.reverse = Message.levelSource r.level.reverse ++ textSource r.run.reverse := by
  by_cases h : r.run = []
  · rw [settled_of_run_eq_nil h, h]
    simp [textSource, doubled]
  · rw [settled_of_run_ne_nil h, List.reverse_cons, Message.levelSource_concat, Node.source]

theorem written_of_run {run w : Bytes} (h : textSource run.reverse = textSource r.run.reverse ++ w) :
    written { r with run := run } = r.written ++ w := by
  rw [written, written, levelSource_settled, levelSource_settled, h, List.append_assoc, List.append_assoc]

/-- A byte of text is written behind all else, doubled if it is a percent sign. -/
theorem written_literal (hrun : tagStart ∉ r.run) {b : UInt8} (hb : b ≠ tagStart) :
    written { r with run := b :: r.run } = r.written ++ if b = percent then [percent, percent] else [b] := by
  refine written_of_run ?_
  rw [List.reverse_cons]
  exact textSource_concat (by simpa using hrun) hb

/-- The start of a tag that is text is written behind all else, with what follows it in text. -/
theorem written_stray (r : Reader) (w : Bytes) :
    written { r with run := w.reverse ++ tagStart :: r.run } = r.written ++ tagStart :: w := by
  refine written_of_run ?_
  rw [List.reverse_append, List.reverse_cons, List.reverse_reverse, List.append_assoc, List.singleton_append,
    textSource_append_tagStart]

theorem written_add (r : Reader) (n : Node) : (r.add n).written = r.written ++ n.source := by
  rw [written, settled_add, List.reverse_cons, Message.levelSource_concat, ← List.append_assoc]
  rfl

theorem written_enter (r : Reader) (name : Bytes) : (r.enter name).written = r.written ++ tagStart :: (name ++ [tagEnd]) := by
  have hs : (r.enter name).settled = [] := rfl
  rw [written, written, hs]
  simp [enter, OpenTag.source, Message.levelSource]

/-- A tag that closes is written behind all else. -/
theorem written_leave? {name : Bytes} (h : r.leave? name = some r') :
    r'.written = r.written ++ tagStart :: slash :: (name ++ [tagEnd]) := by
  unfold leave? at h
  split at h
  · cases h
  · rename_i t rest he
    split at h
    · rename_i hname
      cases h
      have hs : settled ⟨.text, [], .tag name r.settled.reverse :: t.before, rest⟩ = .tag name r.settled.reverse :: t.before := rfl
      rw [written, written, hs, he, List.reverse_cons, Message.levelSource_concat]
      simp [OpenTag.source, Node.source, hname]
    · cases h

/-- A token that is no text is written behind all else, and there is no text behind it yet. -/
theorem of_take? {t : Token} (ht : t.isLiteral = false) (h : r.take? t = some r') :
    r'.written = r.written ++ t.source ∧ r'.run = [] := by
  cases t with
  | literal b => cases ht
  | opening name =>
    cases h
    exact ⟨r.written_enter name, rfl⟩
  | closing name =>
    refine ⟨written_leave? h, ?_⟩
    simp only [take?, leave?] at h
    split at h
    · cases h
    · split at h
      · cases h
        rfl
      · cases h
  | void name =>
    cases h
    exact ⟨r.written_add (.voidTag name), rfl⟩
  | placeholder name =>
    cases h
    exact ⟨r.written_add (.placeholder name), rfl⟩

/-- When a source ends, what was read of it and the text that it ends with are the message in writing. -/
theorem levelSource_finish? {m : Message} (h : r.finish? = some m) : Message.levelSource m = written { r with run := r.tailRun } := by
  unfold finish? at h
  split at h
  · rename_i he
    cases h
    rw [written, he]
    rfl
  · cases h

/-- Reading on from text to the end of a source adds to the message what the source is, tidied. The text since the last node may have
a start of a tag in it only where another one comes next. -/
theorem levelSource_of_foldlM (s : Bytes) (r : Reader) (hr : r.mode = .text)
    (hrun : tagStart ∈ r.run → ∀ b ∈ s.head?, b = tagStart) {r' : Reader} (h : s.foldlM step r = some r')
    (hp : ∀ name, r'.mode ≠ .placeholder name) {m : Message} (hm : r'.finish? = some m) :
    Message.levelSource m = r.written ++ tidied s := by
  induction s using tokens_induction generalizing r with
  | nil =>
    cases h
    have hs : r'.tailRun = r'.run := by simp only [tailRun, hr]
    rw [levelSource_finish? hm, hs, tidied, List.append_nil]
  | literal b rest hs hpc ih =>
    have hnot : tagStart ∉ r.run := fun hmem => hs (hrun hmem b rfl)
    rw [foldlM_step_literal hr hs hpc] at h
    have hnext := ih { r with run := b :: r.run } hr (fun hmem => by simp [hs.symm, hnot] at hmem) h
    rw [hnext, written_literal hnot hs, if_neg hpc, tidied_literal hs hpc, List.append_assoc, List.singleton_append]
  | tag w rest hs he ih =>
    rw [foldlM_step_tag_append hr hs he] at h
    obtain ⟨r₁, h₁, h⟩ := Option.bind_eq_some_iff.mp h
    obtain ⟨hw, hrun₁⟩ := of_take? (Token.isLiteral_ofTag w) h₁
    rw [ih r₁ (mode_of_take? h₁ hr) (by simp [hrun₁]) h, hw, Token.source_ofTag, tidied_tag hs he]
    simp
  | stray w rest hs he ih =>
    rw [foldlM_step_stray hr hs he] at h
    have hnext := ih { r with run := w.reverse ++ tagStart :: r.run } hr (fun _ b hb => (Option.some.inj hb).symm) h
    rw [hnext, written_stray, tidied_stray hs he]
    simp
  | unendedTag w hs he =>
    rw [foldlM_step_tagStart hr hs he] at h
    cases h
    rw [levelSource_finish? hm, tidied_unendedTag hs he]
    exact written_stray r w
  | percents rest ih =>
    have hnot : tagStart ∉ r.run := fun hmem => absurd (hrun hmem percent rfl) (by decide)
    rw [foldlM_step_percents hr] at h
    have hnext := ih { r with run := percent :: r.run } hr (fun hmem => by simp [hnot] at hmem; cases hmem) h
    have htidied := tidied_placeholder (w := []) (by simp) rest
    rw [List.nil_append, List.nil_append] at htidied
    rw [hnext, written_literal hnot (by decide), if_pos rfl, htidied]
    simp
  | placeholder w rest hn hpc ih =>
    rw [foldlM_step_placeholder_append hr hn hpc] at h
    obtain ⟨r₁, h₁, h⟩ := Option.bind_eq_some_iff.mp h
    obtain ⟨hw, hrun₁⟩ := of_take? rfl h₁
    rw [ih r₁ (mode_of_take? h₁ hr) (by simp [hrun₁]) h, hw, Token.source, Node.source, tidied_placeholder hpc]
    simp
  | unendedPlaceholder w hpc =>
    rw [foldlM_step_percent hr hpc] at h
    cases h
    exact absurd rfl (hp w.reverse)

end Reader

/-- Nothing is lost, added or moved: the message of a source that does not end inside a placeholder is written as the source is, but for
the blanks around the names of closing tags. -/
theorem Message.levelSource_of_parse {source : Bytes} {m : Message} {r : Reader} (h : Message.parse source = .ok m)
    (hr : Reader.scan? source = some r) (hp : ∀ name, r.mode ≠ .placeholder name) : Message.levelSource m = tidied source := by
  have hm : r.finish? = some m := by
    rw [Message.parse_eq_ok_iff, Message.read?, hr, Option.bind_some] at h
    exact h
  exact Reader.levelSource_of_foldlM source {} rfl (by simp) hr hp hm

/-- A source with a doubled percent sign, a stray start of a tag before a tag and one before a closing tag, blanks around the name in
that closing tag, and a tag that does not end. -/
theorem Message.levelSource_of_parse_sample :
    ∃ (m : Message) (r : Reader), Message.parse (utf8 "5%%%n%a<%<p><><a//>%q% <</\tp ><x") = .ok m ∧
      Reader.scan? (utf8 "5%%%n%a<%<p><><a//>%q% <</\tp ><x") = some r ∧ r.mode = .tag (utf8 "x") ∧
      Message.levelSource m = tidied (utf8 "5%%%n%a<%<p><><a//>%q% <</\tp ><x") ∧
      Message.levelSource m = utf8 "5%%%n%a<%<p><><a//>%q% <</p><x" := by
  have h : Message.parse (utf8 "5%%%n%a<%<p><><a//>%q% <</\tp ><x") =
      .ok [.text (utf8 "5%"), .placeholder (utf8 "n"), .text (utf8 "a<%"),
        .tag (utf8 "p") [.voidTag [], .voidTag (utf8 "a/"), .placeholder (utf8 "q"), .text (utf8 " <")], .text (utf8 "<x")] := rfl
  obtain ⟨r, hr, hmode⟩ : ∃ r, Reader.scan? (utf8 "5%%%n%a<%<p><><a//>%q% <</\tp ><x") = some r ∧ r.mode = .tag (utf8 "x") :=
    ⟨_, rfl, rfl⟩
  exact ⟨_, r, h, hr, hmode, Message.levelSource_of_parse h hr (by simp [hmode]), by decide⟩

end Phrasebook
