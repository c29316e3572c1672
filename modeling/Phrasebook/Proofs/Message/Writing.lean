import Phrasebook.Proofs.Message.Canonical
import Phrasebook.Proofs.Message.Tree
import Mathlib.Data.List.DropRight

/-!
# Writing a message

A message can be written down as a source (`Message.source`). Texts need care: a percent sign is doubled as long as the reader is in
text, and stands as it is behind the start of a tag, where the reader is inside a tag that will not end.

Canonical messages are read back from what was written: the tokens of the written source are those that spell the message
(`Message.tokens_source`), and the message is their tree (`treeOf_spelling`). So the canonical messages are exactly the messages that
can be read (`Message.canonical_iff_exists_source`).
-/

namespace Phrasebook

/-! ## Sources of messages -/

/-- A text with every percent sign doubled. -/
def doubled (s : Bytes) : Bytes := s.flatMap fun b => if b = percent then [percent, percent] else [b]

/-- The source of a text: percent signs are doubled up to its first start of a tag, and the rest stays as it is. -/
def textSource (s : Bytes) : Bytes := doubled (s.takeWhile (· != tagStart)) ++ s.dropWhile (· != tagStart)

/-- The source of a text at the end of a message. If it has an end of a tag behind a start, its last percent sign begins a placeholder
that does not end, and all behind it stays as it is. -/
def lastTextSource (s : Bytes) : Bytes :=
  if tagEnd ∈ s.dropWhile (· != tagStart) then
    doubled (s.rdropWhile (· != percent)).dropLast ++ percent :: s.rtakeWhile (· != percent)
  else textSource s

mutual

/-- The source of a node. -/
def Node.source : Node → Bytes
  | .text s => textSource s
  | .tag name children =>
    tagStart :: (name ++ tagEnd :: (Message.levelSource children ++ tagStart :: slash :: (name ++ [tagEnd])))
  | .voidTag name => if name = [] then [tagStart, tagEnd] else tagStart :: (name ++ [slash, tagEnd])
  | .placeholder name => percent :: (name ++ [percent])

/-- The source of the nodes of a level. -/
def Message.levelSource : List Node → Bytes
  | [] => []
  | n :: ns => n.source ++ Message.levelSource ns

end

/-- The source of a message. -/
def Message.source (m : Message) : Bytes :=
  match m.getLast? with
  | some (.text s) => Message.levelSource m.dropLast ++ lastTextSource s
  | _ => Message.levelSource m

mutual

/-- The tokens that spell a node. -/
def Node.spelling : Node → List Token
  | .text s => s.map .literal
  | .tag name children => .opening name :: (Message.spelling children ++ [.closing name])
  | .voidTag name => [.void name]
  | .placeholder name => [.placeholder name]

/-- The tokens that spell the nodes of a level. -/
def Message.spelling : List Node → List Token
  | [] => []
  | n :: ns => n.spelling ++ Message.spelling ns

end

/-! ## The tokens of a written text -/

section

variable {s rest : Bytes}

/-- Doubled percent signs are read back as single ones. -/
theorem tokens_doubled_append (h : tagStart ∉ s) : tokens (doubled s ++ rest) = s.map .literal ++ tokens rest := by
  induction s with
  | nil => rfl
  | cons b s ih =>
    have ih := ih (List.not_mem_of_not_mem_cons h)
    by_cases hp : b = percent
    · subst hp
      have hd : doubled (percent :: s) ++ rest = percent :: percent :: (doubled s ++ rest) := by simp [doubled]
      rw [hd, tokens_percents, ih]
      rfl
    · have hd : doubled (b :: s) ++ rest = b :: (doubled s ++ rest) := by simp [doubled, hp]
      rw [hd, tokens_literal (List.ne_of_not_mem_cons h).symm hp, ih]
      rfl

/-- What stands between a start of a tag and another one, or the end, is text if no end of a tag is there, whatever starts of tags
are. -/
theorem tokens_strays_append (u : Bytes) {w : Bytes} (hs : tagStart ∉ u) (hu : tagEnd ∉ u) (hw : tagEnd ∉ w)
    (hrest : ∀ b ∈ rest.head?, b = tagStart) :
    tokens (tagStart :: (u ++ (w ++ rest))) = (tagStart :: (u ++ w)).map .literal ++ tokens rest := by
  induction w generalizing u with
  | nil =>
    cases rest with
    | nil => simpa [tokens] using tokens_unendedTag hs hu
    | cons b rest =>
      obtain rfl : b = tagStart := hrest b rfl
      simpa using tokens_stray hs hu rest
  | cons b w ih =>
    have hbe : tagEnd ≠ b := List.ne_of_not_mem_cons hw
    have hwe := List.not_mem_of_not_mem_cons hw
    by_cases hbs : b = tagStart
    · subst hbs
      have ih := ih [] (by simp) (by simp) hwe
      rw [List.nil_append, List.nil_append] at ih
      rw [List.cons_append, tokens_stray hs hu, ih]
      simp
    · have ih := ih (u ++ [b]) (by simpa using ⟨hs, Ne.symm hbs⟩) (by simpa using ⟨hu, hbe⟩) hwe
      simpa using ih

/-- A text that may stand before something is read back from what was written of it. -/
theorem tokens_textSource_append (h : NoLateEnd s) (hrest : tagStart ∈ s → ∀ b ∈ rest.head?, b = tagStart) :
    tokens (textSource s ++ rest) = s.map .literal ++ tokens rest := by
  have hn : tagStart ∉ s.takeWhile (· != tagStart) := by
    intro hm
    simpa using List.mem_takeWhile_imp hm
  have hs : s.takeWhile (· != tagStart) ++ s.dropWhile (· != tagStart) = s := List.takeWhile_append_dropWhile
  rw [textSource, List.append_assoc, tokens_doubled_append hn]
  unfold NoLateEnd at h
  have hhead := List.head?_dropWhile_not (· != tagStart) s
  cases hd : s.dropWhile (· != tagStart) with
  | nil =>
    rw [hd, List.append_nil] at hs
    rw [hs, List.nil_append]
  | cons b w =>
    rw [hd] at h hhead hs
    obtain rfl : b = tagStart := by simpa using hhead
    have hr := tokens_strays_append [] (by simp) (by simp) (List.not_mem_of_not_mem_cons h)
      (hrest (hs ▸ List.mem_append_right _ List.mem_cons_self))
    rw [List.nil_append, List.nil_append] at hr
    rw [List.cons_append, hr, ← List.append_assoc, ← List.map_append, hs]

/-- A text at the end of a message is read back from what was written of it. -/
theorem tokens_lastTextSource (h : NoLateEnd s ∨ EndsInPlaceholder s) : tokens (lastTextSource s) = s.map .literal := by
  unfold lastTextSource
  split
  · rename_i hl
    obtain ⟨u, v, rfl, hu, hv⟩ := h.resolve_left (not_not_intro hl)
    have hall : ∀ b ∈ v.reverse, (b != percent) = true := forall_ne_percent_iff.mpr (by simpa using hv)
    have hd : (u ++ percent :: v).rdropWhile (· != percent) = u ++ [percent] := by
      simp [List.rdropWhile, List.dropWhile_append_of_pos hall]
    have ht : (u ++ percent :: v).rtakeWhile (· != percent) = v := by
      simp [List.rtakeWhile, List.takeWhile_append_of_pos hall]
    rw [hd, ht, List.dropLast_concat, tokens_doubled_append hu, tokens_unendedPlaceholder hv, List.map_append]
  · rename_i hl
    have hr : tokens (textSource s ++ []) = _ := tokens_textSource_append hl (by simp)
    simpa [tokens] using hr

end

/-! ## The tokens of a written node -/

section

variable {name : Bytes}

theorem Token.ofTag_opening (h : IsOpeningName name) : Token.ofTag name = .opening name := by
  obtain ⟨b, w, rfl⟩ := List.exists_cons_of_ne_nil h.ne_nil
  have hb : b ≠ slash := by simpa using h.head
  rw [Token.ofTag, if_neg hb, if_neg h.last]

theorem Token.ofTag_closing (h : Bytes.IsTrimmed name) : Token.ofTag (slash :: name) = .closing name := by
  rw [Token.ofTag, if_pos rfl, Bytes.trim_eq_self h]

theorem tokens_openingTag (h : IsOpeningName name) (rest : Bytes) :
    tokens (tagStart :: (name ++ tagEnd :: rest)) = .opening name :: tokens rest := by
  rw [tokens_tag h.notMem_tagStart h.notMem_tagEnd, Token.ofTag_opening h]

/-- A closing tag is one token. -/
theorem tokens_closingTag (h : IsTagName name) (rest : Bytes) :
    tokens (tagStart :: slash :: (name ++ tagEnd :: rest)) = .closing name :: tokens rest := by
  have hs : tagStart ∉ slash :: name := List.not_mem_cons_of_ne_of_not_mem (by decide) h.notMem_tagStart
  have he : tagEnd ∉ slash :: name := List.not_mem_cons_of_ne_of_not_mem (by decide) h.notMem_tagEnd
  rw [← List.cons_append, tokens_tag hs he, Token.ofTag_closing h.trimmed]

/-- The name of a void tag, if it is not empty, stands before a slash. -/
theorem Token.ofTag_void (h : IsVoidName name) (hn : name ≠ []) : Token.ofTag (name ++ [slash]) = .void name := by
  obtain ⟨b, w, rfl⟩ := List.exists_cons_of_ne_nil hn
  have hb : b ≠ slash := by simpa using h.head
  have hl : (b :: (w ++ [slash])).getLast? = some slash := by rw [← List.cons_append, List.getLast?_concat]
  rw [List.cons_append, Token.ofTag, if_neg hb, if_pos hl, ← List.cons_append, List.dropLast_concat]

end

/-- A node can be read back before some bytes: a text with a start of a tag in it only before another start, or at the end. -/
def Node.ReadableBefore (rest : Bytes) : Node → Prop
  | .text s => NoLateEnd s ∧ (tagStart ∈ s → ∀ b ∈ rest.head?, b = tagStart)
  | _ => True

/-- A node can be read back before what was written of a node that it may precede. -/
theorem Node.MayPrecede.readableBefore {n t : Node} (h : n.MayPrecede t) (rest : Bytes) : n.ReadableBefore (t.source ++ rest) := by
  cases n with
  | text s =>
    cases t with
    | text => exact h.elim
    | placeholder name => exact ⟨.of_notMem h, fun hm => absurd hm h⟩
    | tag name children => exact ⟨h, fun _ b hb => (Option.some.inj hb).symm⟩
    | voidTag name =>
      refine ⟨h, ?_⟩
      intro _ b hb
      rw [Node.source] at hb
      split at hb
      · exact (Option.some.inj hb).symm
      · exact (Option.some.inj hb).symm
  | _ => trivial

/-- The nodes of a level are read back from what was written of it, if each one is wherever it can be. -/
theorem Message.tokens_levelSource_append {ns : List Node} {rest : Bytes}
    (hn : ∀ n ∈ ns, ∀ rest, n.ReadableBefore rest → tokens (n.source ++ rest) = n.spelling ++ tokens rest)
    (hc : ns.IsChain Node.MayPrecede) (hlast : ∀ n, ns.getLast? = some n → n.ReadableBefore rest) :
    tokens (levelSource ns ++ rest) = spelling ns ++ tokens rest := by
  induction ns with
  | nil => rfl
  | cons n ns ih =>
    have hread : n.ReadableBefore (levelSource ns ++ rest) := by
      cases ns with
      | nil => exact hlast n rfl
      | cons t ns =>
        rw [levelSource, List.append_assoc]
        exact (List.isChain_cons_cons.mp hc).1.readableBefore _
    have hrest : ∀ m, ns.getLast? = some m → m.ReadableBefore rest := by
      intro m hm
      refine hlast m ?_
      rw [List.getLast?_cons, hm]
      rfl
    have ih := ih (List.forall_mem_cons.mp hn).2 hc.tail hrest
    rw [levelSource, List.append_assoc, hn n List.mem_cons_self _ hread, ih, spelling, List.append_assoc]

/-- A canonical node is read back from what was written of it. -/
theorem Node.Canonical.tokens_source_append {n : Node} (h : n.Canonical) :
    ∀ rest, n.ReadableBefore rest → tokens (n.source ++ rest) = n.spelling ++ tokens rest := by
  induction h with
  | text _ =>
    intro rest hr
    exact tokens_textSource_append hr.1 hr.2
  | @tag name children hname _ hsp ih =>
    intro rest _
    have hlevel : tokens (Message.levelSource children ++ tagStart :: slash :: (name ++ tagEnd :: rest)) =
        Message.spelling children ++ .closing name :: tokens rest := by
      rw [Message.tokens_levelSource_append ih hsp.chain, tokens_closingTag hname]
      intro n hn
      cases n with
      | text s => exact ⟨hsp.last s hn, fun _ b hb => (Option.some.inj hb).symm⟩
      | _ => trivial
    have hopen := tokens_openingTag hname.toIsOpeningName
      (Message.levelSource children ++ tagStart :: slash :: (name ++ tagEnd :: rest))
    rw [hlevel] at hopen
    simpa [Node.source, Node.spelling] using hopen
  | @voidTag name hname =>
    intro rest _
    rw [Node.source, Node.spelling]
    split
    · rename_i hn
      subst hn
      exact tokens_tag (w := []) (by simp) (by simp) rest
    · rename_i hn
      have hs : tagStart ∉ name ++ [slash] := by simpa using ⟨hname.notMem_tagStart, by decide⟩
      have he : tagEnd ∉ name ++ [slash] := by simpa using ⟨hname.notMem_tagEnd, by decide⟩
      have hv := tokens_tag hs he rest
      rw [Token.ofTag_void hname hn] at hv
      simpa using hv
  | @placeholder name hname =>
    intro rest _
    simpa [Node.source, Node.spelling] using tokens_placeholder hname.ne_nil hname.notMem_percent rest

/-! ## The tree of the tokens that spell a message -/

theorem Node.beginsInText_spelling {n : Node} (h : n.isText = false) (ts : List Token) : beginsInText (n.spelling ++ ts) = false := by
  cases n with
  | text => cases h
  | _ => rfl

/-- The nodes of a level are the tree of the tokens that spell them, if each one joins whatever tree it may stand before. -/
theorem Message.treeOf_spelling {ns : List Node}
    (hn : ∀ n ∈ ns, ∀ ts ms, TreeOf ts ms → (n.isText = true → beginsInText ts = false) → TreeOf (n.spelling ++ ts) (n :: ms))
    (hc : ns.IsChain Node.MayPrecede) : TreeOf (spelling ns) ns := by
  induction ns with
  | nil => exact .nil
  | cons n ns ih =>
    obtain ⟨hjoin, hn⟩ := List.forall_mem_cons.mp hn
    refine hjoin _ _ (ih hn hc.tail) ?_
    intro ht
    cases ns with
    | nil => rfl
    | cons t ns =>
      refine Node.beginsInText_spelling ?_ _
      have hp := (List.isChain_cons_cons.mp hc).1
      cases n with
      | text s =>
        cases t with
        | text => exact hp.elim
        | _ => rfl
      | _ => cases ht

/-- A canonical node joins the tree that it stands before, but for a text in front of text. -/
theorem Node.Canonical.treeOf_spelling {n : Node} (h : n.Canonical) :
    ∀ ts ms, TreeOf ts ms → (n.isText = true → beginsInText ts = false) → TreeOf (n.spelling ++ ts) (n :: ms) := by
  induction h with
  | text hs =>
    intro ts ms hm ht
    exact .text hs (ht rfl) hm
  | @tag name children _ _ hsp ih =>
    intro ts ms hm _
    have ht : TreeOf (.opening name :: (Message.spelling children ++ .closing name :: ts)) (.tag name children :: ms) :=
      .tag (Message.treeOf_spelling ih hsp.chain) hm
    simpa [Node.spelling] using ht
  | voidTag =>
    intro ts ms hm _
    exact .void hm
  | placeholder =>
    intro ts ms hm _
    exact .placeholder hm

/-! ## Reading back -/

/-- The tokens of what was written of a canonical message are those that spell it. -/
theorem Message.tokens_source {m : Message} (h : m.Canonical) : tokens m.source = spelling m := by
  have hread : ∀ n ∈ m, ∀ rest, n.ReadableBefore rest → tokens (n.source ++ rest) = n.spelling ++ tokens rest :=
    fun n hn => (h.nodes n hn).tokens_source_append
  unfold Message.source
  split
  · rename_i s hs
    -- The last text stands behind nodes that are no texts next to it, so nothing is asked of what was written of it.
    obtain ⟨ns, rfl⟩ := List.getLast?_eq_some_iff.mp hs
    have hc := List.isChain_append.mp h.spaced.chain
    have hlast : ∀ n, ns.getLast? = some n → n.ReadableBefore (lastTextSource s) := by
      intro n hn
      have hp := hc.2.2 n hn (.text s) rfl
      cases n with
      | text t => exact hp.elim
      | _ => trivial
    rw [List.dropLast_concat, tokens_levelSource_append (fun n hn => hread n (List.mem_append_left _ hn)) hc.1 hlast,
      tokens_lastTextSource (h.spaced.last s hs)]
    clear hs hread hc hlast h
    induction ns with
    | nil => simp [spelling, Node.spelling]
    | cons n ns ih => rw [List.cons_append, spelling, spelling, List.append_assoc, ih]
  · rename_i hs
    have hlast : ∀ n, m.getLast? = some n → n.ReadableBefore [] := by
      intro n hn
      cases n with
      | text s => exact absurd hn (hs s)
      | _ => trivial
    have hr := tokens_levelSource_append hread h.spaced.chain hlast
    simpa [tokens] using hr

/-- A canonical message is read back from what was written of it. -/
theorem Message.read?_source {m : Message} (h : m.Canonical) : Message.read? m.source = some m := by
  rw [Message.read?_eq_some_iff, Message.tokens_source h]
  exact Message.treeOf_spelling (fun n hn => (h.nodes n hn).treeOf_spelling) h.spaced.chain

/-- The canonical messages are exactly the messages that some source has. -/
theorem Message.canonical_iff_exists_source {m : Message} : m.Canonical ↔ ∃ source, Message.read? source = some m := by
  constructor
  · intro h
    exact ⟨m.source, Message.read?_source h⟩
  · rintro ⟨source, h⟩
    exact Message.canonical_of_read? h

/-- Parsing what was written of a canonical message gives the message again. -/
theorem Message.parse_source {m : Message} (h : m.Canonical) : Message.parse m.source = .ok m :=
  Message.parse_eq_ok_iff.mpr (Message.read?_source h)

/-- A text that ends in a percent sign before a placeholder, a stray start of a tag before a tag and before a closing tag, void tags
without a name and with a slash in it, placeholders next to each other, and a last text with an end of a tag in it. -/
theorem Message.parse_source_sample :
    ∃ m : Message, m = [.text (utf8 "5%"), .placeholder (utf8 "n"), .text (utf8 "a<%"),
        .tag (utf8 "p") [.voidTag [], .voidTag (utf8 "a/"), .placeholder (utf8 "q"), .placeholder (utf8 "r"), .text (utf8 "<")],
        .text (utf8 "9%%<b>")] ∧
      m.Canonical ∧ m.source = utf8 "5%%%n%a<%<p><><a//>%q%%r%<</p>9%%%<b>" ∧ Message.parse m.source = .ok m := by
  have h : Message.Canonical _ := Message.canonical_of_read? (m := [.text (utf8 "5%"), .placeholder (utf8 "n"), .text (utf8 "a<%"),
        .tag (utf8 "p") [.voidTag [], .voidTag (utf8 "a/"), .placeholder (utf8 "q"), .placeholder (utf8 "r"), .text (utf8 "<")],
        .text (utf8 "9%%<b>")]) (show Message.read? (utf8 "5%%%n%a<%<p><><a//>%q%%r%<</p>9%%%<b>") = _ from rfl)
  exact ⟨_, rfl, h, by decide, Message.parse_source h⟩

end Phrasebook
