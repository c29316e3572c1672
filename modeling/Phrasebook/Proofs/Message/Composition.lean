import Phrasebook.Proofs.Message.Writing

/-!
# Sources in pieces

A source can be read piece by piece, if it is cut where the reader is in text. Then the tokens of the whole are those of the pieces
(`tokens_append`), and its message is that of the first piece and that of the second in a row, a text on either side of the seam being one
text (`Message.join`, `Message.read?_append`). A source that does not end inside a placeholder can also be put between an opening and a
closing tag, and what was its message are the children of the tag (`Message.read?_tagged`): the start of the closing tag makes text of a
tag that was begun before it.
-/

namespace Phrasebook

/-- Two messages in a row. A text at the end of the first and one at the start of the second are one text. -/
def Message.join : Message → Message → Message
  | [], m => m
  | [.text s], .text t :: m => .text (s ++ t) :: m
  | n :: ns, m => n :: Message.join ns m

/-- A source may be cut before more bytes when it ends in this mode: in text before any bytes, inside a tag before the start of a tag. -/
def Mode.CutBefore (rest : Bytes) : Mode → Prop
  | .text => True
  | .tag _ => rest.head? = some tagStart
  | .placeholder _ => False

/-! ## The tokens of pieces -/

/-- The tokens of a source that is cut in two are those of its pieces. -/
theorem tokens_append {s rest : Bytes} {r r' : Reader} (hr : r.mode = .text) (h : s.foldlM Reader.step r = some r')
    (hcut : r'.mode.CutBefore rest) : tokens (s ++ rest) = tokens s ++ tokens rest := by
  induction s using tokens_induction generalizing r with
  | nil => simp [tokens]
  | literal b s hs hp ih =>
    rw [Reader.foldlM_step_literal hr hs hp] at h
    obtain ⟨r₁, h₁, h⟩ := Option.bind_eq_some_iff.mp h
    rw [List.cons_append, tokens_literal hs hp, tokens_literal hs hp, ih (Reader.mode_of_take? h₁ hr) h, List.cons_append]
  | tag w s hs he ih =>
    rw [Reader.foldlM_step_tag_append hr hs he] at h
    obtain ⟨r₁, h₁, h⟩ := Option.bind_eq_some_iff.mp h
    rw [List.cons_append, List.append_assoc, List.cons_append, tokens_tag hs he, tokens_tag hs he,
      ih (Reader.mode_of_take? h₁ hr) h, List.cons_append]
  | stray w s hs he ih =>
    rw [Reader.foldlM_step_stray hr hs he] at h
    have ih := ih (r := { r with run := w.reverse ++ tagStart :: r.run }) hr h
    rw [List.cons_append] at ih
    rw [List.cons_append, List.append_assoc, List.cons_append, tokens_stray hs he, tokens_stray hs he, ih, List.append_assoc]
  | unendedTag w hs he =>
    rw [Reader.foldlM_step_tagStart hr hs he] at h
    cases h
    -- The tag that was begun is text in the piece, at its end, and in the whole, before the start of another.
    obtain ⟨rest, rfl⟩ := List.head?_eq_some_iff.mp hcut
    rw [List.cons_append, tokens_stray hs he, tokens_unendedTag hs he]
  | percents s ih =>
    rw [Reader.foldlM_step_percents hr] at h
    obtain ⟨r₁, h₁, h⟩ := Option.bind_eq_some_iff.mp h
    rw [List.cons_append, List.cons_append, tokens_percents, tokens_percents, ih (Reader.mode_of_take? h₁ hr) h, List.cons_append]
  | placeholder w s hn hp ih =>
    rw [Reader.foldlM_step_placeholder_append hr hn hp] at h
    obtain ⟨r₁, h₁, h⟩ := Option.bind_eq_some_iff.mp h
    rw [List.cons_append, List.append_assoc, List.cons_append, tokens_placeholder hn hp, tokens_placeholder hn hp,
      ih (Reader.mode_of_take? h₁ hr) h, List.cons_append]
  | unendedPlaceholder w hp =>
    rw [Reader.foldlM_step_percent hr hp] at h
    cases h
    exact hcut.elim

/-! ## The tree of pieces -/

theorem TreeOf.eq_nil {ts : List Token} (h : TreeOf ts []) : ts = [] := by
  cases h
  rfl

theorem TreeOf.ne_nil {ts : List Token} {n : Node} {ns : List Node} (h : TreeOf ts (n :: ns)) : ts ≠ [] := by
  cases h with
  | text hw _ _ => simp [hw]
  | _ => simp

theorem beginsInText_append {ts : List Token} (h : ts ≠ []) (us : List Token) : beginsInText (ts ++ us) = beginsInText ts := by
  obtain ⟨t, ts, rfl⟩ := List.exists_cons_of_ne_nil h
  cases t <;> rfl

/-- Tokens in a row have as their tree the trees of both in a row. -/
theorem TreeOf.append {ts us : List Token} {m m' : Message} (h : TreeOf ts m) (h' : TreeOf us m') : TreeOf (ts ++ us) (m.join m') := by
  induction h with
  | nil => exact h'
  | @text w ts ns hw hts h ih =>
    rw [List.append_assoc]
    -- Only a text that ends the first message can meet one that begins the second.
    cases ns with
    | nil =>
      obtain rfl := h.eq_nil
      cases h' with
      | nil => exact .text hw rfl .nil
      | @text v us ns hv hus h' =>
        rw [List.nil_append, ← List.append_assoc, ← List.map_append]
        exact .text (by simp [hw]) hus h'
      | placeholder h' => exact .text hw rfl (.placeholder h')
      | void h' => exact .text hw rfl (.void h')
      | tag hi hr => exact .text hw rfl (.tag hi hr)
    | cons n ns =>
      have hmore : beginsInText (ts ++ us) = false := by rw [beginsInText_append h.ne_nil, hts]
      exact .text hw hmore ih
  | placeholder _ ih => exact .placeholder ih
  | void _ ih => exact .void ih
  | tag hi _ _ ihr =>
    rw [List.cons_append, List.append_assoc, List.cons_append]
    exact .tag hi ihr

/-- Behind tokens that have a tree, what makes a well-nested sequence with them is well nested by itself. -/
theorem TreeOf.wellNested_of_append {ts us : List Token} {m : Message} (h : TreeOf ts m) (hboth : WellNested (ts ++ us)) :
    WellNested us := by
  obtain ⟨m', hm'⟩ := hboth.exists_treeOf
  obtain ⟨r, hr, -, he, -⟩ := Reader.foldlM_take?_treeOf h {} rfl (Or.inl rfl)
  have hread := hm'.finish?
  rw [List.foldlM_append, hr] at hread
  have hu := unwinds_of_finish? hread
  rwa [he] at hu

/-! ## Reading pieces -/

/-- A source that is cut in text is read piece by piece, and refused just where the second piece is. -/
theorem Message.read?_append {s t : Bytes} {m : Message} {r : Reader} (h : Message.read? s = some m)
    (hr : Reader.scan? s = some r) (hmode : r.mode = .text) :
    Message.read? (s ++ t) = (Message.read? t).map m.join := by
  have htree := Message.read?_eq_some_iff.mp h
  have htokens : tokens (s ++ t) = tokens s ++ tokens t := tokens_append rfl hr (by rw [hmode]; trivial)
  cases ht : Message.read? t with
  | some m' =>
    rw [Option.map_some, Message.read?_eq_some_iff, htokens]
    exact htree.append (Message.read?_eq_some_iff.mp ht)
  | none =>
    rw [Option.map_none, ← Option.not_isSome_iff_eq_none, Message.isSome_read?_iff, htokens]
    intro hboth
    have hsome := Message.isSome_read?_iff.mpr (htree.wellNested_of_append hboth)
    rw [ht] at hsome
    cases hsome

/-- A source that does not end inside a placeholder, put between the marks of a tag, is read as the children of the tag. -/
theorem Message.read?_tagged {s name : Bytes} {m : Message} {r : Reader} (h : Message.read? s = some m)
    (hr : Reader.scan? s = some r) (hmode : ∀ p, r.mode ≠ .placeholder p) (hname : IsTagName name) :
    Message.read? (tagStart :: (name ++ tagEnd :: (s ++ tagStart :: slash :: (name ++ [tagEnd])))) = some [.tag name m] := by
  have hcut : r.mode.CutBefore (tagStart :: slash :: (name ++ [tagEnd])) := by
    cases hm : r.mode with
    | text => trivial
    | tag raw => rfl
    | placeholder p => exact absurd hm (hmode p)
  have hclosing : tokens (tagStart :: slash :: (name ++ [tagEnd])) = [.closing name] := by
    rw [tokens_closingTag hname, tokens]
  rw [Message.read?_eq_some_iff, tokens_openingTag hname.toIsOpeningName, tokens_append rfl hr hcut, hclosing]
  exact .tag (Message.read?_eq_some_iff.mp h) .nil

/-- Reading is compositional. Behind a source that was read and ends in text, more is read just where it is read by itself, and what
comes out are the two messages in a row. A source that was read and does not end inside a placeholder is read between the marks of a tag
as the children of the tag. -/
theorem Message.parse_composed :
    (∀ (s t : Bytes) (m : Message) (r : Reader), Message.parse s = .ok m → Reader.scan? s = some r → r.mode = .text →
        ((∃ m', Message.parse (s ++ t) = .ok m') ↔ ∃ m', Message.parse t = .ok m') ∧
          ∀ m', Message.parse t = .ok m' → Message.parse (s ++ t) = .ok (m.join m')) ∧
      ∀ (s name : Bytes) (m : Message) (r : Reader), Message.parse s = .ok m → Reader.scan? s = some r →
        (∀ p, r.mode ≠ .placeholder p) → IsTagName name →
        Message.parse (tagStart :: (name ++ tagEnd :: (s ++ tagStart :: slash :: (name ++ [tagEnd])))) = .ok [.tag name m] := by
  refine ⟨?_, ?_⟩
  · intro s t m r h hr hmode
    have happend := Message.read?_append (t := t) (Message.parse_eq_ok_iff.mp h) hr hmode
    simp only [Message.parse_eq_ok_iff, happend, Option.map_eq_some_iff]
    refine ⟨⟨?_, ?_⟩, ?_⟩
    · rintro ⟨_, m', hm', _⟩
      exact ⟨m', hm'⟩
    · rintro ⟨m', hm'⟩
      exact ⟨_, m', hm', rfl⟩
    · intro m' hm'
      exact ⟨m', hm', rfl⟩
  · intro s name m r h hr hmode hname
    exact Message.parse_eq_ok_iff.mpr (Message.read?_tagged (Message.parse_eq_ok_iff.mp h) hr hmode hname)

/-- Two pieces with text on both sides of the seam, and a piece that ends inside a tag between the marks of another. -/
theorem Message.parse_composed_sample :
    Message.parse (utf8 "5%%%n% <<i>a</i> x" ++ utf8 "y<b/>%z") =
        .ok [.text (utf8 "5%"), .placeholder (utf8 "n"), .text (utf8 " <"), .tag (utf8 "i") [.text (utf8 "a")], .text (utf8 " xy"),
          .voidTag (utf8 "b"), .text (utf8 "%z")] ∧
      (∃ r, Reader.scan? (utf8 "a<b/> <c") = some r ∧ r.mode = .tag (utf8 "c")) ∧
      Message.parse (utf8 "<p>a<b/> <c</p>") = .ok [.tag (utf8 "p") [.text (utf8 "a"), .voidTag (utf8 "b"), .text (utf8 " <c")]] := by
  have hfirst : Message.parse (utf8 "5%%%n% <<i>a</i> x") =
      .ok [.text (utf8 "5%"), .placeholder (utf8 "n"), .text (utf8 " <"), .tag (utf8 "i") [.text (utf8 "a")], .text (utf8 " x")] := rfl
  have hsecond : Message.parse (utf8 "y<b/>%z") = .ok [.text (utf8 "y"), .voidTag (utf8 "b"), .text (utf8 "%z")] := rfl
  have hinner : Message.parse (utf8 "a<b/> <c") = .ok [.text (utf8 "a"), .voidTag (utf8 "b"), .text (utf8 " <c")] := rfl
  obtain ⟨r, hr, hmode⟩ : ∃ r, Reader.scan? (utf8 "5%%%n% <<i>a</i> x") = some r ∧ r.mode = .text := ⟨_, rfl, rfl⟩
  obtain ⟨r', hr', hmode'⟩ : ∃ r, Reader.scan? (utf8 "a<b/> <c") = some r ∧ r.mode = .tag (utf8 "c") := ⟨_, rfl, rfl⟩
  have htrim : Bytes.IsTrimmed (utf8 "p") := Bytes.isTrimmed_trim (utf8 "p")
  have hname : IsTagName (utf8 "p") := ⟨⟨by decide, by decide, by decide, by decide, by decide⟩, htrim⟩
  have hpieces := (Message.parse_composed.1 _ _ _ r hfirst hr hmode).2 _ hsecond
  have htagged := Message.parse_composed.2 _ _ _ r' hinner hr' (by simp [hmode']) hname
  exact ⟨hpieces, ⟨r', hr', hmode'⟩, htagged⟩

end Phrasebook
