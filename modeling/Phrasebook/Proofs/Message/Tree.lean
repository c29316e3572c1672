import Phrasebook.Proofs.Message.Tokens

/-!
# The tree of a sequence of tokens

`TreeOf` is the grammar of messages over tokens: a run of literals as long as it can be is one text, a void tag and a placeholder are
nodes, and an opening tag, the tree of the tokens inside it and a closing tag of the same name are a tag. `WellNested` says of tokens
that their tags are properly nested, whatever else there is.

A sequence of tokens has a tree exactly when it is well nested (`WellNested.exists_treeOf`), the reader finds that tree
(`TreeOf.finish?`), and it accepts nothing that is not well nested (`wellNested_of_finish?`). Together: reading a source is cutting it
into tokens and taking their tree (`Message.parse_iff_treeOf`).
-/

namespace Phrasebook

/-- Whether a token leaves the open tags as they are. -/
def Token.isFlat : Token → Bool
  | .opening _ | .closing _ => false
  | _ => true

/-- Whether tokens begin in the middle of text. -/
def beginsInText : List Token → Bool
  | .literal _ :: _ => true
  | _ => false

/-- Tags are properly nested: every opening tag has its closing tag, of the same name, on the same level. -/
inductive WellNested : List Token → Prop
  | nil : WellNested []
  | flat {t : Token} {ts : List Token} : t.isFlat = true → WellNested ts → WellNested (t :: ts)
  | tag {name : Bytes} {inner rest : List Token} :
      WellNested inner → WellNested rest → WellNested (.opening name :: (inner ++ .closing name :: rest))

/-- The nodes of a sequence of tokens. A run of literals is one text, which is not empty and which no literal follows. -/
inductive TreeOf : List Token → Message → Prop
  | nil : TreeOf [] []
  | text {w : Bytes} {ts : List Token} {ns : List Node} :
      w ≠ [] → beginsInText ts = false → TreeOf ts ns → TreeOf (w.map .literal ++ ts) (.text w :: ns)
  | placeholder {name : Bytes} {ts : List Token} {ns : List Node} :
      TreeOf ts ns → TreeOf (.placeholder name :: ts) (.placeholder name :: ns)
  | void {name : Bytes} {ts : List Token} {ns : List Node} : TreeOf ts ns → TreeOf (.void name :: ts) (.voidTag name :: ns)
  | tag {name : Bytes} {inner rest : List Token} {children ns : List Node} :
      TreeOf inner children → TreeOf rest ns →
        TreeOf (.opening name :: (inner ++ .closing name :: rest)) (.tag name children :: ns)

/-! ## Well-nested tokens have a tree -/

/-- One more byte in front of tokens that have a tree is a text of its own, or joins the text that they begin with. -/
theorem TreeOf.cons_literal {ts : List Token} {ns : List Node} (h : TreeOf ts ns) (b : UInt8) :
    ∃ ms, TreeOf (.literal b :: ts) ms := by
  cases h with
  | nil => exact ⟨_, TreeOf.text (w := [b]) (by simp) rfl .nil⟩
  | text hw hts h => exact ⟨_, TreeOf.text (w := b :: _) (by simp) hts h⟩
  | placeholder h => exact ⟨_, TreeOf.text (w := [b]) (by simp) rfl (.placeholder h)⟩
  | void h => exact ⟨_, TreeOf.text (w := [b]) (by simp) rfl (.void h)⟩
  | tag hi hr => exact ⟨_, TreeOf.text (w := [b]) (by simp) rfl (.tag hi hr)⟩

/-- Well-nested tokens have a tree. -/
theorem WellNested.exists_treeOf {ts : List Token} (h : WellNested ts) : ∃ m, TreeOf ts m := by
  induction h with
  | nil => exact ⟨[], .nil⟩
  | @flat t ts hf _ ih =>
    obtain ⟨m, hm⟩ := ih
    cases t with
    | literal b => exact hm.cons_literal b
    | void name => exact ⟨_, hm.void⟩
    | placeholder name => exact ⟨_, hm.placeholder⟩
    | opening name => cases hf
    | closing name => cases hf
  | tag _ _ ihi ihr =>
    obtain ⟨children, hc⟩ := ihi
    obtain ⟨ns, hn⟩ := ihr
    exact ⟨_, .tag hc hn⟩

/-! ## The reader finds the tree -/

namespace Reader

/-- The reader of a level adds the nodes of a tree to it. When it stands behind text, the tokens must not begin in text: that text
would go into one node with the text before it. -/
theorem foldlM_take?_treeOf {ts : List Token} {ns : List Node} (h : TreeOf ts ns) (r : Reader) (hr : r.mode = .text)
    (hrun : r.run = [] ∨ beginsInText ts = false) :
    ∃ r', ts.foldlM take? r = some r' ∧ r'.mode = .text ∧ r'.enclosing = r.enclosing ∧ r'.settled = ns.reverse ++ r.settled := by
  induction h generalizing r with
  | nil => exact ⟨r, rfl, hr, rfl, rfl⟩
  | @text w ts ns hw hts h ih =>
    have hrun : r.run = [] := by
      obtain ⟨b, w, rfl⟩ := List.exists_cons_of_ne_nil hw
      simpa [beginsInText] using hrun
    obtain ⟨r', hr', hm, he, hs⟩ := ih { r with run := w.reverse ++ r.run } hr (Or.inr hts)
    refine ⟨r', ?_, hm, he, ?_⟩
    · rw [List.foldlM_append, foldlM_take?_literal]
      exact hr'
    · have hne : w.reverse ++ r.run ≠ [] := by simp [hw]
      rw [hs, settled_of_run_ne_nil hne, settled_of_run_eq_nil hrun, hrun]
      simp
  | @placeholder name ts ns h ih =>
    obtain ⟨r', hr', hm, he, hs⟩ := ih (r.add (.placeholder name)) rfl (Or.inl rfl)
    refine ⟨r', ?_, hm, he, ?_⟩
    · rw [List.foldlM_cons]
      exact hr'
    · rw [hs]
      simp [settled_add]
  | @void name ts ns h ih =>
    obtain ⟨r', hr', hm, he, hs⟩ := ih (r.add (.voidTag name)) rfl (Or.inl rfl)
    refine ⟨r', ?_, hm, he, ?_⟩
    · rw [List.foldlM_cons]
      exact hr'
    · rw [hs]
      simp [settled_add]
  | @tag name inner rest children ns _ _ ihi ihr =>
    obtain ⟨r₁, hr₁, hm₁, he₁, hs₁⟩ := ihi (r.enter name) rfl (Or.inl rfl)
    have hl : r₁.take? (.closing name) =
        some { mode := .text, run := [], level := .tag name children :: r.settled, enclosing := r.enclosing } := by
      have hc : r₁.settled.reverse = children := by
        rw [hs₁, settled_of_run_eq_nil rfl]
        simp [enter]
      simp [take?, leave?, he₁, enter, hc]
    obtain ⟨r₂, hr₂, hm₂, he₂, hs₂⟩ :=
      ihr { mode := .text, run := [], level := .tag name children :: r.settled, enclosing := r.enclosing } rfl (Or.inl rfl)
    refine ⟨r₂, ?_, hm₂, he₂, ?_⟩
    · rw [List.foldlM_cons, take?, Option.bind_eq_bind, Option.bind_some, List.foldlM_append, hr₁, Option.bind_eq_bind,
        Option.bind_some, List.foldlM_cons, hl]
      exact hr₂
    · rw [hs₂, settled_of_run_eq_nil rfl]
      simp

end Reader

/-- The reader finds the tree of tokens. -/
theorem TreeOf.finish? {ts : List Token} {m : Message} (h : TreeOf ts m) :
    (ts.foldlM Reader.take? {}).bind Reader.finish? = some m := by
  obtain ⟨r, hr, hm, he, hs⟩ := Reader.foldlM_take?_treeOf h {} rfl (Or.inl rfl)
  rw [hr, Option.bind_some, Reader.finish?_of_text hm he, hs, Reader.settled_of_run_eq_nil rfl]
  simp

/-! ## The reader accepts nothing else -/

/-- Tokens that close the open tags of some names, innermost first: well-nested tokens up to the closing tag of each, and then to
the end. -/
def Unwinds : List Bytes → List Token → Prop
  | [], ts => WellNested ts
  | name :: names, ts => ∃ inner rest, ts = inner ++ .closing name :: rest ∧ WellNested inner ∧ Unwinds names rest

/-- A token that leaves the open tags as they are may stand in front. -/
theorem Unwinds.flat {names : List Bytes} {ts : List Token} (h : Unwinds names ts) {t : Token} (ht : t.isFlat = true) :
    Unwinds names (t :: ts) := by
  cases names with
  | nil => exact WellNested.flat ht h
  | cons name names =>
    obtain ⟨inner, rest, rfl, hi, hr⟩ := h
    exact ⟨t :: inner, rest, rfl, hi.flat ht, hr⟩

/-- A tag that opens in front is closed first, and the others after it. -/
theorem Unwinds.opening {name : Bytes} {names : List Bytes} {ts : List Token} (h : Unwinds (name :: names) ts) :
    Unwinds names (.opening name :: ts) := by
  obtain ⟨inner, rest, rfl, hi, hr⟩ := h
  cases names with
  | nil => exact WellNested.tag hi hr
  | cons name' names =>
    obtain ⟨inner', rest', rfl, hi', hr'⟩ := hr
    exact ⟨.opening name :: (inner ++ .closing name :: inner'), rest', by simp, hi.tag hi', hr'⟩

/-- Tokens after which the reader has no open tag close those that it had. -/
theorem unwinds_of_foldlM {ts : List Token} {r r' : Reader} (h : ts.foldlM Reader.take? r = some r') (he : r'.enclosing = []) :
    Unwinds (r.enclosing.map OpenTag.name) ts := by
  induction ts generalizing r with
  | nil =>
    cases h
    rw [he]
    exact WellNested.nil
  | cons t ts ih =>
    rw [List.foldlM_cons] at h
    obtain ⟨r₁, h₁, h⟩ := Option.bind_eq_some_iff.mp h
    have ih := ih h
    cases t with
    | literal b => cases h₁; exact ih.flat rfl
    | void name => cases h₁; exact ih.flat rfl
    | placeholder name => cases h₁; exact ih.flat rfl
    | opening name => cases h₁; exact ih.opening
    | closing name =>
      simp only [Reader.take?, Reader.leave?] at h₁
      split at h₁
      · cases h₁
      · rename_i t rest hr
        split at h₁
        · rename_i hn
          cases h₁
          rw [hr, List.map_cons, hn]
          exact ⟨[], ts, rfl, WellNested.nil, ih⟩
        · cases h₁

/-- Where the reader may end no tag is open. -/
theorem Reader.enclosing_of_finish? {r : Reader} {m : Message} (h : r.finish? = some m) : r.enclosing = [] := by
  unfold Reader.finish? at h
  split at h
  · assumption
  · cases h

/-- What the reader accepts closes the tags that were open before it. -/
theorem unwinds_of_finish? {ts : List Token} {r : Reader} {m : Message}
    (h : (ts.foldlM Reader.take? r).bind Reader.finish? = some m) : Unwinds (r.enclosing.map OpenTag.name) ts := by
  obtain ⟨r', hr', hf⟩ := Option.bind_eq_some_iff.mp h
  exact unwinds_of_foldlM hr' (Reader.enclosing_of_finish? hf)

/-- The reader accepts well-nested tokens only. -/
theorem wellNested_of_finish? {ts : List Token} {m : Message}
    (h : (ts.foldlM Reader.take? {}).bind Reader.finish? = some m) : WellNested ts :=
  unwinds_of_finish? h

/-! ## Reading is taking the tree -/

/-- A source has a message when its tokens have that tree. -/
theorem Message.read?_eq_some_iff {source : Bytes} {m : Message} :
    Message.read? source = some m ↔ TreeOf (tokens source) m := by
  rw [Message.read?_eq_tokens]
  constructor
  · intro h
    obtain ⟨m', hm'⟩ := (wellNested_of_finish? h).exists_treeOf
    rwa [Option.some.inj (h.symm.trans hm'.finish?)]
  · exact TreeOf.finish?

/-- Some message is read from a source when its tokens are well nested. -/
theorem Message.isSome_read?_iff {source : Bytes} : (Message.read? source).isSome ↔ WellNested (tokens source) := by
  rw [Option.isSome_iff_exists]
  constructor
  · rintro ⟨m, hm⟩
    rw [Message.read?_eq_tokens] at hm
    exact wellNested_of_finish? hm
  · intro h
    obtain ⟨m, hm⟩ := h.exists_treeOf
    exact ⟨m, Message.read?_eq_some_iff.mpr hm⟩

/-- Reading succeeds with a message exactly when the message is the tree of the tokens of the source. It succeeds at all exactly when
these are well nested, and otherwise the fault is that of unbalanced tags and shows the source. -/
theorem Message.parse_iff_treeOf (source : Bytes) :
    (∀ m, Message.parse source = .ok m ↔ TreeOf (tokens source) m) ∧
      ((∃ m, Message.parse source = .ok m) ↔ WellNested (tokens source)) ∧
      (¬WellNested (tokens source) ↔ Message.parse source = .error (.unbalancedTags source)) := by
  refine ⟨fun m => Message.parse_eq_ok_iff.trans Message.read?_eq_some_iff, ?_, ?_⟩
  · rw [← Message.isSome_read?_iff, Option.isSome_iff_exists]
    exact exists_congr fun m => Message.parse_eq_ok_iff
  · rw [← Message.isSome_read?_iff, Message.parse_eq_error_iff]
    simp

end Phrasebook
