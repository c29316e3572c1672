import Phrasebook.Message.Reader
import Phrasebook.Proofs.Rendering.Parts
import Mathlib.Logic.Relation

/-!
# Rendering inside out

Wherever a node stands in a message, a run of text may take its place if it is the text that the node has on its own: the text of the
message stays the same (`Message.renderText_replaceAt`), whether a function is given the text of the node, a plain value drops it, or no
tag stands around it at all. Each such step leaves one node less that needs a value, so that steps in any order come to an end, and at the
end there are runs of text alone, which are the text of the message (`Message.rendersInsideOut`).
-/

namespace Phrasebook

/-! ## Places -/

/-- A place in a message: a node of the top level by its number, or a place among the children of one. -/
inductive Place where
  | top (i : Nat)
  | inside (i : Nat) (p : Place)
  deriving DecidableEq, Repr

/-- The node at a place of a message, if there is one. -/
def Message.nodeAt? : Place → Message → Option Node
  | .top i, m => m[i]?
  | .inside i p, m => m[i]?.bind fun n => Message.nodeAt? p n.children

/-- A node with other children; a node that is no tag has none. -/
def Node.mapChildren (f : Message → Message) : Node → Node
  | .tag name children => .tag name (f children)
  | n => n

/-- The message with another node at a place. -/
def Message.replaceAt (n : Node) : Place → Message → Message
  | .top i, m => m.modify i fun _ => n
  | .inside i p, m => m.modify i (Node.mapChildren (Message.replaceAt n p))

/-- A node at a place stands there among its siblings, and replacing it does not touch them. -/
theorem Message.exists_of_modify {m : Message} {i : Nat} {n : Node} (h : m[i]? = some n) (f : Node → Node) :
    ∃ before after, m = before ++ n :: after ∧ m.modify i f = before ++ f n :: after := by
  obtain ⟨hi, hn⟩ := List.getElem?_eq_some_iff.mp h
  obtain ⟨before, n', after, hm, hlength, hmodify⟩ := List.exists_of_modify f hi
  have hn' : n' = n := by
    subst hm hlength
    simpa using hn
  exact ⟨before, after, hn' ▸ hm, hn' ▸ hmodify⟩

/-! ## The text of a level -/

section

variable {vs : Values Bytes}

theorem Message.renderText_nil : Message.renderText vs [] = .ok [] := by
  rw [renderText, render]
  rfl

/-- The text of a level is that of its first node on its own, and then that of the others. -/
theorem Message.renderText_cons (n : Node) (ns : Message) :
    Message.renderText vs (n :: ns) =
      (Message.renderText vs [n]).bind fun text => (Message.renderText vs ns).map (text ++ ·) := by
  simp only [renderText, render]
  cases n.render vs with
  | error f => rfl
  | ok part =>
    cases Message.render vs ns with
    | error f => rfl
    | ok parts => simp [Except.map, Except.bind, joined_eq_flatMap]

/-- The text of a level is that of its nodes before a place, and then that of the others. -/
theorem Message.renderText_append (ns ns' : Message) :
    Message.renderText vs (ns ++ ns') =
      (Message.renderText vs ns).bind fun text => (Message.renderText vs ns').map (text ++ ·) := by
  induction ns with
  | nil =>
    rw [List.nil_append, renderText_nil]
    cases Message.renderText vs ns' <;> rfl
  | cons n ns ih =>
    rw [List.cons_append, renderText_cons, renderText_cons n ns, ih]
    cases Message.renderText vs [n] with
    | error f => rfl
    | ok text =>
      cases Message.renderText vs ns with
      | error f => rfl
      | ok text' => cases Message.renderText vs ns' <;> simp [Except.map, Except.bind]

theorem Message.renderText_text (content : Bytes) : Message.renderText vs [.text content] = .ok content := by
  simp only [renderText, render, Node.render]
  rfl

/-- Runs of text are their own text. -/
theorem Message.renderText_texts (texts : List Bytes) : Message.renderText vs (texts.map .text) = .ok texts.flatten := by
  induction texts with
  | nil => exact renderText_nil
  | cons content texts ih =>
    rw [List.map_cons, renderText_cons, renderText_text, ih]
    rfl

/-- The text of a tag is what its value makes of the text of its children. -/
theorem Message.renderText_tag (name : Bytes) (children : Message) :
    Message.renderText vs [.tag name children] =
      (Message.renderText vs children).bind fun text => (vs.part name text).map Part.toText := by
  simp only [renderText, render, Node.render]
  cases Message.render vs children with
  | error f => rfl
  | ok parts =>
    dsimp only [Except.map, Except.bind]
    cases vs.part name (joined parts) <;> rfl

/-- The text of a node with a plain value is the text of the value as it is. -/
theorem Message.renderText_plain {n : Node} {v : Value Bytes} {text : Bytes} (hn : n.isText = false)
    (hv : vs.find? n.name = some v) (hf : v.isFunction = false) (h : Message.renderText vs [n] = .ok text) : text = v.toText := by
  obtain ⟨-, parts, hparts, rfl⟩ := renderText_eq_ok_iff.mp h
  obtain ⟨p, ps, hp, hps, rfl⟩ := List.forall₂_cons_left_iff.mp hparts
  rw [List.forall₂_nil_left_iff.mp hps, hp.unique (.plain hn hv hf)]
  exact List.append_nil _

/-! ## Replacing a node -/

/-- A level keeps its text, or its fault, where a node of it is changed into one with the same text on its own. -/
theorem Message.renderText_modify {m : Message} {i : Nat} {n : Node} {f : Node → Node} (h : m[i]? = some n)
    (hsame : Message.renderText vs [f n] = Message.renderText vs [n]) :
    Message.renderText vs (m.modify i f) = Message.renderText vs m := by
  obtain ⟨before, after, rfl, hmodify⟩ := exists_of_modify h f
  rw [hmodify, renderText_append, renderText_append, renderText_cons, renderText_cons n, hsame]

/-- A message keeps its text, or its fault, where the node at a place gives way to one with the same text on its own. -/
theorem Message.renderText_replaceAt {p : Place} {m : Message} {n n' : Node} (h : Message.nodeAt? p m = some n)
    (hsame : Message.renderText vs [n'] = Message.renderText vs [n]) :
    (Message.replaceAt n' p m).renderText vs = m.renderText vs := by
  induction p generalizing m with
  | top i => exact renderText_modify h hsame
  | inside i p ih =>
    obtain ⟨t, ht, hinside⟩ := Option.bind_eq_some_iff.mp h
    refine renderText_modify ht ?_
    cases t with
    | tag name children =>
      have hchildren : Message.renderText vs (Message.replaceAt n' p children) = Message.renderText vs children := ih hinside
      rw [Node.mapChildren, renderText_tag, renderText_tag, hchildren]
    | _ => rfl

/-- What stands below a node at a place stands in the message. -/
theorem Message.postOrder_subset_of_nodeAt? {p : Place} {m : Message} {n : Node} (h : Message.nodeAt? p m = some n) :
    n.postOrder ⊆ m.postOrder := by
  intro u hu
  induction p generalizing m with
  | top i => exact mem_postOrder.mpr ⟨n, List.mem_of_getElem? h, hu⟩
  | inside i p ih =>
    obtain ⟨t, ht, hinside⟩ := Option.bind_eq_some_iff.mp h
    obtain ⟨c, hc, huc⟩ := mem_postOrder.mp (ih hinside)
    exact mem_postOrder.mpr ⟨t, List.mem_of_getElem? ht, Node.mem_postOrder_of_child hc huc⟩

/-- Where a message has a text, every node of it has one on its own. -/
theorem Message.exists_renderText_of_nodeAt? {p : Place} {m : Message} {n : Node} {out : Bytes} (hm : m.renderText vs = .ok out)
    (h : Message.nodeAt? p m = some n) : ∃ text, Message.renderText vs [n] = .ok text := by
  rw [exists_renderText_iff]
  have hcover : vs.Cover m := (renderText_eq_ok_iff.mp hm).1
  intro u hu
  refine hcover u (postOrder_subset_of_nodeAt? h ?_)
  simpa [postOrder] using hu

end

/-! ## How many nodes need a value -/

/-- How many nodes of a message, at any depth, are no runs of text. -/
def Message.namedCount (m : Message) : Nat := m.postOrder.countP fun n => !n.isText

theorem Message.namedCount_cons (n : Node) (ns : Message) :
    Message.namedCount (n :: ns) = Message.namedCount [n] + Message.namedCount ns := by
  simp [namedCount, postOrder]

/-- The nodes of a level are counted before a place and behind it. -/
theorem Message.namedCount_append (ns ns' : Message) :
    Message.namedCount (ns ++ ns') = Message.namedCount ns + Message.namedCount ns' := by
  induction ns with
  | nil => simp [namedCount, postOrder]
  | cons n ns ih => rw [List.cons_append, namedCount_cons, namedCount_cons n ns, ih, Nat.add_assoc]

theorem Message.namedCount_text (content : Bytes) : Message.namedCount [.text content] = 0 := rfl

theorem Message.namedCount_of_not_text {n : Node} (h : n.isText = false) :
    Message.namedCount [n] = Message.namedCount n.children + 1 := by
  rw [namedCount, postOrder, postOrder, List.append_nil, Node.postOrder_of_not_text h, List.countP_append, namedCount]
  simp [h]

/-- A level has fewer nodes to count where one of them is changed into one with fewer. -/
theorem Message.namedCount_modify_lt {m : Message} {i : Nat} {n : Node} {f : Node → Node} (h : m[i]? = some n)
    (hless : Message.namedCount [f n] < Message.namedCount [n]) : Message.namedCount (m.modify i f) < Message.namedCount m := by
  obtain ⟨before, after, rfl, hmodify⟩ := exists_of_modify h f
  rw [hmodify, namedCount_append, namedCount_append, namedCount_cons, namedCount_cons n]
  omega

/-- A message has fewer nodes to count where one that is no text gives way to a run of text. -/
theorem Message.namedCount_replaceAt_lt {p : Place} {m : Message} {n : Node} (h : Message.nodeAt? p m = some n)
    (hn : n.isText = false) (content : Bytes) :
    Message.namedCount (Message.replaceAt (.text content) p m) < Message.namedCount m := by
  induction p generalizing m with
  | top i =>
    refine namedCount_modify_lt h ?_
    rw [namedCount_text, namedCount_of_not_text hn]
    exact Nat.succ_pos _
  | inside i p ih =>
    obtain ⟨t, ht, hinside⟩ := Option.bind_eq_some_iff.mp h
    refine namedCount_modify_lt ht ?_
    cases t with
    | tag name children =>
      have hchildren := ih hinside
      rw [Node.mapChildren, namedCount_of_not_text rfl, namedCount_of_not_text rfl]
      exact Nat.succ_lt_succ hchildren
    | text | voidTag | placeholder => cases p <;> cases hinside

/-! ## Step by step -/

/-- A node of a message that is no text gives way to the text that it has on its own. -/
inductive Message.CollapseStep (vs : Values Bytes) : Message → Message → Prop
  | collapse {p : Place} {m : Message} {n : Node} {text : Bytes} : Message.nodeAt? p m = some n → n.isText = false →
      Message.renderText vs [n] = .ok text → CollapseStep vs m (Message.replaceAt (.text text) p m)

/-- Any number of steps. -/
def Message.Collapses (vs : Values Bytes) : Message → Message → Prop := Relation.ReflTransGen (Message.CollapseStep vs)

variable {vs : Values Bytes} {m m' : Message} {out : Bytes}

/-- A step keeps the text of the message. -/
theorem Message.CollapseStep.renderText_eq (h : m.CollapseStep vs m') : m'.renderText vs = m.renderText vs := by
  cases h with
  | collapse hp _ htext => exact renderText_replaceAt hp ((renderText_text _).trans htext.symm)

/-- A step leaves fewer nodes that need a value. -/
theorem Message.CollapseStep.namedCount_lt (h : m.CollapseStep vs m') : m'.namedCount < m.namedCount := by
  cases h with
  | collapse hp hn _ => exact namedCount_replaceAt_lt hp hn _

theorem Message.Collapses.renderText_eq (h : m.Collapses vs m') : m'.renderText vs = m.renderText vs := by
  induction h with
  | refl => rfl
  | tail _ hstep ih => exact hstep.renderText_eq.trans ih

/-- A message with a text is one of runs of text alone, or there is a step from it. -/
theorem Message.exists_collapseStep_or_texts (hm : m.renderText vs = .ok out) :
    (∃ m', m.CollapseStep vs m') ∨ ∃ texts : List Bytes, m = texts.map .text := by
  by_cases h : ∃ n ∈ m, n.isText = false
  · obtain ⟨n, hmem, hn⟩ := h
    obtain ⟨i, hi⟩ := List.mem_iff_getElem?.mp hmem
    have hi : Message.nodeAt? (.top i) m = some n := hi
    obtain ⟨text, htext⟩ := exists_renderText_of_nodeAt? hm hi
    exact Or.inl ⟨_, .collapse hi hn htext⟩
  · refine Or.inr ⟨m.map Node.name, ?_⟩
    rw [List.map_map]
    refine (List.map_id m).symm.trans (List.map_congr_left fun n hn => ?_)
    cases n with
    | text => rfl
    | _ => exact absurd ⟨_, hn, rfl⟩ h

/-- From a message with a text, steps lead to runs of text alone. -/
theorem Message.exists_collapses_texts (hm : m.renderText vs = .ok out) :
    ∃ texts : List Bytes, m.Collapses vs (texts.map .text) := by
  -- By induction on the number of nodes that need a value, of which every step leaves fewer.
  induction hcount : m.namedCount using Nat.strongRecOn generalizing m with
  | ind k ih =>
    rcases exists_collapseStep_or_texts hm with ⟨m', hstep⟩ | ⟨texts, rfl⟩
    · obtain ⟨texts, htexts⟩ := ih m'.namedCount (hcount ▸ hstep.namedCount_lt) (hstep.renderText_eq.trans hm) rfl
      exact ⟨texts, .head hstep htexts⟩
    · exact ⟨texts, .refl⟩

/-! ## From the inside out -/

/-- What it comes to that a message with a text is rendered from the inside out. The node at any place has a text on its own, and the
message keeps its text where that takes the place of the node. Steps of this kind, in any order, keep the text of the message, and each of
them leaves fewer nodes that need a value. Where there is no further step, the message is runs of text alone, which are its text one after
the other, and some steps lead there. The text that takes the place of a node with a plain value is the text of the value as it is, and it
is not looked at again: runs of text are their own text, under any values. -/
structure Message.RendersInsideOut (vs : Values Bytes) (m : Message) (out : Bytes) : Prop where
  place : ∀ p n, Message.nodeAt? p m = some n → ∃ text, Message.renderText vs [n] = .ok text ∧
    (Message.replaceAt (.text text) p m).renderText vs = .ok out
  kept : ∀ m', m.Collapses vs m' → m'.renderText vs = .ok out
  fewer : ∀ m' m'', Message.CollapseStep vs m' m'' → m''.namedCount < m'.namedCount
  last : ∀ m', m.Collapses vs m' → (¬∃ m'', m'.CollapseStep vs m'') →
    ∃ texts : List Bytes, m' = texts.map .text ∧ texts.flatten = out
  reached : ∃ texts : List Bytes, m.Collapses vs (texts.map .text) ∧ texts.flatten = out
  plain : ∀ n v text, n.isText = false → vs.find? n.name = some v → v.isFunction = false →
    Message.renderText vs [n] = .ok text → text = v.toText
  verbatim : ∀ (vs' : Values Bytes) (texts : List Bytes), Message.renderText vs' (texts.map .text) = .ok texts.flatten

/-- A message with a text is rendered from the inside out. -/
theorem Message.rendersInsideOut (hm : m.renderText vs = .ok out) : m.RendersInsideOut vs out where
  place := by
    intro p n hn
    obtain ⟨text, htext⟩ := exists_renderText_of_nodeAt? hm hn
    refine ⟨text, htext, ?_⟩
    rw [renderText_replaceAt hn ((renderText_text text).trans htext.symm), hm]
  kept m' h := h.renderText_eq.trans hm
  fewer m' m'' h := h.namedCount_lt
  last := by
    intro m' h hlast
    have hm' : m'.renderText vs = .ok out := h.renderText_eq.trans hm
    obtain ⟨texts, rfl⟩ := (exists_collapseStep_or_texts hm').resolve_left hlast
    exact ⟨texts, rfl, Except.ok.inj ((renderText_texts texts).symm.trans hm')⟩
  reached := by
    obtain ⟨texts, h⟩ := exists_collapses_texts hm
    exact ⟨texts, h, Except.ok.inj ((renderText_texts texts).symm.trans (h.renderText_eq.trans hm))⟩
  plain n v text := renderText_plain
  verbatim vs' texts := renderText_texts texts

/-- A value that looks like a tag, within a tag with a function and within one whose plain value drops it: the text that takes the place of
either is not read again. -/
theorem Message.rendersInsideOut_sample :
    ∃ (m : Message) (vs : Values Bytes), Message.parse (utf8 "<b><i>%n%</i></b>, <q>%n%</q>") = .ok m ∧
      m.renderText vs = .ok (utf8 "(</b>), %x%") ∧
      Message.nodeAt? (.inside 0 (.inside 0 (.top 0))) m = some (.placeholder (utf8 "n")) ∧
      (Message.replaceAt (.text (utf8 "</b>")) (.inside 0 (.inside 0 (.top 0))) m).renderText vs = .ok (utf8 "(</b>), %x%") ∧
      ∃ texts : List Bytes, m.Collapses vs (texts.map .text) ∧ texts.flatten = utf8 "(</b>), %x%" := by
  have hm : Message.renderText
      [(utf8 "b", .function id), (utf8 "i", .function fun s => utf8 "(" ++ s ++ utf8 ")"), (utf8 "q", .text (utf8 "%x%")),
        (utf8 "n", .text (utf8 "</b>"))]
      [.tag (utf8 "b") [.tag (utf8 "i") [.placeholder (utf8 "n")]], .text (utf8 ", "), .tag (utf8 "q") [.placeholder (utf8 "n")]] =
        .ok (utf8 "(</b>), %x%") := by rfl
  have h := Message.rendersInsideOut hm
  obtain ⟨text, htext, hplace⟩ := h.place (.inside 0 (.inside 0 (.top 0))) (.placeholder (utf8 "n")) rfl
  have hvalue : text = utf8 "</b>" := h.plain (.placeholder (utf8 "n")) (.text (utf8 "</b>")) text rfl rfl rfl htext
  refine ⟨_, _, ?parsed, hm, rfl, hvalue ▸ hplace, h.reached⟩
  case parsed => rfl

end Phrasebook
