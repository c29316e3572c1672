import Phrasebook.Message.Reader

/-!
# Reading by positions

Reading can also be told of places in the source and of one stack. A cursor (`Cursor`) stands at a position, knows where the last mark
stands that led it out of text, and has a buffer each for text, for tags and for names of placeholders. On its stack it keeps the marks of
the open tags and, above each of them, the nodes that are complete inside that tag; nodes outside every tag are apart. A closing tag
takes the nodes off the stack again, down to the mark of its tag.

A cursor has room for what a `Reader` cannot say: a node on the stack with no open tag below it, a buffer with something else in it than
what stands in the source, a piece that the source does not have (`Cursor.Stop`). What was read since a mark (`Cursor.Begun`) tells what
the buffers should hold.
-/

namespace Phrasebook

namespace Cursor

/-- What is on the stack of a cursor: the mark of an open tag, or a node inside an open tag. -/
inductive Item where
  | opening (name : Bytes)
  | node (n : Node)
  deriving DecidableEq, Repr

/-- Where in the source a cursor is: in text, behind the start of a tag, or behind the first mark of a placeholder. -/
inductive Phase where
  | text
  | tag
  | placeholder
  deriving DecidableEq, Repr

/-- Why a cursor stops before the end: a tag is closed that is not the innermost open one, or left open; nodes are left over with no tag
to take them; or a piece is asked for that the text does not have. -/
inductive Stop where
  | unbalanced
  | stranded
  | outOfRange
  deriving DecidableEq, Repr

end Cursor

/-- What a cursor keeps. The last item of the stack comes first, everything else is in the order of the source. -/
structure Cursor where
  phase : Cursor.Phase := .text
  stack : List Cursor.Item := []
  outside : List Node := []
  position : Nat := 0
  mark : Nat := 0
  tag : Bytes := []
  text : Bytes := []
  placeholder : Bytes := []
  deriving DecidableEq, Repr

namespace Cursor

/-- The bytes of a text from one position up to another. The text must have both, in this order. -/
def piece (s : Bytes) (start stop : Nat) : Except Stop Bytes :=
  if start ≤ stop ∧ stop ≤ s.length then .ok (s.extract start stop) else .error .outOfRange

/-- A node is complete: it goes on the stack if a tag is open, and outside otherwise. -/
def put (c : Cursor) (n : Node) : Cursor :=
  match c.stack with
  | [] => { c with outside := c.outside ++ [n] }
  | _ :: _ => { c with stack := .node n :: c.stack }

/-- A tag opens: its mark goes on the stack. -/
def push (c : Cursor) (name : Bytes) : Cursor := { c with stack := .opening name :: c.stack }

/-- The text since the last node becomes a node; no text makes no node. -/
def putText (c : Cursor) : Cursor :=
  match c.text with
  | [] => c
  | text => { c.put (.text text) with text := [] }

/-- Text since the last node becomes a node. -/
theorem putText_of_ne_nil {c : Cursor} (h : c.text ≠ []) : c.putText = { c.put (.text c.text) with text := [] } := by
  rw [putText]
  split
  · rename_i h'
    exact absurd h' h
  · rfl

/-- A closing tag takes nodes off a stack, the last one first, and puts them before the children that it has, down to the first mark. That
must be the mark of its own tag; what is below it stays. A node at the bottom of the stack has no tag to go to. -/
def gather (name : Bytes) : List Node → List Item → Except Stop (List Node × List Item)
  -- No tag is open. A search that has begun does not come here: it ends at the bottom of the stack.
  | _, [] => .error .unbalanced
  | children, .node n :: below => if below = [] then .error .stranded else gather name (n :: children) below
  | children, .opening other :: below => if other = name then .ok (children, below) else .error .unbalanced

/-- A closing tag has ended: its name is what stands behind the slash, blanks around it left out, and the text since the last node is the
last of its children. -/
def close (c : Cursor) : Except Stop Cursor :=
  (piece c.tag 1 c.tag.length).bind fun name =>
    (gather (Bytes.trim name) (if c.text = [] then [] else [.text c.text]) c.stack).map fun (children, below) =>
      { c with phase := .text, stack := below, tag := [], text := [] }.put (.tag (Bytes.trim name) children)

/-- A tag has ended. -/
def endTag (c : Cursor) : Except Stop Cursor :=
  if c.tag.head? = some slash then c.close
  else if c.tag = [] ∨ c.tag.getLast? = some slash then
    .ok ({ c.putText with phase := .text, tag := [] }.put (.voidTag c.tag.dropLast))
  else .ok ({ c.putText with phase := .text, tag := [] }.push c.tag)

/-- A byte of the source, at the position of the cursor. Two percent signs in a row are told by their positions; a start of a tag inside a
tag makes text of the source from the last mark up to here. -/
def read (source : Bytes) (c : Cursor) (b : UInt8) : Except Stop Cursor :=
  match c.phase with
  | .text =>
    if b = tagStart then .ok { c with phase := .tag, mark := c.position }
    else if b = percent then .ok { c with phase := .placeholder, mark := c.position }
    else .ok { c with text := c.text ++ [b] }
  | .placeholder =>
    if b ≠ percent then .ok { c with placeholder := c.placeholder ++ [b] }
    else if c.position - c.mark = 1 then .ok { c with phase := .text, text := c.text ++ [percent] }
    else .ok ({ c.putText with phase := .text, placeholder := [] }.put (.placeholder c.placeholder))
  | .tag =>
    if b = tagEnd then c.endTag
    else if b = tagStart then
      (piece source c.mark c.position).map fun w => { c with text := c.text ++ w, mark := c.position, tag := [] }
    else .ok { c with tag := c.tag ++ [b] }

/-- The byte of the source at the position of the cursor is read, and the cursor goes on to the next. -/
def step (source : Bytes) (c : Cursor) : Except Stop Cursor :=
  match source[c.position]? with
  | none => .error .outOfRange
  | some b => (c.read source b).map fun c => { c with position := c.position + 1 }

/-- The cursor after a number of bytes of a source. -/
def after (source : Bytes) : Nat → Except Stop Cursor
  | 0 => .ok {}
  | k + 1 => (after source k).bind (step source)

/-- The text that a source ends with: outside text, the source from the last mark on belongs to it. -/
def lastText (source : Bytes) (c : Cursor) : Except Stop Bytes :=
  if c.phase = .text then .ok c.text else (piece source c.mark source.length).map (c.text ++ ·)

/-- The end of the source: the text that it ends with becomes a node outside, and no tag may be open. -/
def finish (source : Bytes) (c : Cursor) : Except Stop Message :=
  (c.lastText source).bind fun rest =>
    if c.stack = [] then .ok (if rest = [] then c.outside else c.outside ++ [.text rest]) else .error .unbalanced

/-- What a cursor reads from a source. -/
def parse (source : Bytes) : Except Stop Message := (after source source.length).bind (finish source)

/-! ## Since the last mark -/

/-- At a position of a source, these bytes were read since a mark. -/
def Begun (source : Bytes) (mark position : Nat) (b : UInt8) (w : Bytes) : Prop :=
  source.take position = source.take mark ++ b :: w

section

variable {source : Bytes} {mark position : Nat} {b c : UInt8} {w : Bytes}

theorem Begun.start (h : source[position]? = some b) : Begun source position (position + 1) b [] := by
  rw [Begun, List.take_add_one, h, Option.toList_some]

theorem Begun.concat (h : Begun source mark position b w) (hc : source[position]? = some c) :
    Begun source mark (position + 1) b (w ++ [c]) := by
  rw [Begun, List.take_add_one, hc, Option.toList_some, h, List.append_assoc, List.cons_append]

/-- The mark stands before what was read since. -/
theorem Begun.position_eq (h : Begun source mark position b w) (hp : position ≤ source.length) :
    position = mark + w.length + 1 := by
  have hlength := congrArg List.length h
  simp only [List.length_append, List.length_cons, List.length_take] at hlength
  omega

/-- The source up to the mark is as long as the position of the mark. -/
theorem Begun.length_take (h : Begun source mark position b w) (hp : position ≤ source.length) :
    (source.take mark).length = mark := by
  have hpos := h.position_eq hp
  rw [List.length_take]
  omega

/-- The source from the mark on is the mark and what was read since. -/
theorem Begun.extract_mark (h : Begun source mark position b w) (hp : position ≤ source.length) :
    source.extract mark position = b :: w := by
  rw [List.extract_eq_take_drop, ← List.drop_take, h]
  exact List.drop_left' (h.length_take hp)

/-- The source behind the mark is what was read since. -/
theorem Begun.extract_succ (h : Begun source mark position b w) (hp : position ≤ source.length) :
    source.extract (mark + 1) position = w := by
  have hlength : (source.take mark ++ [b]).length = mark + 1 := by rw [List.length_append, h.length_take hp, List.length_singleton]
  rw [List.extract_eq_take_drop, ← List.drop_take, h, List.append_cons]
  exact List.drop_left' hlength

/-- The mark stands in the source. -/
theorem Begun.getElem?_mark (h : Begun source mark position b w) (hp : position ≤ source.length) : source[mark]? = some b := by
  have hpos := h.position_eq hp
  have hget : (source.take position)[mark]? = some b := by
    rw [h, List.getElem?_append_right (Nat.le_of_eq (h.length_take hp)), h.length_take hp, Nat.sub_self, List.getElem?_cons_zero]
  rwa [List.getElem?_take_of_lt (by omega)] at hget

theorem Begun.piece_mark (h : Begun source mark position b w) (hp : position ≤ source.length) :
    piece source mark position = .ok (b :: w) := by
  have hpos := h.position_eq hp
  rw [piece, if_pos ⟨by omega, hp⟩, h.extract_mark hp]

end

end Cursor

end Phrasebook
