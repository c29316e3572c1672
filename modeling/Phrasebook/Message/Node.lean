import Phrasebook.Bytes

/-!
# Messages

A message is a list of nodes: runs of text, tags with children, tags without (void tags), and placeholders. Tags, void tags and
placeholders are named, and the name says which value takes their place when the message is rendered. Two nodes are equal when
they are the same node, children included (`Node.decEq` decides it). `Node.label` is how a report names a node and
`Message.outline` how it shows a whole message.
-/

namespace Phrasebook

/-- A node of a message. -/
inductive Node where
  | text (content : Bytes)
  | tag (name : Bytes) (children : List Node)
  | voidTag (name : Bytes)
  | placeholder (name : Bytes)
  deriving Repr, Inhabited

/-- A message: its nodes in the order of its source. -/
abbrev Message : Type := List Node

/-! ## Equality -/

mutual

/-- Whether two nodes are the same. -/
def Node.decEq : (a b : Node) → Decidable (a = b)
  | .text s, .text t => decidable_of_iff (s = t) (by simp)
  | .tag n cs, .tag m ds =>
    match decEq n m with
    | isFalse h => isFalse (fun e => h (Node.tag.inj e).1)
    | isTrue h =>
      match Message.decEq cs ds with
      | isFalse h' => isFalse (fun e => h' (Node.tag.inj e).2)
      | isTrue h' => isTrue (by rw [h, h'])
  | .voidTag n, .voidTag m => decidable_of_iff (n = m) (by simp)
  | .placeholder n, .placeholder m => decidable_of_iff (n = m) (by simp)
  | .text _, .tag .. | .text _, .voidTag _ | .text _, .placeholder _ => isFalse nofun
  | .tag .., .text _ | .tag .., .voidTag _ | .tag .., .placeholder _ => isFalse nofun
  | .voidTag _, .text _ | .voidTag _, .tag .. | .voidTag _, .placeholder _ => isFalse nofun
  | .placeholder _, .text _ | .placeholder _, .tag .. | .placeholder _, .voidTag _ => isFalse nofun

/-- Whether two messages are the same. -/
def Message.decEq : (as bs : List Node) → Decidable (as = bs)
  | [], [] => isTrue rfl
  | [], _ :: _ | _ :: _, [] => isFalse nofun
  | a :: as, b :: bs =>
    match Node.decEq a b with
    | isFalse h => isFalse (fun e => h (List.cons.inj e).1)
    | isTrue h =>
      match Message.decEq as bs with
      | isFalse h' => isFalse (fun e => h' (List.cons.inj e).2)
      | isTrue h' => isTrue (by rw [h, h'])

end

instance : DecidableEq Node := Node.decEq

/-! ## Kinds and labels -/

/-- The kinds of nodes. -/
inductive Kind where
  | text
  | tag
  | voidTag
  | placeholder
  deriving DecidableEq, Repr

/-- The name of a kind. -/
def Kind.name : Kind → String
  | .text => "text"
  | .tag => "tag"
  | .voidTag => "void_tag"
  | .placeholder => "placeholder"

/-- The kind that a number, a byte, stands for, if it stands for one. -/
def Kind.ofNumber? : UInt8 → Option Kind
  | 0 => some .text
  | 1 => some .tag
  | 2 => some .voidTag
  | 3 => some .placeholder
  | _ => none

/-- The name of the kind that a number stands for. -/
def Kind.nameOfNumber (n : UInt8) : String :=
  match Kind.ofNumber? n with
  | some k => k.name
  | none => "unknown"

namespace Node

/-- The kind of a node. -/
def kind : Node → Kind
  | text _ => .text
  | tag .. => .tag
  | voidTag _ => .voidTag
  | placeholder _ => .placeholder

/-- The name of a node; the content of a text. -/
def name : Node → Bytes
  | text content => content
  | tag name _ => name
  | voidTag name => name
  | placeholder name => name

/-- Whether a node is a run of text. -/
def isText : Node → Bool
  | text _ => true
  | _ => false

/-- How a report names a node: its source form without its children. A run of text is not named by what it holds. -/
def label : Node → Bytes
  | text _ => utf8 "text"
  | tag name _ => utf8 "<" ++ name ++ utf8 ">"
  | voidTag name => utf8 "<" ++ name ++ utf8 "/>"
  | placeholder name => utf8 "%" ++ name ++ utf8 "%"

end Node

/-! ## Outlines -/

mutual

/-- The outline of a node, before a text that follows it: the kind and, in parentheses, the name (a text in quotes, as it is); a tag
is followed by the outlines of its children in brackets. -/
def Node.outlineBefore (rest : Bytes) : Node → Bytes
  | .text content => utf8 Kind.text.name ++ (utf8 "(\"" ++ (content ++ (utf8 "\")" ++ rest)))
  | .tag name children =>
    utf8 Kind.tag.name ++ (utf8 "(" ++ (name ++ (utf8 ")[" ++ Message.outlinesBefore (utf8 "]" ++ rest) children)))
  | .voidTag name => utf8 Kind.voidTag.name ++ (utf8 "(" ++ (name ++ (utf8 ")" ++ rest)))
  | .placeholder name => utf8 Kind.placeholder.name ++ (utf8 "(" ++ (name ++ (utf8 ")" ++ rest)))

/-- The outlines of nodes, with a comma and a space between them, before a text that follows them. -/
def Message.outlinesBefore (rest : Bytes) : List Node → Bytes
  | [] => rest
  | [n] => n.outlineBefore rest
  | n :: ns => n.outlineBefore (utf8 ", " ++ Message.outlinesBefore rest ns)

end

/-- The outline of a message: the outlines of its nodes in brackets. -/
def Message.outline (m : Message) : Bytes := utf8 "[" ++ Message.outlinesBefore (utf8 "]") m

mutual

/-- What follows a node has no influence on its outline. -/
theorem Node.outlineBefore_append (rest more : Bytes) (n : Node) :
    n.outlineBefore (rest ++ more) = n.outlineBefore rest ++ more := by
  cases n with
  | tag name children =>
    simp only [Node.outlineBefore, List.append_assoc, ← Message.outlinesBefore_append _ more children]
  | _ => simp only [Node.outlineBefore, List.append_assoc]

/-- What follows nodes has no influence on their outlines. -/
theorem Message.outlinesBefore_append (rest more : Bytes) (ns : List Node) :
    Message.outlinesBefore (rest ++ more) ns = Message.outlinesBefore rest ns ++ more := by
  match ns with
  | [] => simp only [Message.outlinesBefore]
  | [n] => simp only [Message.outlinesBefore, Node.outlineBefore_append rest more n]
  | n :: n' :: ns =>
    simp only [Message.outlinesBefore, Message.outlinesBefore_append rest more (n' :: ns), ← List.append_assoc]
    rw [Node.outlineBefore_append _ more n]

end

end Phrasebook
