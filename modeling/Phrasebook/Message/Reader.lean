import Phrasebook.Fault
import Phrasebook.Message.Node

/-!
# Reading a message

A source is text with marks in it: `<name>` and `</name>` around the children of a tag, `<name/>` for a void tag, `%name%` for a
placeholder, and `%%` for a percent sign. Nothing else is special, and nothing is lost: a `<` that is followed by another `<`
before any `>`, and a mark that is still open at the end of the source, are text after all. The only sources refused are those
whose tags are not properly nested.

The reader goes over the source once, byte by byte. `Reader.step` is one byte and `Reader.finish` the end of the source; what is
read so far is kept in a `Reader`, every buffer of which holds its last item first.
-/

namespace Phrasebook

/-- The mark that a tag starts with. -/
def tagStart : UInt8 := 60

/-- The mark that a tag ends with. -/
def tagEnd : UInt8 := 62

/-- The mark of a closing tag, before its name, and of a void tag, after it. -/
def slash : UInt8 := 47

/-- The mark around the name of a placeholder. -/
def percent : UInt8 := 37

/-! ## The three kinds of tags -/

/-- A tag as it stands in a source. -/
inductive TagMark where
  | opening (name : Bytes)
  | closing (name : Bytes)
  | void (name : Bytes)
  deriving DecidableEq, Repr

/-- What stands between the two marks of a tag says what tag it is: after a leading slash the name of a closing tag, blanks
around it left out; before a final slash the name of a void tag; otherwise the name of an opening tag. Nothing between the marks
is a void tag without a name. -/
def TagMark.ofRaw (raw : Bytes) : TagMark :=
  if raw.head? = some slash then .closing (Bytes.trim raw.tail)
  else if raw = [] ∨ raw.getLast? = some slash then .void raw.dropLast
  else .opening raw

/-! ## The state of reading -/

/-- Where in the source the reader is: in text, after the start of a tag, or after the first mark of a placeholder; the latter
two with what was read since. -/
inductive Mode where
  | text
  | tag (raw : Bytes)
  | placeholder (name : Bytes)
  deriving DecidableEq, Repr

/-- A tag that waits for its closing tag, with the nodes that stand before it on its level. -/
structure OpenTag where
  name : Bytes
  before : List Node

/-- What is read so far: the text since the last node, the nodes of the innermost open tag, and the open tags, innermost first. -/
structure Reader where
  mode : Mode := .text
  run : Bytes := []
  level : List Node := []
  enclosing : List OpenTag := []

namespace Reader

/-- The nodes of the level with the text since the last of them as a node of its own; no text makes no node. -/
def settled (r : Reader) : List Node :=
  match r.run with
  | [] => r.level
  | run => .text run.reverse :: r.level

theorem settled_of_run_eq_nil {r : Reader} (h : r.run = []) : r.settled = r.level := by
  rw [settled, h]

/-- Text since the last node is one more node. -/
theorem settled_of_run_ne_nil {r : Reader} (h : r.run ≠ []) : r.settled = .text r.run.reverse :: r.level := by
  rw [settled]
  split
  · rename_i h'
    exact absurd h' h
  · rfl

/-- A node is complete: it follows the text before it. -/
def add (r : Reader) (n : Node) : Reader := { r with mode := .text, run := [], level := n :: r.settled }

@[simp] theorem settled_add (r : Reader) (n : Node) : (r.add n).settled = n :: r.settled := rfl

/-- A tag opens: its children are read on a level of their own. -/
def enter (r : Reader) (name : Bytes) : Reader :=
  { mode := .text, run := [], level := [], enclosing := ⟨name, r.settled⟩ :: r.enclosing }

/-- A tag closes: it must be the innermost open one, and it takes the nodes of the level as its children. -/
def leave? (r : Reader) (name : Bytes) : Option Reader :=
  match r.enclosing with
  | [] => none
  | t :: rest =>
    if t.name = name then
      some { mode := .text, run := [], level := .tag name r.settled.reverse :: t.before, enclosing := rest }
    else none

/-- A tag has ended. -/
def endTag? (r : Reader) : TagMark → Option Reader
  | .opening name => some (r.enter name)
  | .closing name => r.leave? name
  | .void name => some (r.add (.voidTag name))

/-- One byte of the source. -/
def step (r : Reader) (b : UInt8) : Option Reader :=
  match r.mode with
  | .text =>
    if b = tagStart then some { r with mode := .tag [] }
    else if b = percent then some { r with mode := .placeholder [] }
    else some { r with run := b :: r.run }
  | .placeholder name =>
    if b ≠ percent then some { r with mode := .placeholder (b :: name) }
    else if name = [] then some { r with mode := .text, run := percent :: r.run }
    else some (r.add (.placeholder name.reverse))
  | .tag raw =>
    if b = tagEnd then r.endTag? (.ofRaw raw.reverse)
    else if b = tagStart then some { r with mode := .tag [], run := raw ++ tagStart :: r.run }
    else some { r with mode := .tag (b :: raw) }

/-- The text since the last node when the source ends here: a tag or a placeholder that has not ended is text. -/
def tailRun (r : Reader) : Bytes :=
  match r.mode with
  | .text => r.run
  | .tag raw => raw ++ tagStart :: r.run
  | .placeholder name => name ++ percent :: r.run

/-- The end of the source: no tag may be open. -/
def finish? (r : Reader) : Option Message :=
  match r.enclosing with
  | [] => some (settled { r with run := r.tailRun }).reverse
  | _ :: _ => none

/-- A source that ends in text, with no tag open, has the nodes of the level as its message. -/
theorem finish?_of_text {r : Reader} (hm : r.mode = .text) (he : r.enclosing = []) : r.finish? = some r.settled.reverse := by
  obtain ⟨mode, run, level, enclosing⟩ := r
  cases hm
  cases he
  rfl

end Reader

/-- The reader after a whole source, if its tags are properly nested so far. -/
def Reader.scan? (source : Bytes) : Option Reader := source.foldlM Reader.step {}

/-- The message of a source whose tags are properly nested. -/
def Message.read? (source : Bytes) : Option Message := (Reader.scan? source).bind Reader.finish?

/-- The message of a source, or the fault that its tags are not properly nested. -/
def Message.parse (source : Bytes) : Except Fault Message :=
  match Message.read? source with
  | some m => .ok m
  | none => .error (.unbalancedTags source)

/-! ## Reading in two pieces -/

/-- Reading two pieces one after the other is reading them joined. -/
theorem Reader.scan?_append (s t : Bytes) : Reader.scan? (s ++ t) = (Reader.scan? s).bind (fun r => t.foldlM Reader.step r) := by
  simp only [Reader.scan?, List.foldlM_append]
  rfl

/-- Reading gives the message of the source. -/
theorem Message.parse_eq_ok_iff {source : Bytes} {m : Message} : Message.parse source = .ok m ↔ Message.read? source = some m := by
  unfold Message.parse
  cases Message.read? source <;> simp

/-- The only fault of reading is the fault of unbalanced tags, and it shows the whole source. -/
theorem Message.parse_eq_error_iff {source : Bytes} {f : Fault} :
    Message.parse source = .error f ↔ Message.read? source = none ∧ f = .unbalancedTags source := by
  unfold Message.parse
  cases Message.read? source with
  | some m => simp
  | none => simp [eq_comm]

end Phrasebook
