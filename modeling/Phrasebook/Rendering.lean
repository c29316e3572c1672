import Phrasebook.Message.Reader
import Phrasebook.Value

/-!
# Rendering

Every node of a message becomes one part. A run of text becomes itself; any other node becomes the value its name is bound to: a
function is applied to the text of the node's children (no text for a node without children) and its result is a part of its own,
every other value gives its text. Children are rendered first, and are rendered even where the value makes no use of them, so a
message can be rendered just when the name of every node in it is bound, at any depth.
-/

namespace Phrasebook

variable {α : Type}

/-- A part of a rendered message: text, or the result of a function. -/
inductive Part (α : Type) where
  | text (content : Bytes)
  | value (result : α)
  deriving DecidableEq, Repr

/-- The text of a part. -/
def Part.toText [TextForm α] : Part α → Bytes
  | .text content => content
  | .value result => textForm result

/-- The text of parts in their order. -/
def joined [TextForm α] : List (Part α) → Bytes
  | [] => []
  | [p] => p.toText
  | p :: ps => p.toText ++ joined ps

/-- The text of parts is the text of each, one after the other. -/
theorem joined_eq_flatMap [TextForm α] (parts : List (Part α)) : joined parts = parts.flatMap Part.toText := by
  fun_induction joined parts with
  | case1 => rfl
  | case2 p => simp
  | case3 p ps _ ih => rw [ih, List.flatMap_cons]

/-- What a value makes of the text of the children. -/
def Value.part (children : Bytes) : Value α → Part α
  | .function f => .value (f children)
  | v => .text v.toText

/-- What a node of a name becomes, with the text of its children; the name must be bound. -/
def Values.part (vs : Values α) (name children : Bytes) : Except Fault (Part α) :=
  match vs.find? name with
  | some v => .ok (v.part children)
  | none => .error (.missingValue name)

mutual

/-- The part that a node becomes. -/
def Node.render [TextForm α] (vs : Values α) : Node → Except Fault (Part α)
  | .text content => .ok (.text content)
  | .tag name children =>
    match Message.render vs children with
    | .ok parts => vs.part name (joined parts)
    | .error f => .error f
  | .voidTag name => vs.part name []
  | .placeholder name => vs.part name []

/-- The parts that the nodes of a message become, one each and in their order; the first fault stops it. -/
def Message.render [TextForm α] (vs : Values α) : Message → Except Fault (List (Part α))
  | [] => .ok []
  | n :: ns =>
    match n.render vs with
    | .error f => .error f
    | .ok part =>
      match Message.render vs ns with
      | .ok parts => .ok (part :: parts)
      | .error f => .error f

end

/-- The text of a rendered message. -/
def Message.renderText (vs : Values Bytes) (m : Message) : Except Fault Bytes := (Message.render vs m).map joined

/-- The text of a source: read, then rendered. -/
def renderSource (vs : Values Bytes) (source : Bytes) : Except Fault Bytes :=
  match Message.parse source with
  | .ok m => m.renderText vs
  | .error f => .error f

/-- A rendered message has one part for each of its nodes. -/
theorem Message.length_render [TextForm α] (vs : Values α) (m : Message) (parts : List (Part α))
    (h : Message.render vs m = .ok parts) : parts.length = m.length := by
  induction m generalizing parts with
  | nil =>
    rw [Message.render] at h
    cases h
    rfl
  | cons n ns ih =>
    rw [Message.render] at h
    split at h
    · cases h
    · split at h
      · rename_i ps hps
        cases h
        simp [ih ps hps]
      · cases h

end Phrasebook
