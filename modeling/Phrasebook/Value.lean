import Phrasebook.Number.Binary64

/-!
# Values

A value takes the place of the nodes that bear its name. It is a text, a number, or a function from the rendered children of the
node to a result of any type. `Values` binds names to values; the binding made last is the one that counts.
-/

namespace Phrasebook

/-- A value, with functions into `α`. -/
inductive Value (α : Type) where
  | text (content : Bytes)
  | integer (n : Int)
  | unsigned (n : Nat)
  | real (x : Binary64)
  | function (f : Bytes → α)

namespace Value

variable {α : Type}

/-- The name of the kind of a value. -/
def kindName : Value α → String
  | text _ => "text"
  | integer _ => "integer"
  | unsigned _ => "unsigned"
  | real _ => "real"
  | function _ => "function"

/-- Whether a value is a function. -/
def isFunction : Value α → Bool
  | function _ => true
  | _ => false

/-- The text of a value; a function has none. -/
def toText : Value α → Bytes
  | text content => content
  | integer n => signedNumeral n
  | unsigned n => numeral n
  | real x => x.text
  | function _ => []

end Value

/-- Names bound to values, the last binding first. -/
abbrev Values (α : Type) : Type := List (Bytes × Value α)

namespace Values

variable {α : Type}

/-- The value a name is bound to. -/
def find? (vs : Values α) (name : Bytes) : Option (Value α) := vs.lookup name

/-- Binds a name; a value it was bound to before is out of sight. -/
def bind (vs : Values α) (name : Bytes) (v : Value α) : Values α := (name, v) :: vs

/-- Binds a name unless it is bound. -/
def bindIfFree (vs : Values α) (name : Bytes) (v : Value α) : Values α :=
  match vs.find? name with
  | some _ => vs
  | none => vs.bind name v

/-- The bindings of a list of pairs, made in its order. -/
def ofList (pairs : List (Bytes × Value α)) : Values α := pairs.foldl (fun vs p => vs.bind p.1 p.2) []

@[simp] theorem find?_nil (name : Bytes) : find? ([] : Values α) name = none := rfl

/-- A bound name has the value it was bound to last, and no other name is affected. -/
theorem find?_bind (vs : Values α) (name : Bytes) (v : Value α) (x : Bytes) :
    (vs.bind name v).find? x = if x = name then some v else vs.find? x := by
  by_cases h : x = name
  · simp [find?, bind, h]
  · simp [find?, bind, h, List.lookup_cons, beq_eq_false_iff_ne.mpr h]

/-- A value given only where none is bound yields to the one that is. -/
theorem find?_bindIfFree (vs : Values α) (name : Bytes) (v : Value α) (x : Bytes) :
    (vs.bindIfFree name v).find? x = if x = name then some ((vs.find? name).getD v) else vs.find? x := by
  unfold bindIfFree
  cases h : vs.find? name with
  | some w =>
    by_cases hx : x = name
    · simp [hx, h]
    · simp [hx]
  | none => simp [find?_bind]

end Values

/-! ## Results of functions -/

/-- A type of results that have a text. -/
class TextForm (α : Type) where
  textForm : α → Bytes

export TextForm (textForm)

/-- A text is its own text. -/
instance : TextForm Bytes := ⟨id⟩

/-- The text of a whole number is its numeral. -/
instance : TextForm Int := ⟨signedNumeral⟩

/-- The text of a real result is the brief one. -/
instance : TextForm Binary64 := ⟨Binary64.brief⟩

/-- A link: where it leads and what it shows. -/
structure Link where
  target : Bytes
  label : Bytes
  deriving DecidableEq, Repr

/-- The text of a link is its label in brackets and its target in parentheses. -/
instance : TextForm Link := ⟨fun l => utf8 "[" ++ l.label ++ utf8 "](" ++ l.target ++ utf8 ")"⟩

end Phrasebook
