import Phrasebook.Catalog.Basic
import Phrasebook.Plural.Forms
import Phrasebook.Rendering

/-!
# The phrase of an id

The phrase of an id is the rendering of its message; of an id that the catalog does not have it is a marker that shows the id. For a
count, the form of the message is chosen first, by the count alone; the count is also given as a value under the name `count`,
unless the caller binds that name.
-/

namespace Phrasebook

/-- The marker shown for an id that a catalog does not have: the id in white square brackets. -/
def missingMarker (id : Bytes) : Bytes := [utf8 "⟦", id, utf8 "⟧"].flatten

/-- The name under which a count is given. -/
def countName : Bytes := utf8 "count"

/-- The values for a count: the caller's, and the count where the caller does not bind its name. -/
def Values.withCount (vs : Values Bytes) (n : Int) : Values Bytes := vs.bindIfFree countName (.integer n)

namespace Catalog

/-- The phrase of an id. -/
def phrase (c : Catalog) (id : Bytes) (vs : Values Bytes) : Except Fault Bytes :=
  match c.message? id with
  | none => .ok (missingMarker id)
  | some source => renderSource vs source

/-- The phrase of an id for a count. -/
def phraseForCount (c : Catalog) (id : Bytes) (n : Int) (vs : Values Bytes) : Except Fault Bytes :=
  match c.message? id with
  | none => .ok (missingMarker id)
  | some text =>
    match selectForm id c.pluralLocale text n with
    | .error f => .error f
    | .ok source => renderSource (vs.withCount n) source

end Catalog

end Phrasebook
