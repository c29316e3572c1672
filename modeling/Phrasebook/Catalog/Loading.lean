import Phrasebook.Catalog.Line
import Phrasebook.Fault

/-!
# Loading a catalog

A source is loaded line by line into an empty catalog. Settings come first: once there is an entry, they are out of place. In strict
mode a line out of place, a setting of an unknown key and a malformed line are faults; in lenient mode such lines are passed over.
An id may not be given twice in either mode. A fault ends the loading, and what was loaded up to there stays. A source must bring at
least one entry, and an empty source is no source: it leaves the catalog as it was.
-/

namespace Phrasebook

/-- Why a source could not be loaded, with the number of the line, counted from one, that is at fault. -/
inductive LoadFault where
  | emptySource
  | settingAfterEntries (line : Nat)
  | unknownSetting (line : Nat) (key : Bytes)
  | malformedLine (line : Nat) (why : Malformed)
  | duplicateId (line : Nat) (id : Bytes)
  | noEntry
  deriving DecidableEq, Repr

/-- The wording of a fault of loading. -/
def LoadFault.message : LoadFault → Bytes
  | .emptySource => utf8 "src is empty"
  | .settingAfterEntries line => utf8 "Meta line after entries at line " ++ numeral line
  | .unknownSetting line key => utf8 "Unknown meta key '" ++ key ++ utf8 "' at line " ++ numeral line
  | .malformedLine line why => utf8 "Parse error at line " ++ numeral line ++ utf8 ": " ++ why.message
  | .duplicateId line id => utf8 "Duplicate id at line " ++ numeral line ++ utf8 ": " ++ id
  | .noEntry => utf8 "No valid entry loaded (empty catalog?)"

/-- The metadata with one setting made, if its key is known. -/
def Metadata.set? (m : Metadata) (key value : Bytes) : Option Metadata :=
  if key = utf8 "locale" then some { m with locale := value }
  else if key = utf8 "fallback" then some { m with fallback := value }
  else if key = utf8 "note" then some { m with note := value }
  else none

namespace Catalog

/-- The catalog after one more line of its source, the line of a number. -/
def addLine (strict : Bool) (number : Nat) (c : Catalog) : Line → Except LoadFault Catalog
  | .idle => .ok c
  | .setting key value =>
    if c.isEmpty then
      match c.metadata.set? key value with
      | some m => .ok { c with metadata := m }
      | none => if strict then .error (.unknownSetting number key) else .ok c
    else if strict then .error (.settingAfterEntries number)
    else .ok c
  | .entry e => if c.has e.id then .error (.duplicateId number e.id) else .ok { c with entries := c.entries.insert e }
  | .malformed why => if strict then .error (.malformedLine number why) else .ok c

/-- The catalog after the lines of its source from a number on, and the fault that ended the loading, if one did. -/
def addLines (strict : Bool) (number : Nat) (c : Catalog) : List Bytes → Catalog × Option LoadFault
  | [] => (c, if c.isEmpty then some .noEntry else none)
  | raw :: rest =>
    match c.addLine strict number (.read raw) with
    | .ok c' => addLines strict (number + 1) c' rest
    | .error f => (c, some f)

end Catalog

/-- The mark of UTF-8 that a source may start with. -/
def byteOrderMark : Bytes := [0xEF, 0xBB, 0xBF]

/-- The lines of a source, without the mark of UTF-8. -/
def sourceLines (source : Bytes) : List Bytes :=
  (if byteOrderMark.isPrefixOf source then source.drop byteOrderMark.length else source).splitOn lineFeed

/-- The catalog after loading a source, and the fault that ended the loading, if one did. -/
def Catalog.load (strict : Bool) (c : Catalog) (source : Bytes) : Catalog × Option LoadFault :=
  if source = [] then (c, some .emptySource) else Catalog.addLines strict 1 {} (sourceLines source)

/-- What was in a catalog before has no influence on loading a source that is not empty. -/
theorem Catalog.load_eq_load (strict : Bool) (c d : Catalog) {source : Bytes} (h : source ≠ []) :
    c.load strict source = d.load strict source := by
  simp [Catalog.load, h]

end Phrasebook
