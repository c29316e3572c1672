import Phrasebook.Number.Numeral

/-!
# Faults and their codes

What can go wrong with a message is a `Fault`: a cause with the texts it speaks of. Its wording (`Fault.message`), the one text
a caller may want to look at (`Fault.detail`) and its number among the error codes (`Fault.code`) are read off the cause. A
`Diagnostic` is the record that such a report is kept in.
-/

namespace Phrasebook

/-- The error codes, which are bytes. Six of them have a meaning; every other byte is a code too, without a meaning. -/
inductive ErrorCode where
  | none
  | unbalancedTags
  | missingValue
  | pluralFormCountMismatch
  | unknownLocale
  | catalog
  | unassigned (number : UInt8)
  deriving DecidableEq, Repr

/-- The number of a code. -/
def ErrorCode.number : ErrorCode → UInt8
  | .none => 0
  | .unbalancedTags => 1
  | .missingValue => 2
  | .pluralFormCountMismatch => 3
  | .unknownLocale => 4
  | .catalog => 5
  | .unassigned n => n

/-- The code of a number. -/
def ErrorCode.ofNumber : UInt8 → ErrorCode
  | 0 => .none
  | 1 => .unbalancedTags
  | 2 => .missingValue
  | 3 => .pluralFormCountMismatch
  | 4 => .unknownLocale
  | 5 => .catalog
  | n => .unassigned n

/-- The name of a code. -/
def ErrorCode.name : ErrorCode → String
  | .none => "none"
  | .unbalancedTags => "unbalanced_tags"
  | .missingValue => "missing_value"
  | .pluralFormCountMismatch => "plural_form_count_mismatch"
  | .unknownLocale => "unknown_locale"
  | .catalog => "catalog"
  | .unassigned _ => "unknown"

/-- Every number is the number of its code. -/
@[simp] theorem ErrorCode.number_ofNumber (n : UInt8) : (ErrorCode.ofNumber n).number = n := by
  unfold ErrorCode.ofNumber
  split <;> rfl

/-- Why a message could not be read, chosen or rendered. -/
inductive Fault where
  /-- The tags of a source are not properly nested. -/
  | unbalancedTags (source : Bytes)
  /-- A node names a value that is not given. -/
  | missingValue (name : Bytes)
  /-- The text of an entry does not hold as many plural forms as its locale needs. -/
  | formCount (key locale text : Bytes) (given needed : Nat)
  /-- No plural rules are known for a locale. -/
  | unknownLocale (locale : Bytes)
  deriving DecidableEq, Repr

/-- The code of a fault. -/
def Fault.code : Fault → ErrorCode
  | .unbalancedTags _ => .unbalancedTags
  | .missingValue _ => .missingValue
  | .formCount .. => .pluralFormCountMismatch
  | .unknownLocale _ => .unknownLocale

/-- The wording of a fault. -/
def Fault.message : Fault → Bytes
  | .unbalancedTags source => utf8 "String has unbalanced tags: " ++ source
  | .missingValue name => utf8 "Missing value for node " ++ name
  | .formCount key locale text given needed =>
    [utf8 "Invalid plural string \"", key, utf8 "\" for locale ", locale, utf8 ": ", numeral given, utf8 " given; need: ",
      numeral needed, utf8 " (\"", text, utf8 "\")"].flatten
  | .unknownLocale locale => utf8 "Unsupported plural locale: " ++ locale

/-- The text a fault is about: the source, the missing name, the text of the forms, the locale. -/
def Fault.detail : Fault → Bytes
  | .unbalancedTags source => source
  | .missingValue name => name
  | .formCount _ _ text _ _ => text
  | .unknownLocale locale => locale

/-- A report of an error: its code, its wording and the text it is about. It starts out as the report of no error. -/
structure Diagnostic where
  code : ErrorCode := .none
  message : Bytes := []
  detail : Bytes := []
  deriving DecidableEq, Repr

/-- A diagnostic reports no error when its code says so, whatever its texts are. -/
def Diagnostic.ok (d : Diagnostic) : Bool := d.code == .none

/-- The report of a fault. -/
def Fault.diagnostic (f : Fault) : Diagnostic := ⟨f.code, f.message, f.detail⟩

theorem Fault.diagnostic_not_ok (f : Fault) : f.diagnostic.ok = false := by
  cases f <;> rfl

end Phrasebook
