import Phrasebook.Catalog.Basic
import Phrasebook.Message.Reader
import Phrasebook.Plural.Forms
import Phrasebook.Structure

/-!
# Checking a catalog against a base

A catalog is meant to say in its locale what a base says in another, and is checked entry by entry of the base, in the order of ids.
It must have the entry; where the base has plural forms, it must have as many as its locale needs; any other message of it must have
the structure of the message of the base. That its locale has no plural rules is said once, at the first plural entry of the base
that it has. What it has beyond the base is a warning. `Catalog.check` collects the findings, and `Report.lines` writes them.
-/

namespace Phrasebook

/-- An error found in a catalog. -/
inductive Finding where
  /-- The catalog does not have an entry of the base. -/
  | missing (id : Bytes)
  /-- The base has a plural entry, and no plural rules are known for the locale of the catalog. -/
  | noPluralRules (locale : Bytes)
  /-- The message of the base cannot be read. -/
  | unreadableBase (id : Bytes) (fault : Fault)
  /-- The message of the catalog cannot be read, or does not have the forms it needs. -/
  | faulty (id : Bytes) (fault : Fault)
  /-- The message of the catalog does not have the structure of the message of the base. -/
  | differs (id : Bytes) (mismatch : Mismatch)
  deriving Repr

/-- The wording of a finding. -/
def Finding.message : Finding → Bytes
  | .missing id => id ++ utf8 ": missing translation"
  | .noPluralRules locale => [utf8 "locale '", locale, utf8 "' has no plural rules"].flatten
  | .unreadableBase id f => [id, utf8 ": base message does not parse: ", f.message].flatten
  | .faulty id f => [id, utf8 ": ", f.message].flatten
  | .differs id m => [id, utf8 ": structure differs from base, ", m.message].flatten

/-- What is wrong with a text, given the entry of the base that it answers and a locale with plural rules. -/
def Entry.finding? (base : Entry) (locale text : Bytes) : Option Finding :=
  if base.isPlural then
    match checkForms base.id locale text with
    | .ok () => none
    | .error f => some (.faulty base.id f)
  else
    match Message.parse base.text, Message.parse text with
    | .error f, _ => some (.unreadableBase base.id f)
    | .ok _, .error f => some (.faulty base.id f)
    | .ok m, .ok m' => (m.mismatch? m').map (.differs base.id)

namespace Catalog

/-- The findings on the entries of a base, given whether it was already said that the locale has no plural rules. -/
def findings (c : Catalog) (said : Bool) : List Entry → List Finding
  | [] => []
  | base :: rest =>
    match c.find? base.id with
    | none => .missing base.id :: c.findings said rest
    | some e =>
      if base.isPlural && !hasPluralRules c.pluralLocale then
        if said then c.findings true rest else .noPluralRules c.pluralLocale :: c.findings true rest
      else (base.finding? c.pluralLocale e.text).toList ++ c.findings said rest

end Catalog

/-! ## Reports -/

/-- The report of a check: how many entries the base has, the errors, and the ids that only the catalog has. -/
structure Report where
  messages : Nat
  errors : List Finding
  extra : List Bytes
  deriving Repr

namespace Report

/-- The line around the findings. -/
def rule : Bytes := List.replicate 30 45 ++ [lineFeed]

/-- The line of an error. -/
def errorLine (f : Finding) : Bytes := [utf8 "ERROR ", f.message, [lineFeed]].flatten

/-- The line of a warning. -/
def warningLine (id : Bytes) : Bytes := [utf8 "WARN ", id, utf8 ": not present in base catalog\n"].flatten

/-- A line of the summary. -/
def tally (what : String) (n : Nat) : Bytes := [utf8 what, utf8 ": ", numeral n, [lineFeed]].flatten

/-- The last line of a report. -/
def verdict (r : Report) : Bytes :=
  if r.errors ≠ [] then utf8 "CHECK: FAIL\n"
  else if r.extra ≠ [] then utf8 "CHECK: OK (with warnings)\n"
  else utf8 "CHECK: OK\n"

/-- The lines of a report: the errors, the warnings, the summary and the verdict. -/
def lines (r : Report) : List Bytes :=
  [utf8 "CHECK: REPORT\n", rule] ++ r.errors.map errorLine ++ r.extra.map warningLine ++
    [rule, tally "Messages" r.messages, tally "Warnings" r.extra.length, tally "Errors" r.errors.length, r.verdict]

/-- The report in writing. -/
def text (r : Report) : Bytes := r.lines.flatten

/-- The number of a report: 3 when there are errors, otherwise 0. -/
def code (r : Report) : Nat := if r.errors ≠ [] then 3 else 0

end Report

/-- The outcome of a check: there is nothing to check, or a report. -/
inductive Check where
  | unusable
  | report (r : Report)
  deriving Repr

/-- The number of a check: that of its report, and 2 when there is nothing to check. -/
def Check.code : Check → Nat
  | .unusable => 2
  | .report r => r.code

/-- A check in writing. -/
def Check.text : Check → Bytes
  | .unusable => utf8 "CHECK: FAIL\nReason: catalog is empty or not loaded.\n"
  | .report r => r.text

/-- Checks a catalog against a base. There is nothing to check when one of the two is empty. -/
def Catalog.check (c base : Catalog) : Check :=
  if c.isEmpty || base.isEmpty then .unusable
  else
    .report
      { messages := base.size
        errors := c.findings false base.entries.toList
        extra := (c.entries.toList.map Entry.id).filter (fun id => !base.has id) }

end Phrasebook
