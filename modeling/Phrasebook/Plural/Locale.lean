import Phrasebook.Plural.Family

/-!
# Locales

A locale is a language code, in any mixture of cases, with or without a region or script behind a hyphen or an underscore. Only the
language counts: `pt-BR`, `PT_br` and `pt` are the same locale to every function here.
-/

namespace Phrasebook

/-- The language of a locale: what stands before the first hyphen or underscore, in lower case. -/
def normalizeLocale (locale : Bytes) : Bytes := Bytes.lower (locale.takeWhile (fun b => b != 45 && b != 95))

/-- The languages with plural rules, each with its family. -/
def languages : List (Bytes × Family) := Family.all.flatMap (fun f => f.locales.map (fun l => (utf8 l, f)))

/-- The family of a locale, if plural rules are known for its language. -/
def familyOf? (locale : Bytes) : Option Family := languages.lookup (normalizeLocale locale)

/-- Whether plural rules are known for a locale. -/
def hasPluralRules (locale : Bytes) : Bool := (familyOf? locale).isSome

/-- The languages with plural rules, in increasing order. -/
def supportedLanguages : List Bytes := (languages.map (·.1)).mergeSort (fun a b => decide (a ≤ b))

/-- How many plural forms a locale needs, and zero when no plural rules are known for it. -/
def formCount (locale : Bytes) : Nat :=
  match familyOf? locale with
  | some f => f.formCount
  | none => 0

/-- Which plural form of a locale goes with a count, if plural rules are known for it. -/
def formIndex? (locale : Bytes) (n : Int) : Option Nat := (familyOf? locale).map (fun f => f.form n)

end Phrasebook
