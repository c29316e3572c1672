import Phrasebook.Fault
import Phrasebook.Plural.Locale

/-!
# Plural forms of a text

A plural text holds the forms of its locale one after the other, with a bar between them, in the order of their numbers. As many
forms must be given as the locale needs: `PluralForms` is a text split into forms of which this is known, so that the form for any
count can be picked from it.
-/

namespace Phrasebook

/-- The bar between two forms. -/
def formBar : UInt8 := 124

/-- The forms of a text: what stands before, between and after its bars. A text without a bar is one form. -/
def splitForms (text : Bytes) : List Bytes := text.splitOn formBar

/-- Forms of a family, as many as it has. -/
structure PluralForms where
  family : Family
  forms : List Bytes
  length_forms : forms.length = family.formCount

/-- The forms of the text of an entry in a locale. The locale is looked at first, then the number of forms. -/
def PluralForms.ofText (key locale text : Bytes) : Except Fault PluralForms :=
  match familyOf? locale with
  | none => .error (.unknownLocale locale)
  | some family =>
    let forms := splitForms text
    if h : forms.length = family.formCount then .ok ⟨family, forms, h⟩
    else .error (.formCount key locale text forms.length family.formCount)

/-- The form for a count, without the blanks at its ends. -/
def PluralForms.select (p : PluralForms) (n : Int) : Bytes :=
  Bytes.trim (p.forms.get ⟨p.family.form n, p.length_forms ▸ p.family.form_lt_formCount n⟩)

/-- Whether a text has the forms that a locale needs, and the fault if it has not. -/
def checkForms (key locale text : Bytes) : Except Fault Unit := (PluralForms.ofText key locale text).map (fun _ => ())

/-- Where plural rules are known, the fault can only be that the number of forms is not the one needed. -/
theorem checkForms_eq {locale : Bytes} (h : hasPluralRules locale = true) (key text : Bytes) :
    checkForms key locale text =
      if (splitForms text).length = formCount locale then .ok ()
      else .error (.formCount key locale text (splitForms text).length (formCount locale)) := by
  obtain ⟨family, hf⟩ := Option.isSome_iff_exists.mp h
  simp only [checkForms, PluralForms.ofText, formCount, hf]
  split
  · rfl
  · rfl

/-- The form of a text for a count. -/
def selectForm (key locale text : Bytes) (n : Int) : Except Fault Bytes :=
  (PluralForms.ofText key locale text).map (fun p => p.select n)

/-- Joined by bars, the forms of a text are the text. -/
theorem intercalate_splitForms (text : Bytes) : [formBar].intercalate (splitForms text) = text :=
  List.intercalate_splitOn formBar

end Phrasebook
