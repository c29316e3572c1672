import Phrasebook.Bytes

/-!
# Plural families

Languages that count alike form a family. A family has a number of forms, numbered from zero, and a rule that says which form goes
with a count; form 0 is the form for the count zero in every family. Remainders have the sign of the count, so a negative count
never meets a condition on a positive remainder. `Family.form_lt_formCount` says that the rule never names a form that the family
does not have.
-/

namespace Phrasebook

/-- The families, most of them named for a language that counts that way. -/
inductive Family where
  | uniform
  | oneOther
  | zeroOne
  | slavic
  | czech
  | irish
  | lithuanian
  | slovenian
  | macedonian
  | maltese
  | latvian
  | polish
  | welsh
  | romanian
  | arabic
  deriving DecidableEq, Repr

namespace Family

/-- All families. -/
def all : List Family :=
  [uniform, oneOther, zeroOne, slavic, czech, irish, lithuanian, slovenian, macedonian, maltese, latvian, polish, welsh, romanian,
    arabic]

/-- The languages of a family, by their codes. -/
def locales : Family → List String
  | uniform => ["az", "bo", "dz", "id", "ja", "jv", "ka", "km", "kn", "ko", "ms", "th", "tr", "vi", "zh"]
  | oneOther =>
    ["af", "bn", "bg", "ca", "da", "de", "el", "en", "eo", "es", "et", "eu", "fa", "fi", "fo", "fur", "fy", "gl", "gu", "ha", "he",
      "hu", "is", "it", "ku", "lb", "ml", "mn", "mr", "nah", "nb", "ne", "nl", "nn", "no", "oc", "om", "or", "pa", "pap", "ps",
      "pt", "so", "sq", "sv", "sw", "ta", "te", "tk", "ur", "zu"]
  | zeroOne => ["am", "bh", "fil", "fr", "gun", "hi", "hy", "ln", "mg", "nso", "xbr", "ti", "wa"]
  | slavic => ["be", "bs", "hr", "ru", "sr", "uk"]
  | czech => ["cs", "sk"]
  | irish => ["ga"]
  | lithuanian => ["lt"]
  | slovenian => ["sl"]
  | macedonian => ["mk"]
  | maltese => ["mt"]
  | latvian => ["lv"]
  | polish => ["pl"]
  | welsh => ["cy"]
  | romanian => ["ro"]
  | arabic => ["ar"]

/-- How many forms a family has. -/
def formCount : Family → Nat
  | uniform | zeroOne => 2
  | oneOther | macedonian | latvian => 3
  | slavic | czech | irish | lithuanian | polish | welsh | romanian => 4
  | slovenian | maltese => 5
  | arabic => 6

/-- The form for a count other than zero. -/
def formOfNonzero (f : Family) (n : Int) : Nat :=
  let units := n.tmod 10
  let hundredth := n.tmod 100
  match f with
  | uniform => 1
  | oneOther => if n = 1 then 1 else 2
  | zeroOne => if n = 1 then 0 else 1
  | slavic =>
    if units = 1 ∧ hundredth ≠ 11 then 1
    else if 2 ≤ units ∧ units ≤ 4 ∧ (hundredth < 10 ∨ 20 ≤ hundredth) then 2
    else 3
  | czech => if n = 1 then 1 else if 2 ≤ n ∧ n ≤ 4 then 2 else 3
  | irish => if n = 1 then 1 else if n = 2 then 2 else 3
  | lithuanian =>
    if units = 1 ∧ hundredth ≠ 11 then 1
    else if 2 ≤ units ∧ (hundredth < 10 ∨ 20 ≤ hundredth) then 2
    else 3
  | slovenian =>
    if hundredth = 1 then 1 else if hundredth = 2 then 2 else if hundredth = 3 ∨ hundredth = 4 then 3 else 4
  | macedonian => if units = 1 then 1 else 2
  | maltese =>
    if n = 1 then 1
    else if 1 < hundredth ∧ hundredth < 11 then 2
    else if 10 < hundredth ∧ hundredth < 20 then 3
    else 4
  | latvian => if units = 1 ∧ hundredth ≠ 11 then 1 else 2
  | polish =>
    if n = 1 then 1
    else if 2 ≤ units ∧ units ≤ 4 ∧ (hundredth < 12 ∨ 14 < hundredth) then 2
    else 3
  | welsh => if n = 1 then 0 else if n = 2 then 1 else if n = 8 ∨ n = 11 then 2 else 3
  | romanian => if n = 1 then 1 else if 0 < hundredth ∧ hundredth < 20 then 2 else 3
  | arabic =>
    if n = 1 then 1
    else if n = 2 then 2
    else if 3 ≤ hundredth ∧ hundredth ≤ 10 then 3
    else if 11 ≤ hundredth ∧ hundredth ≤ 99 then 4
    else 5

/-- The form for a count. -/
def form (f : Family) (n : Int) : Nat := if n = 0 then 0 else f.formOfNonzero n

/-- The form for a count is one of the forms of the family. -/
theorem form_lt_formCount (f : Family) (n : Int) : f.form n < f.formCount := by
  unfold form
  split
  · cases f <;> decide
  · cases f <;> simp only [formOfNonzero, formCount] <;> repeat' split
    all_goals decide

theorem mem_all (f : Family) : f ∈ all := by
  cases f <;> decide

end Family

end Phrasebook
