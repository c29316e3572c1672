import Phrasebook.Number.Rounding

/-!
# Numbers of the binary64 format

A real value is a word of 64 bits: the sign, eleven bits of a biased exponent and 52 bits of a fraction. `Binary64.reading` says
what the word stands for, and the two texts are computed from that reading exactly:

* `Binary64.text`, the text of a real value in a message: whole numbers below `10 ^ 15` in magnitude in full, all others with
  15 significant digits;
* `Binary64.brief`, the text of a real result of a function: six significant digits throughout.
-/

namespace Phrasebook

/-- A number of the binary64 format, by its bits. -/
structure Binary64 where
  bits : UInt64
  deriving DecidableEq, Repr

namespace Binary64

/-- What the bits stand for: no number, an infinity, or plus or minus `significand * 2 ^ exponent`. -/
inductive Reading where
  | nan (negative : Bool)
  | infinite (negative : Bool)
  | finite (negative : Bool) (significand : Nat) (exponent : Int)
  deriving DecidableEq, Repr

/-- The sign bit. -/
def negative (x : Binary64) : Bool := x.bits.toNat / Nat.pow 2 63 == 1

/-- The eleven bits of the exponent. -/
def biasedExponent (x : Binary64) : Nat := x.bits.toNat / Nat.pow 2 52 % Nat.pow 2 11

/-- The 52 bits of the fraction. -/
def fraction (x : Binary64) : Nat := x.bits.toNat % Nat.pow 2 52

/-- The greatest exponent marks infinity and, with a fraction, no number; the least one marks the numbers without a leading one. -/
def reading (x : Binary64) : Reading :=
  if x.biasedExponent = 2047 then
    if x.fraction = 0 then .infinite x.negative else .nan x.negative
  else if x.biasedExponent = 0 then .finite x.negative x.fraction (-1074)
  else .finite x.negative (Nat.pow 2 52 + x.fraction) (x.biasedExponent - 1075)

end Binary64

/-! ## The two texts -/

/-- The numerator and the denominator of `significand * 2 ^ exponent`. -/
def dyadic (significand : Nat) (exponent : Int) : Nat × Nat :=
  if 0 ≤ exponent then (significand * Nat.pow 2 exponent.toNat, 1) else (significand, Nat.pow 2 (-exponent).toNat)

/-- A minus sign for a negative number. -/
def signed (negative : Bool) (s : Bytes) : Bytes := if negative then 45 :: s else s

/-- The general form, to a number of significant digits, of plus or minus `significand * 2 ^ exponent`; zero is written as one
digit, with its sign. -/
def generalText (precision : Nat) (negative : Bool) (significand : Nat) (exponent : Int) : Bytes :=
  let (num, den) := dyadic significand exponent
  signed negative (if num = 0 then [48] else (Decimal.round precision num den).general precision)

/-- The whole number that `significand * 2 ^ exponent` is, if it is one. -/
def whole? (significand : Nat) (exponent : Int) : Option Nat :=
  let (num, den) := dyadic significand exponent
  if num % den = 0 then some (num / den) else none

namespace Binary64

/-- How many significant digits the text of a real value has. -/
def textPrecision : Nat := 15

/-- How many significant digits the text of a real result has. -/
def briefPrecision : Nat := 6

/-- The whole number that a number of the format is, when it is one below `10 ^ 15` in magnitude; zero has no sign here. -/
def shortWhole? (negative : Bool) (significand : Nat) (exponent : Int) : Option Int :=
  match whole? significand exponent with
  | some n => if n < Nat.pow 10 textPrecision then some (if negative then -n else n) else none
  | none => none

/-- The text of a real value: whole numbers below `10 ^ 15` in full, all other numbers in general form with 15 digits. -/
def text (x : Binary64) : Bytes :=
  match x.reading with
  | .nan _ => utf8 "NaN"
  | .infinite negative => signed negative (utf8 "Infinity")
  | .finite negative m e =>
    match shortWhole? negative m e with
    | some n => signedNumeral n
    | none => generalText textPrecision negative m e

/-- The text of a real result: general form with six digits, sign of zero included. -/
def brief (x : Binary64) : Bytes :=
  match x.reading with
  | .nan negative => signed negative (utf8 "nan")
  | .infinite negative => signed negative (utf8 "inf")
  | .finite negative m e => generalText briefPrecision negative m e

end Binary64

end Phrasebook
