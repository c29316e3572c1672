import Phrasebook.Number.Numeral

/-!
# Rounding to significant digits

A positive rational `num / den` written with a fixed number of significant digits: the decade it lies in, the quotient by the
unit of the last digit rounded to the nearest whole number, a tie to the even one, and the carry into the next decade when the
digits overflow. All of it is exact arithmetic on natural numbers.
-/

namespace Phrasebook

/-- The quotient rounded to the nearest natural number; a quotient halfway between two goes to the even one. -/
def roundDiv (num den : Nat) : Nat :=
  let q := num / den
  let r := num % den
  if 2 * r < den then q else if den < 2 * r then q + 1 else q + q % 2

/-- The decade of a positive rational: the exponent `e` with `10 ^ e ≤ num / den < 10 ^ (e + 1)`. From one up it is told by the
digits of the whole part, below one by the digits of the whole part of the inverse (less a trifle, so that an exact power of
ten keeps its own decade). -/
def decade (num den : Nat) : Int :=
  if den ≤ num then ((numeral (num / den)).length : Int) - 1 else -((numeral ((den - 1) / num)).length : Int)

/-- A decimal: the first digit of `significand` stands at `10 ^ exponent`, the others follow it downwards. -/
structure Decimal where
  significand : Nat
  exponent : Int
  deriving DecidableEq, Repr

/-- The rational `num / den` in units of `10 ^ unit`, rounded to a whole number of them. -/
def roundToUnit (num den : Nat) (unit : Int) : Nat :=
  if 0 ≤ unit then roundDiv num (den * Nat.pow 10 unit.toNat) else roundDiv (num * Nat.pow 10 (-unit).toNat) den

/-- A positive rational rounded to a number of significant digits. Rounding may carry into the next decade, and the digits are
then a one and zeros. -/
def Decimal.round (precision num den : Nat) : Decimal :=
  let e := decade num den
  let n := roundToUnit num den (e - (precision - 1 : Int))
  if n = Nat.pow 10 precision then ⟨Nat.pow 10 (precision - 1), e + 1⟩ else ⟨n, e⟩

/-- A whole part and a fraction, the zeros at the end of the fraction left out, and the point too when nothing is left. -/
def withFraction (whole fraction : Bytes) : Bytes :=
  match (fraction.reverse.dropWhile (· == 48)).reverse with
  | [] => whole
  | f => whole ++ 46 :: f

/-- A decimal with an exponent: one digit before the point, the others after it, and a signed exponent of at least two digits. -/
def Decimal.scientific (d : Decimal) : Bytes :=
  let digits := numeral d.significand
  let e := numeral d.exponent.natAbs
  withFraction (digits.take 1) (digits.drop 1) ++
    [101, if d.exponent < 0 then 45 else 43] ++ List.replicate (2 - e.length) 48 ++ e

/-- A decimal without an exponent. -/
def Decimal.positional (d : Decimal) : Bytes :=
  let digits := numeral d.significand
  if d.exponent < 0 then withFraction [48] (List.replicate (d.exponent.natAbs - 1) 48 ++ digits)
  else withFraction (digits.take (d.exponent.toNat + 1)) (digits.drop (d.exponent.toNat + 1))

/-- The general form of a decimal: with an exponent when the first digit stands below the fourth place after the point or when
the digits do not reach down to the units, and without one otherwise. -/
def Decimal.general (precision : Nat) (d : Decimal) : Bytes :=
  if d.exponent < -4 ∨ (precision : Int) ≤ d.exponent then d.scientific else d.positional

end Phrasebook
