/-!
Double-precision numbers, as exact integers: a significand below `2 ^ 53` times a power of two not
below `2 ^ (-1074)`. A decimal rounds to the nearest of them, a half to the even significand, and
to infinity once it is past the largest by half a step.
-/

set_option autoImplicit false
set_option relaxedAutoImplicit false

namespace CountTree

/-- A decimal `digits * 10 ^ exponent` with a sign of its own. -/
structure Decimal where
  negative : Bool
  digits : Nat
  exponent : Int
deriving DecidableEq, Repr

inductive Double where
  | finite (negative : Bool) (significand : Nat) (exponent : Int)
  | infinite (negative : Bool)
  | notANumber
deriving DecidableEq, Repr

namespace Double

/-- A positive fraction, numerator and denominator. -/
abbrev Fraction := Nat × Nat

/-- The fraction times a power of a base. -/
def scale (base : Nat) (exponent : Int) (x : Fraction) : Fraction :=
  if 0 ≤ exponent then (x.1 * Nat.pow base exponent.toNat, x.2)
  else (x.1, x.2 * Nat.pow base (-exponent).toNat)

/-- The quotient rounded to the nearest number, a half to the even one. -/
def roundEven (x : Fraction) : Nat :=
  let quotient := x.1 / x.2
  let rest := 2 * (x.1 % x.2)
  if rest < x.2 then quotient
  else if x.2 < rest then quotient + 1
  else quotient + quotient % 2

/-- The exponent of the highest power of two that is not above the fraction. -/
def binaryOrder (x : Fraction) : Int :=
  let estimate : Int := (Nat.log2 x.1 : Int) - Nat.log2 x.2
  let scaled := scale 2 (-estimate) x
  if scaled.2 ≤ scaled.1 then estimate else estimate - 1

def significandBound : Nat := Nat.pow 2 53

def leastExponent : Int := -1074

/-- The largest exponent of a finite number. -/
def greatestExponent : Int := 971

/-- The double nearest to a positive fraction. -/
def ofFraction (negative : Bool) (x : Fraction) : Double :=
  let exponent := max (binaryOrder x - 52) leastExponent
  let rounded := roundEven (scale 2 (-exponent) x)
  let significand := if rounded = significandBound then rounded / 2 else rounded
  let exponent := if rounded = significandBound then exponent + 1 else exponent
  if greatestExponent < exponent then .infinite negative
  else .finite negative significand exponent

/-- The number of decimal digits, one for zero. -/
def digitCount (n : Nat) : Nat := (Nat.toDigits 10 n).length

/-- The double nearest to a decimal. Beyond four hundred places on either side of the point
nothing is left to compare. -/
def ofDecimal (x : Decimal) : Double :=
  let order := x.exponent + digitCount x.digits
  if x.digits = 0 ∨ order < -400 then .finite x.negative 0 leastExponent
  else if 400 < order then .infinite x.negative
  else ofFraction x.negative (scale 10 x.exponent (x.digits, 1))

def isFinite : Double → Bool
  | finite .. => true
  | _ => false

end Double

end CountTree
