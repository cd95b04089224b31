import CountTree.Double

/-!
The fewest decimal digits that read back as the same double, of those the nearest to it, and of
two equally near the larger.
-/

set_option autoImplicit false
set_option relaxedAutoImplicit false

namespace CountTree.Double

/-- The reals that round to a double, in quarters of its last place: from `low` to `high`, the
ends included when the significand is even. -/
structure Basin where
  low : Fraction
  centre : Fraction
  high : Fraction
  closed : Bool

def basin (significand : Nat) (exponent : Int) : Basin :=
  let quarters (n : Nat) := scale 2 (exponent - 2) (n, 1)
  let gap := if significand = significandBound / 2 ∧ exponent ≠ leastExponent then 1 else 2
  ⟨quarters (4 * significand - gap), quarters (4 * significand), quarters (4 * significand + 2),
    significand % 2 = 0⟩

/-- Whether `n * 10 ^ place` lies in a basin. -/
def Basin.contains (b : Basin) (place : Int) (n : Nat) : Bool :=
  let low := scale 10 (-place) b.low
  let high := scale 10 (-place) b.high
  if b.closed then low.1 ≤ n * low.2 && n * high.2 ≤ high.1
  else low.1 < n * low.2 && n * high.2 < high.1

/-- The multiple of `10 ^ place` nearest to the centre among its two neighbours in the basin. -/
def Basin.onGrid (b : Basin) (place : Int) : Option Nat :=
  let centre := scale 10 (-place) b.centre
  let below := centre.1 / centre.2
  let nearer := if 2 * (centre.1 % centre.2) < centre.2 then below else below + 1
  let farther := if nearer = below then below + 1 else below
  if b.contains place nearer then some nearer
  else if b.contains place farther then some farther
  else none

/-- The exponent of the least power of ten above the centre. -/
def Basin.decimalOrder (b : Basin) : Int :=
  let raised := scale 10 400 b.centre
  (digitCount (raised.1 / raised.2) : Int) - 400

/-- A number of at most `count` digits times a power of ten. The power of ten just above those is
written with one digit. -/
def canonical (count : Nat) (n : Nat) (place : Int) : Nat × Int :=
  if n = Nat.pow 10 count then (1, place + count) else (n, place)

/-- Tries `count` digits, then one more, up to `fuel` more. -/
def Basin.shortest (b : Basin) : (fuel count : Nat) → Nat × Int
  | 0, count =>
    let place := b.decimalOrder - count
    canonical count ((b.onGrid place).getD 0) place
  | fuel + 1, count =>
    let place := b.decimalOrder - count
    match b.onGrid place with
    | some n => canonical count n place
    | none => b.shortest fuel (count + 1)

/-- The shortest decimal of a nonzero double: a number and the power of ten it is multiplied by. -/
def shortest (significand : Nat) (exponent : Int) : Nat × Int :=
  (basin significand exponent).shortest 17 1

/-- A decimal without an exponent, with a point and a digit on both sides of it. -/
def positional (n : Nat) (place : Int) : List Char :=
  let digits := Nat.toDigits 10 n
  if 0 ≤ place then digits ++ List.replicate place.toNat '0' ++ ['.', '0']
  else
    let after := (-place).toNat
    let padded := List.replicate (after + 1 - digits.length) '0' ++ digits
    padded.take (padded.length - after) ++ '.' :: padded.drop (padded.length - after)

/-- The printed number; infinity and what is not a number have names. -/
def text : Double → String
  | .finite negative 0 _ => if negative then "-0.0" else "0.0"
  | .finite negative significand exponent =>
    let decimal := shortest significand exponent
    let body := String.ofList (positional decimal.1 decimal.2)
    if negative then "-" ++ body else body
  | .infinite negative => if negative then "-inf" else "inf"
  | .notANumber => "NaN"

end CountTree.Double
