import CountTree.Word

/-!
Mixed-radix positions, the first digit varying fastest. `size`, `value` and `digits` are the
exact notions over the natural numbers. `size?`, `encode?` and `decode?` walk the radices from
the left with a running weight in machine words and return nothing as soon as a product or a sum
is no word, or a radix is zero where it divides.
-/

set_option autoImplicit false
set_option relaxedAutoImplicit false

namespace CountTree.Radix

def size (radices : List Nat) : Nat := radices.foldr (· * ·) 1

/-- Both lists have one length and every digit is below its radix. -/
def InRange : List Nat → List Nat → Prop
  | [], [] => True
  | d :: ds, r :: rs => d < r ∧ InRange ds rs
  | _, _ => False

instance decidableInRange : (digits radices : List Nat) → Decidable (InRange digits radices)
  | [], [] => .isTrue trivial
  | [], _ :: _ => .isFalse id
  | _ :: _, [] => .isFalse id
  | d :: ds, r :: rs =>
    have := decidableInRange ds rs
    inferInstanceAs (Decidable (d < r ∧ InRange ds rs))

def value : List Nat → List Nat → Nat
  | d :: ds, r :: rs => d + r * value ds rs
  | _, _ => 0

def digits : List Nat → Nat → List Nat
  | [], _ => []
  | r :: rs, n => n % r :: digits rs (n / r)

/-- The number of positions, refused when a radix is zero or a running product is no word. -/
def size? (radices : List Nat) : Option Nat :=
  radices.foldlM (fun product radix ↦ if radix = 0 then none else Word.mul? product radix) 1

def encodeFrom? (weight position : Nat) : List Nat → List Nat → Option Nat
  | d :: ds, r :: rs => do
    let term ← Word.mul? d weight
    let position ← Word.add? position term
    let weight ← Word.mul? weight r
    encodeFrom? weight position ds rs
  | _, _ => some position

/-- The position of a digit list of the same length as the radices. -/
def encode? (digits radices : List Nat) : Option Nat :=
  if digits.length = radices.length then encodeFrom? 1 0 digits radices else none

def decodeFrom? (position weight : Nat) : List Nat → Option (List Nat)
  | [] => some []
  | r :: rs => do
    let quotient ← Word.div? position weight
    let digit ← Word.rem? quotient r
    let weight ← Word.mul? weight r
    let rest ← decodeFrom? position weight rs
    return digit :: rest

/-- The digits of a position. -/
def decode? (position : Nat) (radices : List Nat) : Option (List Nat) :=
  decodeFrom? position 1 radices

end CountTree.Radix
