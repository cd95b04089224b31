/-!
Numbers of a 64-bit machine. Unsigned words are natural numbers up to `Word.top`; a checked
operation returns nothing when its exact result is no word. Signed words are integers kept in
range by wrapping around; a shift of one returns nothing when the word is not that long.
-/

set_option autoImplicit false
set_option relaxedAutoImplicit false

namespace CountTree

namespace Word

/-- The largest unsigned word. -/
def top : Nat := Nat.pow 2 64 - 1

/-- The largest unsigned word of half the width. -/
def halfTop : Nat := Nat.pow 2 32 - 1

def fit? (n : Nat) : Option Nat := if n ≤ top then some n else none

def add? (a b : Nat) : Option Nat := fit? (a + b)

def sub? (a b : Nat) : Option Nat := if b ≤ a then some (a - b) else none

def mul? (a b : Nat) : Option Nat := fit? (a * b)

def div? (a b : Nat) : Option Nat := if b = 0 then none else some (a / b)

def rem? (a b : Nat) : Option Nat := if b = 0 then none else some (a % b)

/-- The sum, or the largest word where the sum is none. -/
def addSaturating (a b : Nat) : Nat := min (a + b) top

theorem fit?_eq_some_iff {n m : Nat} : fit? n = some m ↔ n = m ∧ n ≤ top := by
  unfold fit?
  split
  · simp_all
  · simp only [reduceCtorEq, false_iff]
    omega

theorem add?_eq_some_iff {a b c : Nat} : add? a b = some c ↔ a + b = c ∧ a + b ≤ top :=
  fit?_eq_some_iff

theorem mul?_eq_some_iff {a b c : Nat} : mul? a b = some c ↔ a * b = c ∧ a * b ≤ top :=
  fit?_eq_some_iff

end Word

namespace Signed

def least : Int := -Int.ofNat (Nat.pow 2 63)

def greatest : Int := Int.ofNat (Nat.pow 2 63) - 1

/-- The signed word congruent to `n` modulo `2 ^ 64`. -/
def wrap (n : Int) : Int := n.bmod (Nat.pow 2 64)

/-- A shift to the left, refused by the length of a word or more. -/
def shiftLeft? (n : Int) (amount : Nat) : Option Int :=
  if amount < 64 then some (wrap (n * Int.ofNat (Nat.pow 2 amount))) else none

/-- A shift to the right that keeps the sign, refused by the length of a word or more. -/
def shiftRight? (n : Int) (amount : Nat) : Option Int :=
  if amount < 64 then some (n / Int.ofNat (Nat.pow 2 amount)) else none

/-- Keeps the low `width` bits and repeats the highest of them to the left: a shift to the left
end of the word and an arithmetic shift back. Widths 0 and 64 up keep the whole word. -/
def truncate? (width : Nat) (n : Int) : Option Int :=
  if width = 0 ∨ 64 ≤ width then some n
  else do
    let amount ← Word.sub? 64 width
    let shifted ← shiftLeft? n amount
    shiftRight? shifted amount

end Signed

end CountTree
