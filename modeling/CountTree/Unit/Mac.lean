import CountTree.Component

/-!
A multiply-accumulate unit. It computes a product and a sum at its width. With a zero factor the
multiplication is gated: the addend passes through, and the gated action is counted in place of
the other.
-/

set_option autoImplicit false
set_option relaxedAutoImplicit false

namespace CountTree

structure Mac where
  bitWidth : Nat
  pipelineStages : Nat
deriving DecidableEq

namespace Mac

def classTag : String := "MAC"

/-- The action of a multiplication that takes place. -/
def randomAction : String := "mac_random"

/-- The action of a gated multiplication. -/
def gatedAction : String := "mac_gated"

def schema : Except ModelError Schema := Schema.simple [randomAction, gatedAction]

def attributes (mac : Mac) : Attributes :=
  Attributes.ofList
    [("bit_width", toString mac.bitWidth), ("n_pipe_stage", toString mac.pipelineStages)]

/-- The leaf that describes the unit. -/
def build (mac : Mac) (name : String) : Except ModelError Component := do
  Component.leaf name classTag mac.attributes (← schema)

/-- A word cut to the unit's width. -/
def truncate (mac : Mac) (word : Int) : Except ModelError Int :=
  match Signed.truncate? mac.bitWidth word with
  | some word => .ok word
  | none => .error (.fault .arithmetic)

/-- The product and the sum as words, cut to the unit's width. -/
def result (mac : Mac) (factor factor' addend : Int) : Except ModelError Int :=
  if factor ≠ 0 ∧ factor' ≠ 0 then
    mac.truncate (Signed.wrap (Signed.wrap (factor * factor') + addend))
  else mac.truncate addend

def action (factor factor' : Int) : String :=
  if factor ≠ 0 ∧ factor' ≠ 0 then randomAction else gatedAction

/-- One operation, counted on the unit's leaf. -/
def calculate (mac : Mac) (factor factor' addend : Int) : Run ModelError Component Int := do
  Component.count (action factor factor') []
  Run.ofExcept (mac.result factor factor' addend)

end Mac

end CountTree
