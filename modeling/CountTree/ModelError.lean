/-!
Why building the component tree or counting on it is refused, and the wording of each refusal.
A fault is no refusal: it marks arithmetic or storage past what the machine has.
-/

set_option autoImplicit false
set_option relaxedAutoImplicit false

namespace CountTree

inductive Fault where
  | arithmetic
  | bounds
  | allocation
deriving DecidableEq, Repr

inductive ModelError where
  | notALeaf (component : String)
  | unknownAction (component action : String)
  | arityMismatch (action : String) (expected actual : Nat)
  | indexOutOfRange (action : String) (position value limit : Nat)
  | duplicateName (parent name : String)
  | reservedName (parent name : String)
  | duplicateAction (action : String)
  | invalidCardinality (action : String) (cardinalities : List Nat)
  | counterOverflow (action : String) (index delta : Nat)
  | fault (cause : Fault)
deriving DecidableEq, Repr

namespace ModelError

/-- Numbers between square brackets, parted by a comma and a blank. -/
def bracketed (numbers : List Nat) : String :=
  "[" ++ ", ".intercalate (numbers.map fun n ↦ toString n) ++ "]"

def message : ModelError → String
  | notALeaf component =>
    s!"InvalidOperation: '{component}' is a container and has no actions"
  | unknownAction component action =>
    s!"UnknownAction: '{component}' has no action named '{action}'"
  | arityMismatch action expected actual =>
    s!"ArityMismatch: action '{action}' takes {expected} argument(s), got {actual}"
  | indexOutOfRange action position value limit =>
    s!"IndexOutOfRange: position {position} of '{action}' is {value}, limit is {limit}"
  | duplicateName parent name =>
    s!"DuplicateName: '{parent}' already has a child named '{name}'"
  | reservedName parent name =>
    s!"ReservedName: leaf '{parent}' already reports a field named '{name}'"
  | duplicateAction action =>
    s!"DuplicateAction: action '{action}' is declared more than once"
  | invalidCardinality action cardinalities =>
    s!"InvalidCardinality: action '{action}' has cardinalities {bracketed cardinalities}"
  | counterOverflow action index delta =>
    s!"CounterOverflow: counter {index} of '{action}' cannot absorb {delta}"
  | fault .arithmetic => "arithmetic past the machine's range"
  | fault .bounds => "index past the end of a table"
  | fault .allocation => "table past the machine's storage"

end ModelError

end CountTree
