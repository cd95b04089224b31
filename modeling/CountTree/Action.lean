import CountTree.ModelError
import CountTree.Radix

/-!
Countable actions. An action has a name and, for each argument, the number of values it can take;
the argument tuples are the positions of a mixed-radix table. A schema lists the actions of one
component in declaration order, each name once.
-/

set_option autoImplicit false
set_option relaxedAutoImplicit false

namespace CountTree

structure Action where
  name : String
  cardinalities : List Nat
  tableSize : Nat
  size?_eq : Radix.size? cardinalities = some tableSize
deriving DecidableEq

namespace Action

/-- Refuses cardinalities that hold a zero or whose table is too large to be numbered. -/
def create (name : String) (cardinalities : List Nat) : Except ModelError Action :=
  match h : Radix.size? cardinalities with
  | some tableSize => .ok ⟨name, cardinalities, tableSize, h⟩
  | none => .error (.invalidCardinality name cardinalities)

/-- The action without arguments, which has one cell. -/
def simple (name : String) : Action := ⟨name, [], 1, rfl⟩

def arity (action : Action) : Nat := action.cardinalities.length

/-- The first position whose argument reaches its cardinality, with both numbers. -/
def firstExcess (position : Nat) : List Nat → List Nat → Option (Nat × Nat × Nat)
  | value :: values, limit :: limits =>
    if limit ≤ value then some (position, value, limit)
    else firstExcess (position + 1) values limits
  | _, _ => none

/-- The cell of an argument tuple. -/
def index (action : Action) (arguments : List Nat) : Except ModelError Nat :=
  if arguments.length ≠ action.arity then
    .error (.arityMismatch action.name action.arity arguments.length)
  else
    match firstExcess 0 arguments action.cardinalities with
    | some (position, value, limit) =>
      .error (.indexOutOfRange action.name position value limit)
    | none =>
      match Radix.encode? arguments action.cardinalities with
      | some index => .ok index
      | none => .error (.fault .arithmetic)

/-- The argument tuple of a cell. -/
def arguments (action : Action) (index : Nat) : Except ModelError (List Nat) :=
  if action.tableSize ≤ index then
    .error (.indexOutOfRange action.name action.arity index action.tableSize)
  else
    match Radix.decode? index action.cardinalities with
    | some arguments => .ok arguments
    | none => .error (.fault .arithmetic)

end Action

/-- The first name that has occurred before, given the names already `seen`. -/
def firstRepeat (seen : List String) : List String → Option String
  | [] => none
  | name :: names => if name ∈ seen then some name else firstRepeat (name :: seen) names

theorem firstRepeat_eq_none_iff (names seen : List String) :
    firstRepeat seen names = none ↔ names.Nodup ∧ ∀ name ∈ names, name ∉ seen := by
  induction names generalizing seen with
  | nil => simp [firstRepeat]
  | cons name names ih =>
    unfold firstRepeat
    split
    · simp_all
    · rw [ih]
      simp only [List.nodup_cons, List.mem_cons]
      grind

structure Schema where
  actions : List Action
  nodup : (actions.map Action.name).Nodup
deriving DecidableEq

namespace Schema

def create (actions : List Action) : Except ModelError Schema :=
  match h : firstRepeat [] (actions.map Action.name) with
  | some name => .error (.duplicateAction name)
  | none => .ok ⟨actions, ((firstRepeat_eq_none_iff _ _).1 h).1⟩

/-- A schema of actions without arguments. -/
def simple (names : List String) : Except ModelError Schema := create (names.map Action.simple)

def length (schema : Schema) : Nat := schema.actions.length

def isEmpty (schema : Schema) : Bool := schema.actions.isEmpty

/-- The action of that name and its place, counted from `place`. -/
def positionFrom (name : String) (place : Nat) : List Action → Option (Nat × Action)
  | [] => none
  | action :: actions =>
    if action.name = name then some (place, action) else positionFrom name (place + 1) actions

def position (schema : Schema) (name : String) : Option (Nat × Action) :=
  positionFrom name 0 schema.actions

def get (schema : Schema) (name : String) : Option Action := (schema.position name).map (·.2)

end Schema

end CountTree
