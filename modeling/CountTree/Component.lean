import CountTree.Attributes
import CountTree.Counters
import CountTree.Run

/-!
The tree of components. A container only groups its children; a leaf also carries a class, hardware
attributes and counters for the actions of its schema, and may have children of its own. Children
keep the order in which they were attached, and a path of child names always leads to the first
child of each name.
-/

set_option autoImplicit false
set_option relaxedAutoImplicit false

namespace CountTree

structure Leaf where
  classTag : String
  attributes : Attributes
  schema : Schema
  counters : Counters
deriving DecidableEq

inductive Kind where
  | container
  | leaf (state : Leaf)
deriving DecidableEq

structure Component where
  name : String
  kind : Kind
  children : List Component

namespace Leaf

/-- The field of a leaf's description that holds its class. -/
def classKey : String := "class"

/-- The field of a leaf's description that holds its attributes. -/
def attributesKey : String := "hardware_attributes"

/-- Whether a report of the leaf has a field of that name besides its children. -/
def reports (leaf : Leaf) (name : String) : Bool :=
  name = classKey || name = attributesKey || (leaf.schema.get name).isSome

end Leaf

namespace Kind

def leaf? : Kind → Option Leaf
  | container => none
  | leaf state => some state

def isLeaf (kind : Kind) : Bool := kind.leaf?.isSome

end Kind

namespace Component

mutual

def decEq : (a b : Component) → Decidable (a = b)
  | ⟨name, kind, children⟩, ⟨name', kind', children'⟩ =>
    match decEqAll children children' with
    | .isTrue hchildren =>
      if h : name = name' ∧ kind = kind' then
        .isTrue (by rw [h.1, h.2, hchildren])
      else .isFalse (by rintro ⟨⟩; exact h ⟨rfl, rfl⟩)
    | .isFalse h => .isFalse (by rintro ⟨⟩; exact h rfl)

def decEqAll : (as bs : List Component) → Decidable (as = bs)
  | [], [] => .isTrue rfl
  | [], _ :: _ => .isFalse nofun
  | _ :: _, [] => .isFalse nofun
  | a :: as, b :: bs =>
    match decEq a b, decEqAll as bs with
    | .isTrue h, .isTrue h' => .isTrue (by rw [h, h'])
    | .isFalse h, _ => .isFalse (by rintro ⟨⟩; exact h rfl)
    | _, .isFalse h => .isFalse (by rintro ⟨⟩; exact h rfl)

end

instance : DecidableEq Component := decEq

def container (name : String) : Component := ⟨name, .container, []⟩

/-- A leaf with all counters zero. -/
def leaf (name classTag : String) (attributes : Attributes) (schema : Schema) :
    Except ModelError Component :=
  match Counters.zero? schema with
  | some counters => .ok ⟨name, .leaf ⟨classTag, attributes, schema, counters⟩, []⟩
  | none => .error (.fault .allocation)

def leaf? (node : Component) : Option Leaf := node.kind.leaf?

def isLeaf (node : Component) : Bool := node.kind.isLeaf

def child (node : Component) (name : String) : Option Component :=
  node.children.find? (·.name = name)

/-- The component at a path of child names; the empty path leads to the component itself. -/
def find (node : Component) : List String → Option Component
  | [] => some node
  | name :: path => (node.child name).bind (·.find path)

/-- Makes `child` the last child, unless its name is taken by a child or by a field of this leaf. -/
def attach (child : Component) : Run ModelError Component Unit := fun node ↦
  if (node.child child.name).isSome then
    .error (.duplicateName node.name child.name) node
  else if node.leaf?.any (·.reports child.name) then
    .error (.reservedName node.name child.name) node
  else .ok () { node with children := node.children ++ [child] }

/-- The component with a last child added. -/
def withChild (node child : Component) : Except ModelError Component :=
  Outcome.stateIfOk (attach child node)

/-- A counter cell of a leaf: the place of the action in the schema and the index in its row. -/
structure Cell where
  leaf : Leaf
  place : Nat
  action : Action
  index : Nat

/-- The cell that counts an action with these arguments. -/
def cell (node : Component) (action : String) (arguments : List Nat) : Except ModelError Cell :=
  match node.leaf? with
  | none => .error (.notALeaf node.name)
  | some leaf =>
    match leaf.schema.position action with
    | none => .error (.unknownAction node.name action)
    | some (place, declared) =>
      match declared.index arguments with
      | .error cause => .error cause
      | .ok index => .ok ⟨leaf, place, declared, index⟩

/-- Adds `delta` to one counter. -/
def record (action : String) (arguments : List Nat) (delta : Nat) :
    Run ModelError Component Unit := fun node ↦
  match node.cell action arguments with
  | .error cause => .error cause node
  | .ok cell =>
    match cell.leaf.counters.add cell.action cell.place cell.index delta with
    | .error cause => .error cause node
    | .ok counters => .ok () { node with kind := .leaf { cell.leaf with counters } }

def count (action : String) (arguments : List Nat) : Run ModelError Component Unit :=
  record action arguments 1

def counterValue (node : Component) (action : String) (arguments : List Nat) :
    Except ModelError Nat :=
  match node.cell action arguments with
  | .error cause => .error cause
  | .ok cell => .ok ((cell.leaf.counters.get cell.place cell.index).getD 0)

section Focus

variable {ε α : Type}

/-- Runs a step on the first component of that name and leaves the others as they are. -/
def onFirst (name : String) (step : Component → Option (Outcome ε Component α)) :
    List Component → Option (Outcome ε (List Component) α)
  | [] => none
  | node :: nodes =>
    if node.name = name then (step node).map (Outcome.mapState (· :: nodes))
    else (onFirst name step nodes).map (Outcome.mapState (node :: ·))

/-- Runs a step on the component at a path; nothing when the path leads nowhere. -/
def focus (step : Run ε Component α) : List String → Component → Option (Outcome ε Component α)
  | [], node => some (step node)
  | name :: path, node =>
    (onFirst name (focus step path) node.children).map
      (Outcome.mapState fun children ↦ { node with children })

end Focus

end Component

end CountTree
