import CountTree.Component
import CountTree.Document

/-!
The two reports of a component tree. Both nest like the tree, with one key for each component:
the architecture gives the class and the attributes of every leaf, the action counts give what
every leaf has counted. A leaf's own fields come before its children.
-/

set_option autoImplicit false
set_option relaxedAutoImplicit false

namespace CountTree

inductive ReportKind where
  | architecture
  | actionCounts
deriving DecidableEq, Repr

namespace Report

def attributeFields (attributes : Attributes) : Mapping :=
  attributes.entries.foldl (fun fields entry ↦ fields.insert entry.1 (.text entry.2)) []

def architectureFields : Kind → Mapping
  | .container => []
  | .leaf state =>
    (Keyed.insert Leaf.classKey (.text state.classTag) []).insert Leaf.attributesKey
      (.mapping (attributeFields state.attributes))

mutual

/-- The architecture entry of a component: its own fields, then its children. -/
def architectureEntry : Component → Mapping
  | ⟨_, kind, children⟩ => insertArchitecture children (architectureFields kind)

def insertArchitecture : List Component → Mapping → Mapping
  | [], entry => entry
  | child :: children, entry =>
    insertArchitecture children (entry.insert child.name (.mapping (architectureEntry child)))

end

def countKey : String := "count"

def argumentsKey : String := "arguments"

/-- What one cell has counted: the count and the arguments that lead to the cell. -/
def observation (action : Action) (cell : Nat × Nat) : Document :=
  .mapping ((Keyed.insert countKey (.number cell.2) []).insert argumentsKey
    (.sequence ((Radix.digits action.cardinalities cell.1).map .number)))

/-- The field of one action. Without arguments it holds the count; with arguments it lists the
nonzero cells, and there is no field when there is none. -/
def actionField (counters : Counters) (place : Nat) (action : Action) : Option Document :=
  if action.arity = 0 then
    some (.mapping (Keyed.insert countKey (.number ((counters.get place 0).getD 0)) []))
  else
    match counters.nonzero place with
    | [] => none
    | cell :: cells => some (.sequence ((cell :: cells).map (observation action)))

def insertActions (counters : Counters) (place : Nat) : List Action → Mapping → Mapping
  | [], entry => entry
  | action :: actions, entry =>
    insertActions counters (place + 1) actions <|
      match actionField counters place action with
      | some field => entry.insert action.name field
      | none => entry

def actionFields : Kind → Mapping
  | .container => []
  | .leaf state => insertActions state.counters 0 state.schema.actions []

mutual

/-- The action-count entry of a component: its own fields, then its children. -/
def countsEntry : Component → Mapping
  | ⟨_, kind, children⟩ => insertCounts children (actionFields kind)

def insertCounts : List Component → Mapping → Mapping
  | [], entry => entry
  | child :: children, entry =>
    insertCounts children (entry.insert child.name (.mapping (countsEntry child)))

end

/-- The architecture description of a tree. -/
def architecture (root : Component) : Mapping :=
  Keyed.insert root.name (.mapping (architectureEntry root)) []

/-- The action counts of a tree. -/
def actionCounts (root : Component) : Mapping :=
  Keyed.insert root.name (.mapping (countsEntry root)) []

/-- A report of a tree. -/
def ofKind : ReportKind → Component → Mapping
  | .architecture => architecture
  | .actionCounts => actionCounts

end Report

end CountTree
