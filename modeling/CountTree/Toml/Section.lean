import CountTree.Toml.Value

/-!
Tables while a document is being read. A key path may pass through tables that no header has
stated yet; what may be added to a table later depends on how it came about. A header states a
table once, dotted keys extend only tables that dotted keys have made, and a value is never
extended.
-/

set_option autoImplicit false
set_option relaxedAutoImplicit false

namespace CountTree.Toml

/-- How a table came about: by its own header, by the header of a table below it, or by a dotted
key. -/
inductive Origin where
  | stated
  | implied
  | dotted
deriving DecidableEq

inductive Node where
  | value (content : Value)
  | table (origin : Origin) (entries : List (String × Node))
  | tables (elements : List (List (String × Node)))

abbrev Nodes := Keyed Node

namespace Nodes

/-- Changes the table at a path, making tables where there are none. With `dottedKeys` the path is
that of a dotted key, which does not enter a stated table. An array of tables stands for its last
element. The change is told whether dotted keys made the table. -/
def within (dottedKeys : Bool) (change : Bool → Nodes → Option Nodes) :
    (path : List String) → (isDotted : Bool) → Nodes → Option Nodes
  | [], isDotted, nodes => change isDotted nodes
  | key :: path, _, nodes =>
    match nodes.get? key with
    | none =>
      (within dottedKeys change path dottedKeys []).map fun inner ↦
        nodes ++ [(key, .table (if dottedKeys then .dotted else .implied) inner)]
    | some (.value _) => none
    | some (.tables elements) =>
      match elements.reverse with
      | [] => none
      | last :: before =>
        (within dottedKeys change path false last).map fun inner ↦
          nodes.insert key (.tables (before.reverse ++ [inner]))
    | some (.table origin inner) =>
      if dottedKeys ∧ origin = .stated then none
      else
        (within dottedKeys change path (origin = .dotted) inner).map fun inner ↦
          nodes.insert key (.table origin inner)

/-- Adds a value under a dotted key. The last table on the way is the one at hand when the key has
one part, and else one made by dotted keys. -/
def assign (path : List String) (key : String) (content : Value) (nodes : Nodes) : Option Nodes :=
  nodes.within true (fun isDotted inner ↦
    if isDotted = path.isEmpty then none else inner.add? key (.value content)) path false

def assignAll (assignments : List (List String × String × Value)) (nodes : Nodes) :
    Option Nodes :=
  assignments.foldlM (fun nodes assignment ↦
    nodes.assign assignment.1 assignment.2.1 assignment.2.2) nodes

/-- A table under its header: a new one, or one that so far only headers below it have implied. -/
def stateTable (parents : List String) (key : String)
    (assignments : List (List String × String × Value)) (nodes : Nodes) : Option Nodes :=
  nodes.within false (fun _ inner ↦
    match inner.get? key with
    | none => (assignAll assignments []).map fun entries ↦
        inner ++ [(key, .table .stated entries)]
    | some (.table .implied old) => (assignAll assignments old).map fun entries ↦
        inner.erase key ++ [(key, .table .stated entries)]
    | some _ => none) parents false

/-- A further element of an array of tables. -/
def stateElement (parents : List String) (key : String)
    (assignments : List (List String × String × Value)) (nodes : Nodes) : Option Nodes :=
  nodes.within false (fun _ inner ↦
    match inner.get? key with
    | none => (assignAll assignments []).map fun entries ↦ inner ++ [(key, .tables [entries])]
    | some (.tables elements) => (assignAll assignments []).map fun entries ↦
        inner.insert key (.tables (elements ++ [entries]))
    | some _ => none) parents false

mutual

def toEntries : Nodes → Entries
  | [] => []
  | entry :: entries => nodeEntry entry :: toEntries entries

def nodeEntry : String × Node → String × Value
  | (key, node) => (key, nodeValue node)

def nodeValue : Node → Value
  | .value content => content
  | .table _ entries => .table (toEntries entries)
  | .tables elements => .arrayOfTables (elementValues elements)

def elementValues : List (List (String × Node)) → List Value
  | [] => []
  | element :: elements => .table (toEntries element) :: elementValues elements

end

end Nodes

end CountTree.Toml
