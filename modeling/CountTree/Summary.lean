import CountTree.Component

/-!
The totals of a tree: a row for each action of each leaf, a leaf before its children, each row
summing all cells of its action. Sums stop at the largest word.
-/

set_option autoImplicit false
set_option relaxedAutoImplicit false

namespace CountTree

/-- `component` is the path of names from the root of the tree, parted by slashes. -/
structure SummaryRow where
  component : String
  classTag : String
  action : String
  count : Nat
deriving DecidableEq

abbrev Summary := List SummaryRow

namespace Summary

def rowsFrom (component : String) (leaf : Leaf) (place : Nat) : List Action → Summary
  | [] => []
  | action :: actions =>
    ⟨component, leaf.classTag, action.name, leaf.counters.total place⟩ ::
      rowsFrom component leaf (place + 1) actions

def ownRows (component : String) : Kind → Summary
  | .container => []
  | .leaf state => rowsFrom component state 0 state.schema.actions

mutual

def below (component : String) : Component → Summary
  | ⟨_, kind, children⟩ => ownRows component kind ++ belowAll component children

def belowAll (parent : String) : List Component → Summary
  | [] => []
  | child :: children => below (parent ++ "/" ++ child.name) child ++ belowAll parent children

end

def ofTree (root : Component) : Summary := below root.name root

def count (summary : Summary) (component action : String) : Option Nat :=
  (summary.find? fun row ↦ row.component = component && row.action = action).map SummaryRow.count

def total (summary : Summary) : Nat :=
  summary.foldl (fun sum row ↦ Word.addSaturating sum row.count) 0

/-- A text filled with blanks on the right up to a width. -/
def padRight (width : Nat) (text : String) : String :=
  text ++ String.ofList (List.replicate (width - text.length) ' ')

/-- A text filled with blanks on the left up to a width. -/
def padLeft (width : Nat) (text : String) : String :=
  String.ofList (List.replicate (width - text.length) ' ') ++ text

def line (component classTag action count : String) : String :=
  padRight 28 component ++ " " ++ padRight 6 classTag ++ " " ++ padRight 14 action ++ " " ++
    padLeft 8 count

def rowLine (row : SummaryRow) : String :=
  line row.component row.classTag row.action (toString row.count)

def doubleRule : String := String.ofList (List.replicate 58 '=')

def singleRule : String := String.ofList (List.replicate 58 '-')

/-- The printed table, line by line. -/
def lines (summary : Summary) : List String :=
  ["", doubleRule, "ACTION COUNT SUMMARY", doubleRule,
    line "component" "class" "action" "count", singleRule] ++
  summary.map rowLine ++
  [singleRule, padRight 50 "total" ++ " " ++ padLeft 8 (toString summary.total), doubleRule]

end Summary

end CountTree
