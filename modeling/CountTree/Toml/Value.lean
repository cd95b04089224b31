import CountTree.Double
import CountTree.Keyed
import CountTree.Toml.Date

/-!
Values of a TOML document. The entries of a table keep the order in which the document gives them.
-/

set_option autoImplicit false
set_option relaxedAutoImplicit false

namespace CountTree.Toml

inductive Value where
  | text (content : String)
  | integer (n : Int)
  | float (x : Double)
  | boolean (b : Bool)
  | datetime (date : Option Date)
  | array (items : List Value)
  | table (entries : List (String × Value))
  | arrayOfTables (items : List Value)

abbrev Entries := Keyed Value

namespace Value

/-- The name of a value's kind. -/
def kindName : Value → String
  | text _ => "string"
  | integer _ => "integer"
  | float _ => "float"
  | boolean _ => "boolean"
  | datetime _ => "datetime"
  | array _ => "array"
  | table _ => "table"
  | arrayOfTables _ => "array of tables"

end Value

namespace Entries

/-- Changes the table at a path, making tables where there are none. No other value is entered. -/
def within (change : Entries → Option Entries) : (path : List String) → Entries → Option Entries
  | [], entries => change entries
  | key :: path, entries =>
    match entries.get? key with
    | none => (within change path []).map fun inner ↦ entries.insert key (.table inner)
    | some (.table inner) =>
      (within change path inner).map fun inner ↦ entries.insert key (.table inner)
    | some _ => none

/-- Adds a value under a dotted key of an inline table, which may add to any table in it. -/
def assign (path : List String) (key : String) (content : Value) (entries : Entries) :
    Option Entries :=
  entries.within (·.add? key content) path

def assignAll (assignments : List (List String × String × Value)) : Option Entries :=
  assignments.foldlM (fun entries assignment ↦
    assign assignment.1 assignment.2.1 assignment.2.2 entries) []

end Entries

end CountTree.Toml
