import CountTree.Keyed

/-!
Report documents: texts, counts, sequences and mappings whose keys keep the order in which they
were first put in.
-/

set_option autoImplicit false
set_option relaxedAutoImplicit false

namespace CountTree

inductive Document where
  | text (content : String)
  | number (n : Nat)
  | sequence (items : List Document)
  | mapping (entries : List (String × Document))

abbrev Mapping := Keyed Document

namespace Document

/-- The value reached by following keys through nested mappings. -/
def follow? (document : Document) : List String → Option Document
  | [] => some document
  | key :: path =>
    match document with
    | mapping entries => (Keyed.get? entries key).bind (·.follow? path)
    | _ => none

end Document

end CountTree
