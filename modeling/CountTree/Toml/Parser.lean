import CountTree.Toml.Number
import CountTree.Toml.Section

/-!
TOML documents. Reading gives the entries of the whole document, or nothing when the text is no
document: when it does not follow the grammar, when a key or a table is given twice, or when
brackets nest too deeply.
-/

set_option autoImplicit false
set_option relaxedAutoImplicit false

namespace CountTree.Toml

/-- Skips blanks, line breaks and comments; nothing when a comment holds a forbidden character. -/
def skipSpace (inComment : Bool) : List Char → Option (List Char)
  | [] => some []
  | '\n' :: rest => skipSpace false rest
  | '\r' :: '\n' :: rest => skipSpace false rest
  | c :: rest =>
    if inComment then
      if isAllowed c then skipSpace true rest else none
    else if isBlank c then skipSpace false rest
    else if c = '#' then skipSpace true rest
    else some (c :: rest)

/-- The values of an array from after its bracket or a comma, to after the closing bracket. -/
def arrayRest (value : Reader Value) : (fuel : Nat) → Reader (List Value)
  | 0, _ => none
  | fuel + 1, text => do
    let text ← skipSpace false text
    match text with
    | ']' :: rest => return ([], rest)
    | text =>
      let (item, rest) ← value text
      let rest ← skipSpace false rest
      match rest with
      | ']' :: rest => return ([item], rest)
      | ',' :: rest =>
        let (items, rest) ← arrayRest value fuel rest
        return (item :: items, rest)
      | _ => none

/-- A key, its mark and its value. -/
def assignment (value : Reader Value) : Reader (List String × String × Value) := fun text ↦ do
  let ((path, last), rest) ← key text
  let rest ← character '=' rest
  let (content, rest) ← value (skipBlanks rest)
  return ((path, last, content), rest)

/-- The assignments of an inline table from the first or after a comma, to after the brace. -/
def inlineRest (value : Reader Value) :
    (fuel : Nat) → Reader (List (List String × String × Value))
  | 0, _ => none
  | fuel + 1, text => do
    let (first, rest) ← assignment value text
    match skipBlanks rest with
    | '\x7d' :: rest => return ([first], rest)
    | ',' :: rest =>
      let (others, rest) ← inlineRest value fuel rest
      return (first :: others, rest)
    | _ => none

/-- An inline table from after its brace. -/
def inlineTable (value : Reader Value) : Reader Value := fun text ↦ do
  match skipBlanks text with
  | '\x7d' :: rest => return (.table [], rest)
  | text =>
    let (assignments, rest) ← inlineRest value text.length text
    let entries ← Entries.assignAll assignments
    return (.table entries, rest)

/-- A value that is neither an array nor an inline table. -/
def scalar : Reader Value := fun text ↦
  match text with
  | 't' :: 'r' :: 'u' :: 'e' :: rest => some (.boolean true, rest)
  | 'f' :: 'a' :: 'l' :: 's' :: 'e' :: rest => some (.boolean false, rest)
  | c :: _ =>
    if c = '"' || c = '\'' then
      (string text).map fun (content, rest) ↦ (.text (String.ofList content), rest)
    else
      match datetime text with
      | some read => some read
      | none => number text
  | [] => none

/-- A value with at most `depth` brackets around its parts. -/
def value : (depth : Nat) → Reader Value
  | 0 => fun text ↦
    match text with
    | '[' :: _ => none
    | '\x7b' :: _ => none
    | text => scalar text
  | depth + 1 => fun text ↦
    match text with
    | '[' :: rest =>
      (arrayRest (value depth) rest.length rest).map fun (items, rest) ↦ (.array items, rest)
    | '\x7b' :: rest => inlineTable (value depth) rest
    | text => scalar text

def topValue : Reader Value := value (nestingLimit - 1)

/-- What follows the rest of a line that holds nothing more than a comment. -/
def lineEnd (text : List Char) : Option (List Char) :=
  match skipBlanks text with
  | [] => some []
  | '#' :: rest =>
    match rest.dropWhile isAllowed with
    | [] => some []
    | rest => afterNewline? rest
  | rest => afterNewline? rest

/-- A header with the lines below it up to the next header. -/
structure Block where
  isElement : Bool
  parents : List String
  name : String
  assignments : List (List String × String × Value)

/-- A header from after its brackets, which `closing` brackets end. -/
def header (closing : Nat) (text : List Char) : Option ((List String × String) × List Char) := do
  let (path, rest) ← key text
  if rest.take closing = List.replicate closing ']' then
    let rest ← lineEnd (rest.drop closing)
    return (path, rest)
  else none

/-- The assignments before the first header and the blocks after it. -/
def blocks : (fuel : Nat) → List Char →
    Option (List (List String × String × Value) × List Block)
  | 0, _ => none
  | fuel + 1, text =>
    match skipBlanks text with
    | [] => some ([], [])
    | '[' :: '[' :: rest => do
      let ((parents, name), rest) ← header 2 rest
      let (assignments, others) ← blocks fuel rest
      return ([], ⟨true, parents, name, assignments⟩ :: others)
    | '[' :: rest => do
      let ((parents, name), rest) ← header 1 rest
      let (assignments, others) ← blocks fuel rest
      return ([], ⟨false, parents, name, assignments⟩ :: others)
    | text =>
      match lineEnd text with
      | some rest => blocks fuel rest
      | none => do
        let (first, rest) ← assignment topValue text
        let rest ← lineEnd rest
        let (assignments, others) ← blocks fuel rest
        return (first :: assignments, others)

def addBlock (nodes : Nodes) (block : Block) : Option Nodes :=
  if block.isElement then nodes.stateElement block.parents block.name block.assignments
  else nodes.stateTable block.parents block.name block.assignments

/-- A byte order mark may stand before a document. -/
def dropByteOrderMark : List Char → List Char
  | '\ufeff' :: rest => rest
  | text => text

/-- The entries of a document. -/
def parse (text : String) : Option Entries := do
  let characters := dropByteOrderMark text.toList
  let (assignments, others) ← blocks (characters.length + 1) characters
  let root ← Nodes.assignAll assignments []
  let nodes ← others.foldlM addBlock root
  return Nodes.toEntries nodes

end CountTree.Toml
