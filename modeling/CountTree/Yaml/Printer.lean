import CountTree.Document
import CountTree.Yaml.Scalar

/-!
Report documents as YAML text in block style. Every entry starts in the column of its mapping and
a nested mapping two columns further to the right; the items of a sequence stand in the column of
the key above them. Keys that are long or hold line breaks are written after a question mark, and
their values after a colon on a line of its own.
-/

set_option autoImplicit false
set_option relaxedAutoImplicit false

namespace CountTree.Yaml

def blanks (column : Nat) : List Char := List.replicate column ' '

def upperHex (n : Nat) : Char := (Nat.digitChar (n % 16)).toUpper

/-- The last `count` hexadecimal digits of a number. -/
def hexDigits : (count n : Nat) → List Char
  | 0, _ => []
  | count + 1, n => upperHex (n / Nat.pow 16 count) :: hexDigits count n

def numericEscape (c : Char) : List Char :=
  if c.toNat ≤ 0xff then 'x' :: hexDigits 2 c.toNat
  else if c.toNat ≤ 0xffff then 'u' :: hexDigits 4 c.toNat
  else 'U' :: hexDigits 8 c.toNat

def escapeLetters : List (Char × Char) :=
  [('\x00', '0'), ('\x07', 'a'), ('\x08', 'b'), ('\t', 't'), ('\n', 'n'), ('\x0b', 'v'),
    ('\x0c', 'f'), ('\r', 'r'), ('\x1b', 'e'), ('"', '"'), ('\\', '\\'), (nextLine, 'N'),
    (lineSeparator, 'L'), (paragraphSeparator, 'P')]

def isEscaped (c : Char) : Bool := !isPrintable c || isBreak c || c = '"' || c = '\\'

def escape (c : Char) : List Char :=
  if isEscaped c then
    '\\' :: ((escapeLetters.lookup c).map fun letter ↦ [letter]).getD (numericEscape c)
  else [c]

def doubleQuoted (text : List Char) : List Char := '"' :: (text.flatMap escape ++ ['"'])

/-- The text between single quotes. A line begun by a break of the text starts in `column`. -/
def singleQuotedRest (column : Nat) (afterBreak : Bool) : List Char → List Char
  | [] => (if afterBreak then blanks column else []) ++ ['\'']
  | c :: rest =>
    if isBreak c then c :: singleQuotedRest column true rest
    else
      (if afterBreak then blanks column else []) ++
        (if c = '\'' then ['\'', '\''] else [c]) ++ singleQuotedRest column false rest

def singleQuoted (column : Nat) (text : List Char) : List Char :=
  '\'' :: singleQuotedRest column false text

/-- What follows the bar of a literal block: the indentation when the text itself begins with a
blank or a break, and how the breaks at its end count. -/
def literalHints (text : List Char) : List Char :=
  let indentation := if text.head?.any fun c ↦ isSpace c || isBreak c then ['2'] else []
  let chomping :=
    match text.reverse with
    | [] => ['-']
    | [c] => if isBreak c then ['+'] else ['-']
    | c :: d :: _ => if !isBreak c then ['-'] else if isBreak d then ['+'] else []
  indentation ++ chomping

/-- The lines of a literal block. Empty lines are not indented. -/
def literalRest (column : Nat) (afterBreak : Bool) : List Char → List Char
  | [] => []
  | c :: rest =>
    if isBreak c then c :: literalRest column true rest
    else (if afterBreak then blanks column else []) ++ c :: literalRest column false rest

def literal (column : Nat) (text : List Char) : List Char :=
  '|' :: (literalHints text ++ '\n' :: literalRest column true text)

/-- A scalar up to the break that ends its last line. Further lines start in `column`. -/
def scalarLine (column : Nat) (content : String) : List Char :=
  let text := content.toList
  match style text with
  | .plain => text ++ ['\n']
  | .singleQuoted => singleQuoted column text ++ ['\n']
  | .doubleQuoted => doubleQuoted text ++ ['\n']
  | .literal =>
    literal column text ++ if text.getLast?.any isBreak then [] else ['\n']

/-- A scalar that stands on one line. -/
def scalarInline (content : String) : List Char :=
  let text := content.toList
  match style text with
  | .plain => text
  | .singleQuoted => singleQuoted 0 text
  | _ => doubleQuoted text

mutual

/-- A value from the place where it begins, its further lines starting in `column`. -/
def value (column : Nat) : Document → List Char
  | .text content => scalarLine column content
  | .number n => Nat.toDigits 10 n ++ ['\n']
  | .sequence [] => ['[', ']', '\n']
  | .sequence (item :: rest) => '-' :: ' ' :: (value (column + 2) item ++ items column rest)
  | .mapping [] => ['\x7b', '\x7d', '\n']
  | .mapping (entry :: rest) => field column entry ++ fields column rest

/-- The items after the first of a sequence. -/
def items (column : Nat) : List Document → List Char
  | [] => []
  | item :: rest =>
    blanks column ++ '-' :: ' ' :: (value (column + 2) item ++ items column rest)

/-- The entries after the first of a mapping. -/
def fields (column : Nat) : List (String × Document) → List Char
  | [] => []
  | entry :: rest => blanks column ++ field column entry ++ fields column rest

/-- One entry of a mapping, without the blanks before it. -/
def field (column : Nat) : String × Document → List Char
  | (key, content) =>
    if isComplexKey key then
      '?' :: ' ' :: scalarLine (column + 2) key ++ blanks column ++
        ':' :: ' ' :: value (column + 2) content
    else scalarInline key ++ ':' :: besideKey column content

/-- A value after a key on its line. Mappings and sequences that are not empty start a new one. -/
def besideKey (column : Nat) : Document → List Char
  | .sequence (item :: rest) =>
    '\n' :: blanks column ++ '-' :: ' ' :: (value (column + 2) item ++ items column rest)
  | .mapping (entry :: rest) =>
    '\n' :: blanks (column + 2) ++ field (column + 2) entry ++ fields (column + 2) rest
  | .text content => ' ' :: scalarLine (column + 2) content
  | .number n => ' ' :: Nat.toDigits 10 n ++ ['\n']
  | .sequence [] => [' ', '[', ']', '\n']
  | .mapping [] => [' ', '\x7b', '\x7d', '\n']

end

/-- The text of a document. -/
def render (document : Mapping) : String := String.ofList (value 0 (.mapping document))

end CountTree.Yaml
