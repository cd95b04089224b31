import CountTree.Document

/-!
Report documents as JSON text: two blanks for each level, an entry a line, and short escapes where
JSON has them.
-/

set_option autoImplicit false
set_option relaxedAutoImplicit false

namespace CountTree.Json

def hexDigit (n : Nat) : Char := Nat.digitChar (n % 16)

def escape (c : Char) : List Char :=
  if c = '"' then ['\\', '"']
  else if c = '\\' then ['\\', '\\']
  else if c = '\x08' then ['\\', 'b']
  else if c = '\t' then ['\\', 't']
  else if c = '\n' then ['\\', 'n']
  else if c = '\x0c' then ['\\', 'f']
  else if c = '\r' then ['\\', 'r']
  else if c.toNat < 0x20 then ['\\', 'u', '0', '0', hexDigit (c.toNat / 16), hexDigit c.toNat]
  else [c]

def quoted (text : String) : List Char := '"' :: (text.toList.flatMap escape ++ ['"'])

/-- A line break and the blanks of a nesting level. -/
def newline (level : Nat) : List Char := '\n' :: List.replicate (2 * level) ' '

mutual

/-- A value inside `level` brackets. -/
def value (level : Nat) : Document → List Char
  | .text content => quoted content
  | .number n => Nat.toDigits 10 n
  | .sequence [] => ['[', ']']
  | .sequence (item :: rest) =>
    '[' :: (newline (level + 1) ++ value (level + 1) item ++ items (level + 1) rest ++
      newline level ++ [']'])
  | .mapping [] => ['\x7b', '\x7d']
  | .mapping ((key, field) :: rest) =>
    '\x7b' :: (newline (level + 1) ++ quoted key ++ [':', ' '] ++ value (level + 1) field ++
      fields (level + 1) rest ++ newline level ++ ['\x7d'])

def items (level : Nat) : List Document → List Char
  | [] => []
  | item :: rest => ',' :: (newline level ++ value level item ++ items level rest)

def fields (level : Nat) : List (String × Document) → List Char
  | [] => []
  | (key, field) :: rest =>
    ',' :: (newline level ++ quoted key ++ [':', ' '] ++ value level field ++ fields level rest)

end

/-- The text of a document, without a line break at its end. -/
def render (document : Mapping) : String := String.ofList (value 0 (.mapping document))

end CountTree.Json
