/-!
TOML strings, in their four forms, and the characters that a document may hold. Each reader takes
the characters from a place on and returns what it has read with the rest.
-/

set_option autoImplicit false
set_option relaxedAutoImplicit false

namespace CountTree.Toml

abbrev Reader (α : Type) := List Char → Option (α × List Char)

def isBlank (c : Char) : Bool := c = ' ' || c = '\t'

/-- Whether a character may stand in a comment or a string: no control character but the tab. -/
def isAllowed (c : Char) : Bool := c = '\t' || (0x20 ≤ c.toNat && c.toNat ≠ 0x7f)

def skipBlanks (text : List Char) : List Char := text.dropWhile isBlank

/-- What follows a line break. -/
def afterNewline? : List Char → Option (List Char)
  | '\n' :: rest => some rest
  | '\r' :: '\n' :: rest => some rest
  | _ => none

def hexValue? (c : Char) : Option Nat :=
  if c.isDigit then some (c.toNat - '0'.toNat)
  else if 'a' ≤ c && c ≤ 'f' then some (c.toNat - 'a'.toNat + 10)
  else if 'A' ≤ c && c ≤ 'F' then some (c.toNat - 'A'.toNat + 10)
  else none

/-- The character with a code in hexadecimal digits. -/
def codePoint? (digits : List Char) : Option Char :=
  (digits.foldlM (fun n c ↦ (hexValue? c).map (n * 16 + ·)) 0).bind fun code ↦
    if h : code.isValidChar then some (Char.ofNatAux code h) else none

def shortEscapes : List (Char × Char) :=
  [('b', '\x08'), ('t', '\t'), ('n', '\n'), ('f', '\x0c'), ('r', '\r'), ('"', '"'), ('\\', '\\')]

/-- Puts a character before what has been read. -/
def push (c : Char) (read : Option (List Char × List Char)) : Option (List Char × List Char) :=
  read.map fun r ↦ (c :: r.1, r.2)

def pushEscaped (c : Option Char) (read : Option (List Char × List Char)) :
    Option (List Char × List Char) :=
  c.bind fun c ↦ push c read

/-- A string from after its opening quotation mark. -/
def basicRest : Reader (List Char)
  | [] => none
  | '"' :: rest => some ([], rest)
  | '\\' :: 'u' :: a :: b :: c :: d :: rest =>
    pushEscaped (codePoint? [a, b, c, d]) (basicRest rest)
  | '\\' :: 'U' :: a :: b :: c :: d :: e :: f :: g :: h :: rest =>
    pushEscaped (codePoint? [a, b, c, d, e, f, g, h]) (basicRest rest)
  | '\\' :: c :: rest => pushEscaped (shortEscapes.lookup c) (basicRest rest)
  | c :: rest => if isAllowed c && c ≠ '\\' then push c (basicRest rest) else none

/-- A string without escapes from after its opening apostrophe. -/
def literalRest : Reader (List Char)
  | [] => none
  | '\'' :: rest => some ([], rest)
  | c :: rest => if isAllowed c then push c (literalRest rest) else none

/-- Where a reader stands in a string of several lines: in its text, after a backslash at the end
of a line, or past the end of that line and before the next text. -/
inductive Joint where
  | inText
  | beforeBreak
  | afterBreak
deriving DecidableEq

/-- A string of several lines from its first character. Up to two quotation marks may stand before
the three that close it. -/
def multilineRest (joint : Joint) : Reader (List Char)
  | [] => none
  | '\n' :: rest =>
    if joint = .inText then push '\n' (multilineRest .inText rest)
    else multilineRest .afterBreak rest
  | '\r' :: '\n' :: rest =>
    if joint = .inText then push '\n' (multilineRest .inText rest)
    else multilineRest .afterBreak rest
  | c :: rest =>
    if joint ≠ .inText && isBlank c then multilineRest joint rest
    else if joint = .beforeBreak then none
    else if c = '"' then
      match rest with
      | '"' :: '"' :: '"' :: '"' :: rest => some (['"', '"'], rest)
      | '"' :: '"' :: '"' :: rest => some (['"'], rest)
      | '"' :: '"' :: rest => some ([], rest)
      | rest => push '"' (multilineRest .inText rest)
    else if c = '\\' then
      match rest with
      | 'u' :: a :: b :: c :: d :: rest =>
        pushEscaped (codePoint? [a, b, c, d]) (multilineRest .inText rest)
      | 'U' :: a :: b :: c :: d :: e :: f :: g :: h :: rest =>
        pushEscaped (codePoint? [a, b, c, d, e, f, g, h]) (multilineRest .inText rest)
      | '\n' :: rest => multilineRest .afterBreak rest
      | '\r' :: '\n' :: rest => multilineRest .afterBreak rest
      | c :: rest =>
        if isBlank c then multilineRest .beforeBreak rest
        else pushEscaped (shortEscapes.lookup c) (multilineRest .inText rest)
      | [] => none
    else if isAllowed c then push c (multilineRest .inText rest)
    else none

/-- The same without escapes, between apostrophes. -/
def multilineLiteralRest : Reader (List Char)
  | [] => none
  | '\n' :: rest => push '\n' (multilineLiteralRest rest)
  | '\r' :: '\n' :: rest => push '\n' (multilineLiteralRest rest)
  | '\'' :: rest =>
    match rest with
    | '\'' :: '\'' :: '\'' :: '\'' :: rest => some (['\'', '\''], rest)
    | '\'' :: '\'' :: '\'' :: rest => some (['\''], rest)
    | '\'' :: '\'' :: rest => some ([], rest)
    | rest => push '\'' (multilineLiteralRest rest)
  | c :: rest => if isAllowed c then push c (multilineLiteralRest rest) else none

/-- A line break right after the opening marks does not belong to the text. -/
def dropFirstNewline (text : List Char) : List Char := (afterNewline? text).getD text

/-- A string in any of its forms. -/
def string : Reader (List Char)
  | '"' :: '"' :: '"' :: rest => multilineRest .inText (dropFirstNewline rest)
  | '\'' :: '\'' :: '\'' :: rest => multilineLiteralRest (dropFirstNewline rest)
  | '"' :: rest => basicRest rest
  | '\'' :: rest => literalRest rest
  | _ => none

def isBareKey (c : Char) : Bool := c.isAlphanum || c = '_' || c = '-'

/-- One part of a key. -/
def keyPart : Reader String
  | '"' :: rest => (basicRest rest).map fun r ↦ (String.ofList r.1, r.2)
  | '\'' :: rest => (literalRest rest).map fun r ↦ (String.ofList r.1, r.2)
  | text =>
    if text.head?.any isBareKey then
      some (String.ofList (text.takeWhile isBareKey), text.dropWhile isBareKey)
    else none

/-- The parts of a key, with blanks around each, while there are dots. -/
def keyParts : (fuel : Nat) → Reader (List String)
  | 0, _ => none
  | fuel + 1, text =>
    (keyPart (skipBlanks text)).bind fun (part, rest) ↦
      match skipBlanks rest with
      | '.' :: rest => (keyParts fuel rest).map fun (parts, rest) ↦ (part :: parts, rest)
      | rest => some ([part], rest)

/-- A key has fewer parts than this. -/
def nestingLimit : Nat := 128

/-- A key as the parts before its last and the last. -/
def key : Reader (List String × String) := fun text ↦
  (keyParts (nestingLimit - 1) text).bind fun (parts, rest) ↦
    parts.getLast?.map fun last ↦ ((parts.dropLast, last), rest)

end CountTree.Toml
