import CountTree.Double

/-!
How a text is written as a YAML scalar. A plain scalar must read back as the same text: it may not
look like a null, a boolean or a number, nor hold characters that mean something to YAML where
they stand. Texts with line breaks are written as literal blocks, and what neither a plain scalar,
single quotes nor a block can hold is written between double quotes.
-/

set_option autoImplicit false
set_option relaxedAutoImplicit false

namespace CountTree.Yaml

inductive Style where
  | plain
  | singleQuoted
  | doubleQuoted
  | literal
deriving DecidableEq, Repr

def nextLine : Char := '\u0085'

def lineSeparator : Char := '\u2028'

def paragraphSeparator : Char := '\u2029'

def isBreak (c : Char) : Bool :=
  c = '\n' || c = '\r' || c = nextLine || c = lineSeparator || c = paragraphSeparator

def isBlank (c : Char) : Bool := c = ' ' || c = '\t' || isBreak c

def isPrintable (c : Char) : Bool :=
  let n := c.toNat
  n = 0x0a || (0x20 ≤ n && n ≤ 0x7e) ||
    (0xa0 ≤ n && n ≠ 0xfeff && n ≠ 0xfffe && n ≠ 0xffff)

/-! Texts that read as something else. -/

def isNull (text : List Char) : Bool :=
  ["null", "Null", "NULL", "~"].any (·.toList = text)

def isBoolean (text : List Char) : Bool :=
  ["true", "True", "TRUE", "false", "False", "FALSE"].any (·.toList = text)

def dropSign (signs : List Char) : List Char → List Char
  | c :: rest => if c ∈ signs then rest else c :: rest
  | [] => []

/-- Digits after a leading zero, which no number starts with. -/
def isZeroLed (text : List Char) : Bool :=
  match dropSign ['+', '-'] text with
  | '0' :: c :: rest => (c :: rest).all Char.isDigit
  | _ => false

def digitValue (c : Char) : Nat :=
  if c.isDigit then c.toNat - '0'.toNat
  else if 'a' ≤ c && c ≤ 'f' then c.toNat - 'a'.toNat + 10
  else if 'A' ≤ c && c ≤ 'F' then c.toNat - 'A'.toNat + 10
  else 36

/-- The number that digits of a base stand for. -/
def digitsIn? (base : Nat) (text : List Char) : Option Nat :=
  if text ≠ [] ∧ text.all (digitValue · < base) then
    some (text.foldl (fun n c ↦ n * base + digitValue c) 0)
  else none

/-- The number after a base mark, in any case within that base. -/
def based? : List Char → Option Nat
  | '0' :: 'x' :: rest => digitsIn? 16 rest
  | '0' :: 'o' :: rest => digitsIn? 8 rest
  | '0' :: 'b' :: rest => digitsIn? 2 rest
  | _ => none

def magnitude? (text : List Char) : Option Nat :=
  match based? text with
  | some n => some n
  | none => if isZeroLed text then none else digitsIn? 10 text

/-- A whole number of at most 128 bits. -/
def isInteger (text : List Char) : Bool :=
  match text with
  | '-' :: rest => (magnitude? rest).any (· ≤ Nat.pow 2 127)
  | _ => (magnitude? (dropSign ['+'] text)).any (· < Nat.pow 2 128)

/-- Splits off the digits at the front. -/
def spanDigits (text : List Char) : List Char × List Char :=
  (text.takeWhile Char.isDigit, text.dropWhile Char.isDigit)

/-- The digits of an exponent mark, if the whole text is one. -/
def exponent? : List Char → Option Int
  | [] => some 0
  | c :: rest =>
    if c = 'e' || c = 'E' then
      (digitsIn? 10 (dropSign ['+', '-'] rest)).map fun n ↦
        if rest.head? = some '-' then -(n : Int) else n
    else none

/-- The decimal that a text without sign stands for. -/
def decimal? (text : List Char) : Option Decimal :=
  let (whole, rest) := spanDigits text
  let (fraction, rest) :=
    match rest with
    | '.' :: rest => spanDigits rest
    | _ => ([], rest)
  if whole ++ fraction = [] then none
  else
    (exponent? rest).bind fun exponent ↦
      (digitsIn? 10 (whole ++ fraction)).map fun digits ↦
        ⟨false, digits, exponent - fraction.length⟩

def isNamedFloat (text : List Char) : Bool :=
  [".inf", ".Inf", ".INF", "+.inf", "+.Inf", "+.INF", "-.inf", "-.Inf", "-.INF",
    ".nan", ".NaN", ".NAN"].any (·.toList = text)

/-- A decimal that does not round to infinity, or the name of what is no finite number. -/
def isFloat (text : List Char) : Bool :=
  isNamedFloat text ||
    ((decimal? (dropSign ['+', '-'] text)).any fun x ↦ (Double.ofDecimal x).isFinite)

/-- Whether a plain scalar with this text would not be read as a text. -/
def readsOtherwise (text : List Char) : Bool :=
  text.isEmpty || isNull text || isBoolean text || isInteger text || isZeroLed text || isFloat text

/-! Characters that mean something to YAML. -/

def startsWithDocumentMark : List Char → Bool
  | '-' :: '-' :: '-' :: _ => true
  | '.' :: '.' :: '.' :: _ => true
  | _ => false

def followedByBlank : List Char → Bool
  | [] => true
  | c :: _ => isBlank c

def startIndicators : List Char :=
  ['#', ',', '[', ']', '\x7b', '\x7d', '&', '*', '!', '|', '>', '\'', '"', '%', '@', '\x60']

def startsWithIndicator : List Char → Bool
  | [] => false
  | c :: rest =>
    startIndicators.contains c || ((c = '?' || c = ':' || c = '-') && followedByBlank rest)

/-- A colon before a blank or a number sign after one, when `afterBlank` tells of what precedes. -/
def hasInnerIndicator (afterBlank : Bool) : List Char → Bool
  | [] => false
  | c :: rest =>
    (c = ':' && followedByBlank rest) || (c = '#' && afterBlank) ||
      hasInnerIndicator (isBlank c) rest

def hasIndicator (text : List Char) : Bool :=
  startsWithDocumentMark text || startsWithIndicator text ||
    match text with
    | [] => false
    | c :: rest => hasInnerIndicator (isBlank c) rest

def hasPair (first second : Char → Bool) : List Char → Bool
  | c :: d :: rest => (first c && second d) || hasPair first second (d :: rest)
  | _ => false

def isSpace (c : Char) : Bool := c = ' '

/-- What only double quotes can hold. -/
def needsDoubleQuotes (text : List Char) : Bool :=
  text.any (!isPrintable ·) || hasPair isSpace isBreak text

def allowsLiteral (text : List Char) : Bool :=
  !needsDoubleQuotes text && !text.getLast?.any isSpace

def allowsSingleQuotes (text : List Char) : Bool :=
  !needsDoubleQuotes text && !hasPair isBreak isSpace text

def allowsPlain (text : List Char) : Bool :=
  allowsSingleQuotes text && !text.any isBreak && !text.head?.any isSpace &&
    !text.getLast?.any isSpace && !hasIndicator text

def quotedStyle (text : List Char) : Style :=
  if allowsSingleQuotes text then .singleQuoted else .doubleQuoted

def style (text : List Char) : Style :=
  if text.contains '\n' then
    if allowsLiteral text then .literal else .doubleQuoted
  else if allowsPlain text && !readsOtherwise text then .plain
  else quotedStyle text

/-- Whether a key of this text is written after a question mark. -/
def isComplexKey (key : String) : Bool := key.toList.any isBreak || 128 < key.utf8ByteSize

end CountTree.Yaml
