import CountTree.Document
import CountTree.Toml.Text
import Mathlib.Algebra.Order.Ring.Rat

/-!
A reader of JSON texts. It takes all of JSON, with blanks wherever they may stand, every escape and
every form of a number, and refuses whatever is not JSON. Objects keep their members in the order
of the text, numbers are exact.
-/

set_option autoImplicit false
set_option relaxedAutoImplicit false

namespace CountTree.Json

open Toml (Reader hexValue? push pushEscaped)

inductive Value where
  | null
  | boolean (truth : Bool)
  | number (n : ℚ)
  | text (content : String)
  | array (items : List Value)
  | object (members : List (String × Value))

namespace Value

mutual

/-- A report document as a value. -/
def ofDocument : Document → Value
  | .text content => text content
  | .number n => number n
  | .sequence items => array (ofItems items)
  | .mapping entries => object (ofEntries entries)

def ofItems : List Document → List Value
  | [] => []
  | item :: rest => ofDocument item :: ofItems rest

def ofEntries : List (String × Document) → List (String × Value)
  | [] => []
  | (key, field) :: rest => (key, ofDocument field) :: ofEntries rest

end

end Value

def isBlank (c : Char) : Bool := c = ' ' || c = '\t' || c = '\n' || c = '\r'

def skipBlanks (text : List Char) : List Char := text.dropWhile isBlank

/-! ### Texts -/

def shortEscapes : List (Char × Char) := ('/', '/') :: Toml.shortEscapes

/-- The number of hexadecimal digits. -/
def codeUnit? (digits : List Char) : Option Nat :=
  digits.foldlM (fun n c ↦ (hexValue? c).map (n * 16 + ·)) 0

def isHighSurrogate (unit : Nat) : Bool := 0xd800 ≤ unit && unit < 0xdc00

def isLowSurrogate (unit : Nat) : Bool := 0xdc00 ≤ unit && unit < 0xe000

/-- The character with a code; surrogates have none. -/
def char? (unit : Nat) : Option Char :=
  if h : unit.isValidChar then some (Char.ofNatAux unit h) else none

/-- The character that a pair of surrogates stands for. -/
def pair? (high low : Nat) : Option Char :=
  if isLowSurrogate low then char? (0x10000 + (high - 0xd800) * 0x400 + (low - 0xdc00)) else none

/-- A text from after its opening quotation mark. A high surrogate waits for its low one, which must
be the next thing. -/
def textRest (high : Option Nat) : Reader (List Char)
  | '\\' :: 'u' :: a :: b :: c :: d :: rest =>
    match high, codeUnit? [a, b, c, d] with
    | _, none => none
    | none, some unit =>
      if isHighSurrogate unit then textRest (some unit) rest
      else pushEscaped (char? unit) (textRest none rest)
    | some high, some unit => pushEscaped (pair? high unit) (textRest none rest)
  | text =>
    match high, text with
    | none, '"' :: rest => some ([], rest)
    | none, '\\' :: c :: rest => pushEscaped (shortEscapes.lookup c) (textRest none rest)
    | none, c :: rest => if 0x20 ≤ c.toNat && c ≠ '\\' then push c (textRest none rest) else none
    | _, _ => none

/-! ### Numbers -/

/-- At least one digit. -/
def digits : Reader (List Char) := fun text ↦
  let read := text.takeWhile Char.isDigit
  if read = [] then none else some (read, text.dropWhile Char.isDigit)

/-- The digits of a whole number. Nothing follows a leading zero. -/
def wholeDigits : Reader (List Char)
  | '0' :: rest => some (['0'], rest)
  | text => digits text

/-- The digits after the point; none when there is no point. -/
def fraction : Reader (List Char)
  | '.' :: rest => digits rest
  | text => some ([], text)

/-- An exponent mark; zero when there is none. -/
def exponent : Reader ℤ
  | c :: rest =>
    if c = 'e' || c = 'E' then
      let (sign, rest) : ℤ × List Char :=
        match rest with
        | '+' :: rest => (1, rest)
        | '-' :: rest => (-1, rest)
        | rest => (1, rest)
      (digits rest).map fun (digits, rest) ↦ (sign * Nat.ofDigitChars 10 digits 0, rest)
    else some (0, c :: rest)
  | [] => some (0, [])

/-- A number without its sign. -/
def magnitude : Reader ℚ := fun text ↦
  (wholeDigits text).bind fun (whole, rest) ↦
    (fraction rest).bind fun (parts, rest) ↦
      (exponent rest).map fun (shift, rest) ↦
        (Nat.ofDigitChars 10 (whole ++ parts) 0 * 10 ^ (shift - parts.length), rest)

def number : Reader ℚ
  | '-' :: rest => (magnitude rest).map fun (n, rest) ↦ (-n, rest)
  | text => magnitude text

/-! ### Values -/

/-- A value without brackets. -/
def scalar : Reader Value
  | 'n' :: 'u' :: 'l' :: 'l' :: rest => some (.null, rest)
  | 't' :: 'r' :: 'u' :: 'e' :: rest => some (.boolean true, rest)
  | 'f' :: 'a' :: 'l' :: 's' :: 'e' :: rest => some (.boolean false, rest)
  | '"' :: rest =>
    (textRest none rest).map fun (content, rest) ↦ (.text (String.ofList content), rest)
  | text => (number text).map fun (n, rest) ↦ (.number n, rest)

/-- A key with the colon after it. -/
def key : Reader String := fun text ↦
  match skipBlanks text with
  | '"' :: rest =>
    (textRest none rest).bind fun (content, rest) ↦
      match skipBlanks rest with
      | ':' :: rest => some (String.ofList content, rest)
      | _ => none
  | _ => none

def member (value : Reader Value) : Reader (String × Value) := fun text ↦
  (key text).bind fun (key, rest) ↦ (value rest).map fun (field, rest) ↦ ((key, field), rest)

section Brackets

variable {α : Type}

/-- The elements after the first, to after the closing bracket. -/
def following (closing : Char) (element : Reader α) : (fuel : Nat) → Reader (List α)
  | 0, _ => none
  | fuel + 1, text =>
    match skipBlanks text with
    | [] => none
    | c :: rest =>
      if c = closing then some ([], rest)
      else if c = ',' then
        (element rest).bind fun (first, rest) ↦
          (following closing element fuel rest).map fun (others, rest) ↦ (first :: others, rest)
      else none

/-- The elements between brackets, from after the opening one. -/
def enclosed (closing : Char) (element : Reader α) : Reader (List α) := fun text ↦
  match skipBlanks text with
  | [] => none
  | c :: rest =>
    if c = closing then some ([], rest)
    else
      (element text).bind fun (first, rest) ↦
        (following closing element (rest.length + 1) rest).map fun (others, rest) ↦
          (first :: others, rest)

end Brackets

/-- A value with the blanks before it, in which fewer than `depth` brackets nest. -/
def readValue : (depth : Nat) → Reader Value
  | 0, _ => none
  | depth + 1, text =>
    match skipBlanks text with
    | '[' :: rest =>
      (enclosed ']' (readValue depth) rest).map fun (items, rest) ↦ (.array items, rest)
    | '\x7b' :: rest =>
      (enclosed '\x7d' (member (readValue depth)) rest).map fun (members, rest) ↦
        (.object members, rest)
    | text => scalar text

/-- The value of a text: nothing but blanks stands beside it. -/
def parse (text : String) : Option Value :=
  (readValue (text.toList.length + 1) text.toList).bind fun (value, rest) ↦
    if skipBlanks rest = [] then some value else none

/-- A pair of escapes is one character, and numbers are exact. -/
example : parse "[ null,\t\x7b\"\\ud83d\\ude00\" : -12.50e1\x7d ]" =
    some (.array [.null, .object [("😀", .number (-125))]]) := by cbv

/-- A comma at the end, a leading zero, half a pair and a break in a text are not JSON. -/
example : ["[1,]", "01", "\"\\ud83d\"", "\"\n\""].map parse = [none, none, none, none] := rfl

end CountTree.Json
