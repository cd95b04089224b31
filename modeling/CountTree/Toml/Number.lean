import CountTree.Toml.Text
import CountTree.Toml.Value
import CountTree.Word

/-!
TOML numbers and dates. Digits may be parted by single underscores. Whole numbers are signed
words; a float past the largest double is refused unless it is negative. The day of a date may be
past the end of its month.
-/

set_option autoImplicit false
set_option relaxedAutoImplicit false

namespace CountTree.Toml

/-- The digits that go on a number, without their underscores. -/
def moreDigits (isDigit : Char → Bool) : List Char → List Char × List Char
  | '_' :: c :: rest =>
    if isDigit c then
      let (digits, rest) := moreDigits isDigit rest
      (c :: digits, rest)
    else ([], '_' :: c :: rest)
  | c :: rest =>
    if isDigit c then
      let (digits, rest) := moreDigits isDigit rest
      (c :: digits, rest)
    else ([], c :: rest)
  | [] => ([], [])

/-- At least one digit. -/
def digits (isDigit : Char → Bool) : Reader (List Char)
  | c :: rest =>
    if isDigit c then
      let (more, rest) := moreDigits isDigit rest
      some (c :: more, rest)
    else none
  | [] => none

/-- The digits of a whole number. Nothing follows a leading zero. -/
def wholeDigits : Reader (List Char)
  | '0' :: rest => some (['0'], rest)
  | text => digits Char.isDigit text

def numberIn (base : Nat) (digits : List Char) : Nat :=
  digits.foldl (fun n c ↦ n * base + (hexValue? c).getD 0) 0

def isDigitOf (base : Nat) (c : Char) : Bool := (hexValue? c).any (· < base)

/-- A number without sign in a base other than ten. -/
def basedInteger (base : Nat) (text : List Char) : Option (Value × List Char) :=
  (digits (isDigitOf base) text).bind fun (digits, rest) ↦
    let n := numberIn base digits
    if Int.ofNat n ≤ Signed.greatest then some (.integer n, rest) else none

/-- An exponent mark; zero when there is none. -/
def exponent : Reader Int
  | c :: rest =>
    if c = 'e' || c = 'E' then
      let (negative, rest) :=
        match rest with
        | '+' :: rest => (false, rest)
        | '-' :: rest => (true, rest)
        | rest => (false, rest)
      (digits Char.isDigit rest).map fun (digits, rest) ↦
        (if negative then -(numberIn 10 digits : Int) else numberIn 10 digits, rest)
    else some (0, c :: rest)
  | [] => some (0, [])

/-- The digits after the point; none when there is no point. -/
def fraction : Reader (List Char)
  | '.' :: rest => digits Char.isDigit rest
  | text => some ([], text)

/-- A number in base ten after its sign. -/
def decimal (negative : Bool) (text : List Char) : Option (Value × List Char) :=
  (wholeDigits text).bind fun (whole, afterWhole) ↦
    (fraction afterWhole).bind fun (fraction, afterFraction) ↦
      (exponent afterFraction).bind fun (exponent, rest) ↦
        if rest.length = afterWhole.length then
          let n : Int := if negative then -(numberIn 10 whole : Int) else numberIn 10 whole
          if Signed.least ≤ n ∧ n ≤ Signed.greatest then some (.integer n, rest) else none
        else
          match Double.ofDecimal
              ⟨negative, numberIn 10 (whole ++ fraction), exponent - fraction.length⟩ with
          | .infinite false => none
          | x => some (.float x, rest)

/-- A number in base ten, infinity or what is no number, after a sign. -/
def signed (negative : Bool) : List Char → Option (Value × List Char)
  | 'i' :: 'n' :: 'f' :: rest => some (.float (.infinite negative), rest)
  | 'n' :: 'a' :: 'n' :: rest => some (.float .notANumber, rest)
  | text => decimal negative text

def number : List Char → Option (Value × List Char)
  | '+' :: rest => signed false rest
  | '-' :: rest => signed true rest
  | '0' :: 'x' :: rest => basedInteger 16 rest
  | '0' :: 'o' :: rest => basedInteger 8 rest
  | '0' :: 'b' :: rest => basedInteger 2 rest
  | text => signed false text

/-- The number of exactly `count` digits. -/
def fixedDigits (count : Nat) : Reader Nat := fun text ↦
  let digits := text.take count
  if digits.length = count ∧ digits.all Char.isDigit then
    some (numberIn 10 digits, text.drop count)
  else none

/-- Two digits for a number between two bounds. -/
def twoDigits (low high : Nat) : Reader Nat := fun text ↦
  (fixedDigits 2 text).filter fun (n, _) ↦ low ≤ n ∧ n ≤ high

def character (c : Char) : List Char → Option (List Char)
  | first :: rest => if first = c then some rest else none
  | [] => none

def date : Reader Date := fun text ↦ do
  let (year, rest) ← fixedDigits 4 text
  let rest ← character '-' rest
  let (month, rest) ← twoDigits 1 12 rest
  let rest ← character '-' rest
  let (day, rest) ← twoDigits 1 31 rest
  return (⟨year, month, day⟩, rest)

def afterSecondFraction (text : List Char) : List Char :=
  match text with
  | '.' :: c :: rest => if c.isDigit then rest.dropWhile Char.isDigit else text
  | _ => text

/-- What follows a time of day. -/
def afterTime? (text : List Char) : Option (List Char) := do
  let (_, rest) ← twoDigits 0 23 text
  let rest ← character ':' rest
  let (_, rest) ← twoDigits 0 59 rest
  let rest ← character ':' rest
  let (_, rest) ← twoDigits 0 60 rest
  return afterSecondFraction rest

/-- What follows a time zone, which may be absent. -/
def afterZone (text : List Char) : List Char :=
  match text with
  | [] => []
  | c :: rest =>
    if c = 'Z' || c = 'z' then rest
    else if c = '+' || c = '-' then
      ((twoDigits 0 23 rest).bind fun (_, rest) ↦
        (character ':' rest).bind fun rest ↦ (twoDigits 0 59 rest).map (·.2)).getD text
    else text

/-- A date, a time of day or both. -/
def datetime (text : List Char) : Option (Value × List Char) :=
  match date text with
  | none => (afterTime? text).map fun rest ↦ (.datetime none, rest)
  | some (day, afterDate) =>
    match afterDate with
    | c :: rest =>
      if c = 'T' || c = 't' || c = ' ' then
        match afterTime? rest with
        | some rest => some (.datetime day, afterZone rest)
        | none => some (.datetime day, afterDate)
      else some (.datetime day, afterDate)
    | [] => some (.datetime day, [])

end CountTree.Toml
