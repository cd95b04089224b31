import CountTree.Toml.Number

/-!
Dates of a whole document. A document may hold days that are in no calendar, since reading it does
not ask how long a month is. A table in it whose first key is the date mark stands for the date that
its text spells, so that text must be a date too.
-/

set_option autoImplicit false
set_option relaxedAutoImplicit false

namespace CountTree.Toml

/-- The key that makes a table stand for a date. -/
def dateMark : String := "$__toml_private_datetime"

namespace Value

/-- Whether a value is a text that spells a date in the calendar, a time of day or both. -/
def isDateText : Value → Bool
  | text content =>
    match Toml.datetime content.toList with
    | some (datetime date, []) => date.all Date.isInCalendar
    | _ => false
  | _ => false

mutual

/-- Whether all dates in a value are in the calendar. -/
def hasTrueDates : Value → Bool
  | datetime date => date.all Date.isInCalendar
  | array items => itemsHaveTrueDates items
  | table entries => tableHasTrueDates entries
  | arrayOfTables items => itemsHaveTrueDates items
  | _ => true

def itemsHaveTrueDates : List Value → Bool
  | [] => true
  | item :: items => item.hasTrueDates && itemsHaveTrueDates items

/-- Behind the date mark nothing else counts. -/
def tableHasTrueDates : List (String × Value) → Bool
  | [] => true
  | (key, value) :: entries =>
    if key = dateMark then value.isDateText
    else value.hasTrueDates && entriesHaveTrueDates entries

def entriesHaveTrueDates : List (String × Value) → Bool
  | [] => true
  | (_, value) :: entries => value.hasTrueDates && entriesHaveTrueDates entries

end

end Value

/-- Whether all dates of a document are in the calendar. The document itself is no date. -/
def Entries.haveTrueDates (entries : Entries) : Bool := Value.entriesHaveTrueDates entries

end CountTree.Toml
