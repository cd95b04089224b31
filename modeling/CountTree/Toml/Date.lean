/-!
Days of the calendar. A date is written as a year, a month and a day; the month it falls in says
how many days there are.
-/

set_option autoImplicit false
set_option relaxedAutoImplicit false

namespace CountTree.Toml

structure Date where
  year : Nat
  month : Nat
  day : Nat
deriving DecidableEq

namespace Date

/-- A fourth year has a day more, save the hundreds that are no four hundreds. -/
def isLeap (year : Nat) : Bool := year % 4 = 0 && (year % 100 ≠ 0 || year % 400 = 0)

/-- The days of a month. -/
def daysOf (year month : Nat) : Nat :=
  if month = 2 then (if isLeap year then 29 else 28)
  else if month = 4 || month = 6 || month = 9 || month = 11 then 30
  else 31

def isInCalendar (date : Date) : Bool :=
  1 ≤ date.month && date.month ≤ 12 && 1 ≤ date.day && date.day ≤ daysOf date.year date.month

end Date

end CountTree.Toml
