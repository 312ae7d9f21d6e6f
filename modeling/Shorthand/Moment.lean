import Shorthand.Number.Padded

/-!
# Dates and times

A day, with or without a time of day, as a data file may hold it.
-/

namespace Shorthand

/-- A time of day; the distance to universal time is in minutes. -/
structure Clock where
  hour : Nat
  minute : Nat
  second : Nat
  microsecond : Nat
  offset : Option Int
  deriving DecidableEq, Repr

/-- A day of the Gregorian calendar, possibly with a time. -/
structure Moment where
  year : Nat
  month : Nat
  day : Nat
  clock : Option Clock
  deriving DecidableEq, Repr

namespace Moment

def isLeap (year : Nat) : Bool := year % 4 = 0 && (year % 100 ≠ 0 || year % 400 = 0)

def daysIn (year month : Nat) : Nat :=
  if month = 2 then (if isLeap year then 29 else 28)
  else if [4, 6, 9, 11].contains month then 30
  else 31

def isValid (m : Moment) : Bool :=
  1 ≤ m.year && m.year ≤ 9999 && 1 ≤ m.month && m.month ≤ 12 && 1 ≤ m.day && m.day ≤ daysIn m.year m.month &&
    match m.clock with
    | none => true
    | some c => c.hour < 24 && c.minute < 60 && c.second < 60 && (c.offset.getD 0).natAbs < 24 * 60

/-- Two digits. -/
def two (n : Nat) : String := Number.padded 2 n

def offsetText (minutes : Int) : String :=
  (if minutes < 0 then "-" else "+") ++ two (minutes.natAbs / 60) ++ ":" ++ two (minutes.natAbs % 60)

/-- Year, month and day, then the time where there is one. -/
def text (m : Moment) : String :=
  let date := Number.padded 4 m.year ++ "-" ++ two m.month ++ "-" ++ two m.day
  match m.clock with
  | none => date
  | some c =>
    let fraction := if c.microsecond = 0 then "" else "." ++ Number.padded 6 c.microsecond
    date ++ " " ++ two c.hour ++ ":" ++ two c.minute ++ ":" ++ two c.second ++ fraction ++
      (c.offset.map offsetText).getD ""

end Moment

end Shorthand
