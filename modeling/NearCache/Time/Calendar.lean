/-!
# The calendar

Days of the Gregorian calendar, counted from 1 January 1970.  `dayNumber` and `dateOf` go back and
forth over whole cycles of 400 years, which all have the same number of days.
-/

namespace NearCache.Time

/-- A day by year, month and day of the month. -/
structure Date where
  year : Int
  month : Nat
  day : Nat
  deriving DecidableEq, Repr

/-- Whether a year has a 29 February. -/
def isLeap (year : Int) : Bool :=
  (year % 4 = 0 && year % 100 ≠ 0) || year % 400 = 0

/-- How many days a month has. -/
def daysInMonth (year : Int) (month : Nat) : Nat :=
  match month with
  | 2 => if isLeap year then 29 else 28
  | 4 | 6 | 9 | 11 => 30
  | _ => 31

/-- Whether the calendar has a date. -/
def Date.isValid (d : Date) : Bool :=
  1 ≤ d.month && d.month ≤ 12 && 1 ≤ d.day && d.day ≤ daysInMonth d.year d.month

/-- The number of days from 1 January 1970 to a date.  Years are taken to begin in March, so that
the leap day comes last. -/
def dayNumber (d : Date) : Int :=
  let year := if d.month ≤ 2 then d.year - 1 else d.year
  let cycle := year / 400
  let ofCycle := year % 400
  let month : Int := if d.month ≤ 2 then d.month + 9 else d.month - 3
  let ofYear := (153 * month + 2) / 5 + d.day - 1
  let days := ofCycle * 365 + ofCycle / 4 - ofCycle / 100 + ofYear
  cycle * 146097 + days - 719468

/-- The date a number of days after 1 January 1970. -/
def dateOf (n : Int) : Date :=
  let shifted := n + 719468
  let cycle := shifted / 146097
  let days := shifted % 146097
  let ofCycle := (days - days / 1460 + days / 36524 - days / 146096) / 365
  let ofYear := days - (365 * ofCycle + ofCycle / 4 - ofCycle / 100)
  let month := (5 * ofYear + 2) / 153
  let day := ofYear - (153 * month + 2) / 5 + 1
  let civil := if month < 10 then month + 3 else month - 9
  let year := ofCycle + cycle * 400 + if civil ≤ 2 then 1 else 0
  ⟨year, civil.toNat, day.toNat⟩

end NearCache.Time
