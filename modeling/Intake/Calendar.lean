/-!
The proleptic Gregorian calendar of the years 1 to 9999. Ordinals count days from one on the first
day of year 1, which was a Monday.
-/
namespace Intake

structure Date where
  year : Nat
  month : Nat
  day : Nat
  deriving DecidableEq, Repr, Inhabited

namespace Date

def isLeap (year : Nat) : Bool := year % 4 == 0 && (year % 100 != 0 || year % 400 == 0)

def monthLengths (year : Nat) : List Nat :=
  [31, if isLeap year then 29 else 28, 31, 30, 31, 30, 31, 31, 30, 31, 30, 31]

def daysInMonth (year month : Nat) : Nat := (monthLengths year).getD (month - 1) 0

def greatestYear : Nat := 9999

def isValid (d : Date) : Bool :=
  1 ≤ d.year && d.year ≤ greatestYear && 1 ≤ d.month && d.month ≤ 12 &&
    1 ≤ d.day && d.day ≤ daysInMonth d.year d.month

def daysBeforeYear (year : Nat) : Nat :=
  let past := year - 1
  365 * past + past / 4 - past / 100 + past / 400

def daysBeforeMonth (year month : Nat) : Nat :=
  ((monthLengths year).take (month - 1)).foldl (· + ·) 0

def ordinal (d : Date) : Nat := daysBeforeYear d.year + daysBeforeMonth d.year d.month + d.day

/-- The month and day that a day count from zero falls on, given the lengths of the months that
remain. -/
def locateDay : List Nat → Nat → Nat → Nat × Nat
  | [], month, offset => (month, offset + 1)
  | length :: rest, month, offset =>
    if offset < length then (month, offset + 1) else locateDay rest (month + 1) (offset - length)

/-- The date with a given ordinal, by cycles of 400, 100, 4 and single years. The last day of a
cycle of leap years belongs to its last year, hence the bounds of three. -/
def ofOrdinal (ordinal : Nat) : Date :=
  let days := ordinal - 1
  let days400 := days % 146097
  let centuries := min 3 (days400 / 36524)
  let days100 := days400 - 36524 * centuries
  let days4 := days100 % 1461
  let years := min 3 (days4 / 365)
  let year := 400 * (days / 146097) + 100 * centuries + 4 * (days100 / 1461) + years + 1
  let (month, day) := locateDay (monthLengths year) 1 (days4 - 365 * years)
  ⟨year, month, day⟩

def greatestOrdinal : Nat := ordinal ⟨greatestYear, 12, 31⟩

def firstWeekday (year : Nat) : Nat := daysBeforeYear year % 7

/-- The number of ISO weeks of a year: 53 when it begins on a Thursday, or on a Wednesday and is
a leap year. -/
def weeksInYear (year : Nat) : Nat :=
  if firstWeekday year = 3 ∨ (firstWeekday year = 2 ∧ isLeap year = true) then 53 else 52

/-- The days before the Monday of the first ISO week, which is the week of the first Thursday,
plus seven. -/
def firstWeekShift (year : Nat) : Nat :=
  let first := daysBeforeYear year + 7
  let monday := first - firstWeekday year
  if 3 < firstWeekday year then monday + 7 else monday

/-- The date of a weekday, Monday being 1, in an ISO week. -/
def ofWeek? (year week weekday : Nat) : Option Date :=
  if 1 ≤ year ∧ year ≤ greatestYear ∧ 1 ≤ week ∧ week ≤ weeksInYear year ∧
      1 ≤ weekday ∧ weekday ≤ 7 then
    let shifted := firstWeekShift year + 7 * (week - 1) + weekday
    if 7 < shifted ∧ shifted - 7 ≤ greatestOrdinal then some (ofOrdinal (shifted - 7)) else none
  else none

example : ofOrdinal greatestOrdinal = ⟨9999, 12, 31⟩ := by decide +kernel
example : ofOrdinal (ordinal ⟨2024, 2, 29⟩) = ⟨2024, 2, 29⟩ := by decide +kernel
example : ofWeek? 2020 53 7 = some ⟨2021, 1, 3⟩ := by decide +kernel
example : ofWeek? 2021 53 1 = none := by decide +kernel

end Date

end Intake
