import Intake.Calendar

/-!
Dates with a time of day and, optionally, an offset from UTC.

A moment without an offset is local to nowhere; where an instant is needed it counts as UTC.
-/
namespace Intake

structure Clock where
  hour : Nat
  minute : Nat
  second : Nat
  microsecond : Nat
  deriving DecidableEq, Repr, Inhabited

def Clock.isValid (c : Clock) : Bool :=
  c.hour < 24 && c.minute < 60 && c.second < 60 && c.microsecond < 1000000

def Clock.microseconds (c : Clock) : Nat :=
  ((c.hour * 60 + c.minute) * 60 + c.second) * 1000000 + c.microsecond

structure Moment where
  date : Date
  clock : Clock
  /-- Microseconds ahead of UTC. -/
  offset : Option Int
  deriving DecidableEq, Repr, Inhabited

namespace Moment

def dayLength : Nat := 86400000000

def offsetInRange (offset : Int) : Bool := -(dayLength : Int) < offset && offset < dayLength

def isValid (m : Moment) : Bool :=
  m.date.isValid && m.clock.isValid && m.offset.all offsetInRange

/-- Microseconds from the start of the calendar in UTC, where no offset counts as zero. -/
def instant (m : Moment) : Int :=
  (m.date.ordinal * dayLength + m.clock.microseconds : Nat) - m.offset.getD 0

/-- Two moments are the same if both have an offset and one instant, or neither has an offset and
all fields agree. -/
def same (a b : Moment) : Bool :=
  match a.offset, b.offset with
  | some _, some _ => a.instant == b.instant
  | none, none => a.date == b.date && a.clock == b.clock
  | _, _ => false

/-- The instant at which a day count that begins in 1899 starts. A moment not after it usually
comes from a serial number of zero. -/
def origin : Moment := ⟨⟨1899, 12, 30⟩, ⟨0, 0, 0, 0⟩, some 0⟩

end Moment

end Intake
