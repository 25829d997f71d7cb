import Intake.Moment.Basic
import Intake.Text.Digits

/-!
Written forms of a moment: ISO 8601 with a chosen separator, and constructor notation.
-/
namespace Intake

open Text

def microsecondSuffix (microsecond : Nat) : List Char :=
  if microsecond = 0 then [] else '.' :: zeroPadded 6 microsecond

def Date.iso (d : Date) : List Char :=
  zeroPadded 4 d.year ++ '-' :: (zeroPadded 2 d.month ++ '-' :: zeroPadded 2 d.day)

def Clock.iso (c : Clock) : List Char :=
  zeroPadded 2 c.hour ++ ':' :: (zeroPadded 2 c.minute ++ ':' :: zeroPadded 2 c.second) ++
    microsecondSuffix c.microsecond

namespace Moment

/-- An offset as hours and minutes, with seconds only where they or their fraction are not
zero. -/
def offsetIso (offset : Int) : List Char :=
  let size := offset.natAbs
  let seconds := size / 1000000
  let whole := zeroPadded 2 (seconds / 3600) ++ ':' :: zeroPadded 2 (seconds / 60 % 60)
  let part :=
    if size % 60000000 = 0 then []
    else ':' :: (zeroPadded 2 (seconds % 60) ++ microsecondSuffix (size % 1000000))
  (if offset < 0 then '-' else '+') :: (whole ++ part)

def isoChars (separator : Char) (m : Moment) : List Char :=
  m.date.iso ++ separator :: m.clock.iso ++ (m.offset.map offsetIso).getD []

def iso (m : Moment) : String := String.ofList (m.isoChars 'T')

def display (m : Moment) : String := String.ofList (m.isoChars ' ')

/-- The parts of a duration that are not zero, in days, seconds and microseconds, where only the
days may be negative. -/
def durationParts (microseconds : Int) : List String :=
  let days := microseconds.fdiv dayLength
  let rest := (microseconds.fmod dayLength).toNat
  let part (name : String) (n : Int) : List String :=
    if n = 0 then [] else [name ++ "=" ++ toString n]
  part "days" days ++ part "seconds" (rest / 1000000 : Nat) ++
    part "microseconds" (rest % 1000000 : Nat)

def offsetLiteral (offset : Int) : String :=
  if offset = 0 then "datetime.timezone.utc"
  else "datetime.timezone(datetime.timedelta(" ++ ", ".intercalate (durationParts offset) ++ "))"

/-- Constructor notation: the fields in order, without a second and microsecond that are zero. -/
def literal (m : Moment) : String :=
  let c := m.clock
  let seconds :=
    if c.microsecond ≠ 0 then [c.second, c.microsecond]
    else if c.second ≠ 0 then [c.second]
    else []
  let fields := [m.date.year, m.date.month, m.date.day, c.hour, c.minute] ++ seconds
  let zone := (m.offset.map fun offset => "tzinfo=" ++ offsetLiteral offset).toList
  "datetime.datetime(" ++ ", ".intercalate (fields.map toString ++ zone) ++ ")"

end Moment

end Intake
