import Intake.Moment.Basic
import Intake.Text.Digits

/-!
Reading a moment from ISO 8601 text. The time reader is lenient: its first separator tells whether
fields are separated, and text that is left over is reported, since only a time that ends the text
has to be complete.
-/
namespace Intake.Moment

open Text

def takeDigits? (count : Nat) (cs : List Char) : Option (Nat × List Char) :=
  let digits := cs.take count
  if digits.length = count ∧ digits.all Char.isDigit then
    some (digitsValue digits, cs.drop count)
  else none

/-- The weekday of an extended week date, Monday if there is none. A hyphen with two characters
after it, the second a digit, already separates the time. -/
def takeExtendedWeekday? : List Char → Option (Nat × List Char)
  | ['-'] => none
  | '-' :: c :: rest =>
    if (rest.head?.any Char.isDigit) then some (1, '-' :: c :: rest)
    else if c.isDigit then some (digitValue c, rest)
    else none
  | rest => some (1, rest)

/-- The weekday of a basic week date, Monday if there is none. The first digit of a run is the
weekday when the run is a single digit or even in length; otherwise it separates the time. -/
def takeBasicWeekday (cs : List Char) : Nat × List Char :=
  let run := (cs.takeWhile Char.isDigit).length
  match cs with
  | c :: rest => if run = 1 ∨ (run ≠ 0 ∧ run % 2 = 0) then (digitValue c, rest) else (1, cs)
  | [] => (1, cs)

def takeDate? (cs : List Char) : Option (Date × List Char) := do
  let (year, rest) ← takeDigits? 4 cs
  match rest with
  | '-' :: 'W' :: rest =>
    let (week, rest) ← takeDigits? 2 rest
    let (weekday, rest) ← takeExtendedWeekday? rest
    let date ← Date.ofWeek? year week weekday
    some (date, rest)
  | 'W' :: rest =>
    let (week, rest) ← takeDigits? 2 rest
    let (weekday, rest) := takeBasicWeekday rest
    let date ← Date.ofWeek? year week weekday
    some (date, rest)
  | '-' :: rest =>
    let (month, rest) ← takeDigits? 2 rest
    match rest with
    | '-' :: rest =>
      let (day, rest) ← takeDigits? 2 rest
      some (⟨year, month, day⟩, rest)
    | _ => none
  | rest =>
    let (month, rest) ← takeDigits? 2 rest
    let (day, rest) ← takeDigits? 2 rest
    some (⟨year, month, day⟩, rest)

inductive Continuation where
  | stop (leftover : Bool)
  | field (rest : List Char)
  | fraction (rest : List Char)

/-- The character that ends a text for the purpose of leftovers. -/
def terminator : Char := '\x00'

def isEnd (cs : List Char) : Bool := cs.head?.all (· = terminator)

def isSingleByte (c : Char) : Bool := c.toNat < 0x80

/-- Reads on after a field. One last byte cannot begin a field, so it is left over. -/
def continue? (separated : Bool) : List Char → Option Continuation
  | [] => some (.stop false)
  | [c] => if isSingleByte c then some (.stop (c ≠ terminator)) else none
  | c :: rest =>
    if separated ∧ c = ':' then some (.field rest)
    else if c = '.' ∨ c = ',' then some (.fraction rest)
    else if separated then none
    else some (.field (c :: rest))

def readFraction? (hour minute second : Nat) (cs : List Char) : Option (Clock × Bool) := do
  let count := min 6 cs.length
  let (value, rest) ← takeDigits? count cs
  let leftover := !isEnd (rest.dropWhile Char.isDigit)
  some (⟨hour, minute, second, value * Nat.pow 10 (6 - count)⟩, leftover)

def readClock? (cs : List Char) : Option (Clock × Bool) := do
  let (hour, rest) ← takeDigits? 2 cs
  let separated := rest.head? == some ':'
  match ← continue? separated rest with
  | .stop leftover => some (⟨hour, 0, 0, 0⟩, leftover)
  | .fraction rest => readFraction? hour 0 0 rest
  | .field rest =>
    let (minute, rest) ← takeDigits? 2 rest
    match ← continue? separated rest with
    | .stop leftover => some (⟨hour, minute, 0, 0⟩, leftover)
    | .fraction rest => readFraction? hour minute 0 rest
    | .field rest =>
      let (second, rest) ← takeDigits? 2 rest
      match ← continue? separated rest with
      | .stop leftover => some (⟨hour, minute, second, 0⟩, leftover)
      | .fraction rest => readFraction? hour minute second rest
      | .field rest => readFraction? hour minute second rest

/-- The offset that a clock reading denotes. A fraction without whole seconds is dropped. -/
def offsetOf (negative : Bool) (c : Clock) : Int :=
  let size : Nat := if c.microseconds < 1000000 then 0 else c.microseconds
  if negative then -size else size

def readTime? (cs : List Char) : Option (Clock × Option Int) := do
  let isZone (c : Char) : Bool := c == '+' || c == '-' || c == 'Z'
  let (clock, leftover) ← readClock? (cs.takeWhile fun c => !isZone c)
  match cs.dropWhile fun c => !isZone c with
  | [] => if leftover then none else some (clock, none)
  | sign :: zone =>
    if sign = 'Z' then if isEnd zone then some (clock, some 0) else none
    else
      let (offset, leftover) ← readClock? zone
      if leftover then none else some (clock, some (offsetOf (sign = '-') offset))

def checked? (date : Date) (clock : Clock) (offset : Option Int) : Option Moment :=
  let m : Moment := ⟨date, clock, offset⟩
  if m.isValid then some m else none

def readChars? (cs : List Char) : Option Moment := do
  let (date, rest) ← takeDate? cs
  match rest with
  | [] => checked? date ⟨0, 0, 0, 0⟩ none
  | _ :: time =>
    let (clock, offset) ← readTime? time
    checked? date clock offset

def read? (s : String) : Option Moment := readChars? s.toList

/-- A final letter Z, of either case, spelled as an offset of zero. -/
def expandZulu (cs : List Char) : List Char :=
  match cs.getLast? with
  | some 'Z' | some 'z' => cs.dropLast ++ "+00:00".toList
  | _ => cs

def accept? (s : String) : Option Moment := do
  let m ← readChars? (expandZulu s.toList)
  if origin.instant < m.instant then some m else none

end Intake.Moment
