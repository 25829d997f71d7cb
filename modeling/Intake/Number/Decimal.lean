import Intake.Number.Binary64
import Intake.Text.Digits
import Intake.Text.Numeral

/-!
Decimal notation of floating-point values. Writing uses the fewest significant digits that read
back as the same value, and of those the nearest; `read?` takes the digits of every script.
-/
namespace Intake.Binary64

open Text

structure Layout where
  /-- The least decimal exponent written positionally. -/
  leastPositional : Int
  /-- The least decimal exponent above it that is written with an exponent again. -/
  leastScientific : Int
  /-- The least number of digits in a written exponent. -/
  exponentWidth : Nat

/-- Positional from `0.0001` up to sixteen integral digits; exponents have two digits at least. -/
def layout : Layout := ⟨-4, 16, 2⟩

def decimalOrder (numerator denominator : Nat) : Int :=
  if denominator ≤ numerator then (digits (numerator / denominator)).length - 1
  else -(digits ((denominator - 1) / numerator)).length

structure Neighbourhood where
  low : Nat
  value : Nat
  high : Nat
  denominator : Nat
  closed : Bool

/-- The reals that round to `significand * 2 ^ exponent`: half the gap on either side, where the
gap below a power of two is half as wide. -/
def neighbourhood (significand : Nat) (exponent : Int) : Neighbourhood :=
  let below :=
    if significand = Nat.pow 2 (precision - 1) ∧ leastExponent < exponent then 1 else 2
  let (scale, denominator) := fraction 1 (exponent - 2)
  { low := (4 * significand - below) * scale
    value := 4 * significand * scale
    high := (4 * significand + 2) * scale
    denominator
    closed := significand % 2 == 0 }

def Neighbourhood.holds (n : Neighbourhood) (numerator denominator : Nat) : Bool :=
  let low := n.low * denominator
  let point := numerator * n.denominator
  let high := n.high * denominator
  if n.closed then low ≤ point && point ≤ high else low < point && point < high

/-- The point nearest to the value on the grid of multiples of `10 ^ place`, if it lies in the
interval; of two that do, the nearer. -/
def Neighbourhood.onGrid? (n : Neighbourhood) (place : Int) : Option Nat :=
  let step := Nat.pow 10 place.toNat
  let part := Nat.pow 10 (-place).toNat
  let floor := n.value * part / (n.denominator * step)
  let holds (k : Nat) : Bool := n.holds (k * step) part
  if holds floor && holds (floor + 1) then
    some (roundHalfEven (n.value * part) (n.denominator * step))
  else if holds floor then some floor
  else if holds (floor + 1) then some (floor + 1)
  else none

/-- Digits and decimal exponent: the coarsest grid that has a point in the interval. Seventeen
digits always suffice. -/
def shortest (significand : Nat) (exponent : Int) : List Char × Int :=
  let n := neighbourhood significand exponent
  let order := decimalOrder n.value n.denominator
  let found := (List.range 17).findSome? fun (count : Nat) =>
    (n.onGrid? (order - count)).map fun point => (point, order - (count : Int))
  let (point, place) := found.getD (0, 0)
  let all := digits point
  let kept := (all.reverse.dropWhile (· == '0')).reverse
  (kept, place + (all.length - 1))

def exponentText (width : Nat) (exponent : Int) : List Char :=
  (if exponent < 0 then '-' else '+') :: zeroPadded width exponent.natAbs

def Layout.write (l : Layout) (digits : List Char) (exponent : Int) : List Char :=
  if exponent < l.leastPositional ∨ l.leastScientific ≤ exponent then
    let tail := if digits.length ≤ 1 then [] else '.' :: digits.drop 1
    digits.take 1 ++ tail ++ 'e' :: exponentText l.exponentWidth exponent
  else if exponent < 0 then
    '0' :: '.' :: (List.replicate (-exponent - 1).toNat '0' ++ digits)
  else
    let integral := exponent.toNat + 1
    let fractional := digits.drop integral
    digits.take integral ++ List.replicate (integral - digits.length) '0' ++
      '.' :: (if fractional.isEmpty then ['0'] else fractional)

def text : Binary64 → String
  | .nan => "nan"
  | .infinite negative => if negative then "-inf" else "inf"
  | .finite negative significand exponent =>
    let (digits, order) :=
      if significand = 0 then (['0'], 0) else shortest significand exponent
    let written := layout.write digits order
    String.ofList (if negative then '-' :: written else written)

/-- The value nearest to `digits * 10 ^ exponent`. Exponents far beyond the range are decided by
the order of magnitude alone. -/
def ofDecimal (negative : Bool) (digits : List Char) (exponent : Int) : Binary64 :=
  let digits := digits.dropWhile (· == '0')
  let order := digits.length + exponent
  if digits.isEmpty ∨ order < -400 then zero negative
  else if 400 < order then .infinite negative
  else
    ofQuotient negative (digitsValue digits * Nat.pow 10 exponent.toNat)
      (Nat.pow 10 (-exponent).toNat)

/-- A run of digits in which single underscores may stand between two digits, with the rest. -/
def spanDigits : List Char → List Char × List Char
  | c :: '_' :: d :: rest =>
    if c.isDigit && d.isDigit then
      let (digits, rest) := spanDigits (d :: rest)
      (c :: digits, rest)
    else if c.isDigit then ([c], '_' :: d :: rest)
    else ([], c :: '_' :: d :: rest)
  | c :: rest =>
    if c.isDigit then
      let (digits, rest) := spanDigits rest
      (c :: digits, rest)
    else ([], c :: rest)
  | [] => ([], [])

def readExponent? : List Char → Option Int
  | [] => some 0
  | c :: rest =>
    if c = 'e' ∨ c = 'E' then
      let (negative, rest) := splitSign rest
      match spanDigits rest with
      | ([], _) => none
      | (digits, []) => some (if negative then -(digitsValue digits) else digitsValue digits)
      | _ => none
    else none

def readNumeral? (negative : Bool) (cs : List Char) : Option Binary64 :=
  let (integral, rest) := spanDigits cs
  let (fractional, rest) := match rest with
    | '.' :: rest => spanDigits rest
    | rest => ([], rest)
  if integral.isEmpty && fractional.isEmpty then none
  else (readExponent? rest).map fun exponent =>
    ofDecimal negative (integral ++ fractional) (exponent - fractional.length)

def isBlank (c : Char) : Bool := c == ' ' || (0x09 ≤ c.toNat && c.toNat ≤ 0x0D)

def trimmed (cs : List Char) : List Char :=
  ((cs.dropWhile isBlank).reverse.dropWhile isBlank).reverse

def readPlain? (cs : List Char) : Option Binary64 :=
  let (negative, cs) := splitSign (cs.map Char.toLower)
  if cs = "nan".toList then some .nan
  else if cs = "inf".toList ∨ cs = "infinity".toList then some (.infinite negative)
  else readNumeral? negative cs

def read? (s : String) : Option Binary64 :=
  (s.toList.mapM asciiNumeral?).bind fun cs => readPlain? (trimmed cs)

example : (read? "0.00001").map text = some "1e-05" := by decide +kernel
example : (read? "9007199254740993").map text = some "9007199254740992.0" := by decide +kernel
example : (read? "3e-324").map text = some "5e-324" := by decide +kernel

end Intake.Binary64
