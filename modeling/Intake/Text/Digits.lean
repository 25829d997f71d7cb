/-!
Decimal digits of natural numbers, and signs before them. Only ASCII digits count as digits.
-/
namespace Intake.Text

def digitValue (c : Char) : Nat := c.toNat - '0'.toNat

def digitsValue (digits : List Char) : Nat :=
  digits.foldl (fun n c => 10 * n + digitValue c) 0

/-- An optional sign: whether it is a minus, and what follows. -/
def splitSign : List Char → Bool × List Char
  | '-' :: rest => (true, rest)
  | '+' :: rest => (false, rest)
  | rest => (false, rest)

def digits (n : Nat) : List Char := Nat.toDigits 10 n

/-- The most digits that an integer is written with, or read from. -/
def longestNumeral : Nat := 4300

theorem length_digits_le_iff {n width : Nat} (positive : 0 < width) :
    (digits n).length ≤ width ↔ n < Nat.pow 10 width :=
  Nat.length_toDigits_le_iff (by decide) positive

def zeroPadded (width n : Nat) : List Char :=
  List.replicate (width - (digits n).length) '0' ++ digits n

end Intake.Text
