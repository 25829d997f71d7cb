/-!
Double-precision floating-point values, exactly: a sign, a significand and a power of two, so that
zero keeps its sign. `ofQuotient` is the one place where rounding happens.
-/
namespace Intake

inductive Binary64 where
  | nan
  | infinite (negative : Bool)
  | finite (negative : Bool) (significand : Nat) (exponent : Int)
  deriving DecidableEq, Repr, Inhabited

namespace Binary64

def precision : Nat := 53

def leastExponent : Int := -1074

def greatestExponent : Int := 971

def zero (negative : Bool) : Binary64 := .finite negative 0 leastExponent

def fraction (significand : Nat) (exponent : Int) : Nat × Nat :=
  (significand * Nat.pow 2 exponent.toNat, Nat.pow 2 (-exponent).toNat)

def toRat? : Binary64 → Option Rat
  | .finite negative significand exponent =>
    let (numerator, denominator) := fraction significand exponent
    let magnitude := mkRat numerator denominator
    some (if negative then -magnitude else magnitude)
  | _ => none

/-- The integer nearest to a quotient, a half going to the even neighbour. -/
def roundHalfEven (numerator denominator : Nat) : Nat :=
  let quotient := numerator / denominator
  let twice := 2 * (numerator % denominator)
  if denominator < twice ∨ (denominator = twice ∧ quotient % 2 = 1) then quotient + 1
  else quotient

/-- The greatest `k` with `2 ^ k ≤ numerator / denominator`, for positive arguments. -/
def binaryOrder (numerator denominator : Nat) : Int :=
  let guess : Int := (numerator.log2 : Int) - denominator.log2
  if denominator * Nat.pow 2 guess.toNat ≤ numerator * Nat.pow 2 (-guess).toNat then guess
  else guess - 1

/-- The value nearest to `numerator / denominator`; a magnitude that rounds to `2 ^ 1024` or more
is infinite. -/
def ofQuotient (negative : Bool) (numerator denominator : Nat) : Binary64 :=
  if numerator = 0 then zero negative
  else
    let exponent := max leastExponent (binaryOrder numerator denominator - (precision - 1))
    let significand :=
      roundHalfEven (numerator * Nat.pow 2 (-exponent).toNat)
        (denominator * Nat.pow 2 exponent.toNat)
    let (significand, exponent) :=
      if significand = Nat.pow 2 precision then (Nat.pow 2 (precision - 1), exponent + 1)
      else (significand, exponent)
    if greatestExponent < exponent then .infinite negative
    else .finite negative significand exponent

end Binary64

end Intake
