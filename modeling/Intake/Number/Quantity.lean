/-!
What a number is worth, on the rational line extended by the infinities and an undefined point.
Comparison is exact, and the undefined quantity compares with nothing, itself included.
-/
namespace Intake

inductive Quantity where
  | undefined
  | negativeInfinity
  | exactly (value : Rat)
  | infinity
  deriving DecidableEq, Inhabited

namespace Quantity

def lt : Quantity → Quantity → Bool
  | .undefined, _ => false
  | _, .undefined => false
  | .exactly a, .exactly b => a < b
  | .negativeInfinity, .negativeInfinity => false
  | .negativeInfinity, _ => true
  | _, .negativeInfinity => false
  | .infinity, _ => false
  | _, .infinity => true

def same : Quantity → Quantity → Bool
  | .undefined, _ => false
  | a, b => a == b

def le (a b : Quantity) : Bool := a.lt b || a.same b

/-- The Mersenne prime `2 ^ 61 - 1`, modulo which `2 ^ 61` is one. -/
def modulus : Nat := Nat.pow 2 61 - 1

def infinityResidue : Int := 314159

/-- The residue modulo `modulus` of a quantity whose denominator is a power of two. The undefined
quantity has none. -/
def residue : Quantity → Option Int
  | .undefined => none
  | .negativeInfinity => some (-infinityResidue)
  | .infinity => some infinityResidue
  | .exactly q =>
    let inverse := Nat.pow 2 (61 - q.den.log2 % 61)
    some (q.num.sign * (q.num.natAbs * inverse % modulus : Nat))

end Quantity

end Intake
