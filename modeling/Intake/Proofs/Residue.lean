import Mathlib.Data.Nat.ModEq
import Mathlib.Data.Nat.Prime.Basic
import Intake.Value.Basic

/-! Residues from notation. An integer is reduced and a significand is turned by its exponent,
since `2 ^ 61` is one modulo `2 ^ 61 - 1`; that gives the residue of the quantity. -/
namespace Intake

namespace Quantity

theorem two_pow_order_modEq : 2 ^ 61 ≡ 1 [MOD modulus] := rfl

theorem two_pow_modEq {a b : Nat} (turned : a % 61 = b % 61) :
    2 ^ a ≡ 2 ^ b [MOD modulus] := by
  have rest (k : Nat) : 2 ^ k ≡ 2 ^ (k % 61) [MOD modulus] := by
    calc 2 ^ k = 2 ^ (k % 61) * (2 ^ 61) ^ (k / 61) := by rw [← pow_mul, ← pow_add, Nat.mod_add_div]
      _ ≡ 2 ^ (k % 61) * 1 ^ (k / 61) [MOD modulus] := (two_pow_order_modEq.pow _).mul_left _
      _ = 2 ^ (k % 61) := by rw [one_pow, mul_one]
  exact (rest a).trans (turned ▸ (rest b).symm)

theorem gcd_modulus_two_pow (k : Nat) : modulus.gcd (2 ^ k) = 1 := by
  have odd : Nat.Coprime modulus 2 := by decide
  exact odd.pow_right k

theorem exists_den_mkRat (n : Int) (k : Nat) : ∃ m, (mkRat n (2 ^ k)).den = 2 ^ m := by
  have divides : (mkRat n (2 ^ k)).den ∣ 2 ^ k := by
    rw [Rat.den_mkRat, if_neg (Nat.two_pow_pos k).ne']
    exact Nat.div_dvd_of_dvd (Nat.gcd_dvd_left _ _)
  obtain ⟨m, _, den⟩ := (Nat.dvd_prime_pow Nat.prime_two).mp divides
  exact ⟨m, den⟩

theorem num_mul_eq {n k m : Nat} (den : (mkRat n (2 ^ k)).den = 2 ^ m) :
    (mkRat n (2 ^ k)).num.natAbs * 2 ^ k = n * 2 ^ m := by
  have same := Rat.mkRat_self (mkRat n (2 ^ k))
  rw [Rat.mkRat_eq_iff (Rat.den_nz _) (Nat.two_pow_pos k).ne', den] at same
  have sizes := congrArg Int.natAbs same
  rwa [Int.natAbs_mul, Int.natAbs_mul, Int.natAbs_natCast, Int.natAbs_natCast,
    Int.natAbs_natCast] at sizes

/-- Dividing by the denominator turns the numerator back, whatever was cancelled. -/
theorem num_mul_inverse_modEq {s p k r : Nat} (turned : (r + k) % 61 = p % 61) :
    let q := mkRat (s * 2 ^ p : Nat) (2 ^ k)
    q.num.natAbs * 2 ^ (61 - q.den.log2 % 61) ≡ s * 2 ^ r [MOD modulus] := by
  intro q
  obtain ⟨m, den⟩ := exists_den_mkRat (s * 2 ^ p : Nat) k
  have inverse : (p + m + (61 - m % 61)) % 61 = (r + k) % 61 := by omega
  have product : q.num.natAbs * 2 ^ k = s * 2 ^ p * 2 ^ m := num_mul_eq den
  rw [show q.den = _ from den, Nat.log2_two_pow]
  apply Nat.ModEq.cancel_right_of_coprime (gcd_modulus_two_pow k)
  calc q.num.natAbs * 2 ^ (61 - m % 61) * 2 ^ k
      = q.num.natAbs * 2 ^ k * 2 ^ (61 - m % 61) := by rw [mul_right_comm]
    _ = s * 2 ^ (p + m + (61 - m % 61)) := by
        rw [product, pow_add, pow_add, mul_assoc, mul_assoc, mul_assoc]
    _ ≡ s * 2 ^ (r + k) [MOD modulus] := (two_pow_modEq inverse).mul_left s
    _ = s * 2 ^ r * 2 ^ k := by rw [pow_add, mul_assoc]

/-- The sign goes over to the residue. -/
theorem residue_exactly {q : Rat} {r : Nat} (natural : 0 ≤ q.num)
    (turned : q.num.natAbs * 2 ^ (61 - q.den.log2 % 61) ≡ r [MOD modulus]) :
    (exactly q).residue = some ↑(r % modulus) ∧ (exactly (-q)).residue = some (-↑(r % modulus)) := by
  have reduced : q.num.natAbs * Nat.pow 2 (61 - q.den.log2 % 61) % modulus = r % modulus := turned
  simp only [residue, Rat.neg_num, Rat.neg_den, Int.natAbs_neg, Int.sign_neg, reduced]
  rcases natural.eq_or_lt with zero | positive
  · have nothing : r % modulus = 0 := by
      rw [← reduced, ← zero]
      simp
    simp [nothing]
  · simp [Int.sign_eq_one_of_pos positive]

end Quantity

/-- The residue of a number as it is notated: an exponent is a turn. -/
def Number.residue : Number → Option Int
  | .flag b => some (if b then 1 else 0)
  | .whole n => some (n.sign * (n.natAbs % Quantity.modulus : Nat))
  | .real .nan => none
  | .real (.infinite negative) =>
    some (if negative then -Quantity.infinityResidue else Quantity.infinityResidue)
  | .real (.finite negative significand exponent) =>
    let magnitude : Nat := significand * Nat.pow 2 (exponent % 61).toNat % Quantity.modulus
    some (if negative then -magnitude else magnitude)

/-- Both ways to a residue agree, so it goes by what a number is worth and not by its kind. -/
theorem Number.residue_quantity (n : Number) : n.quantity.residue = n.residue := by
  match n with
  | .flag false => decide
  | .flag true => decide
  | .whole n =>
    have turned := Quantity.two_pow_order_modEq.mul_left n.natAbs
    rw [mul_one] at turned
    exact congrArg (fun r : Nat => some (n.sign * (r : Int))) turned
  | .real .nan => rfl
  | .real (.infinite true) => rfl
  | .real (.infinite false) => rfl
  | .real (.finite negative significand exponent) =>
    have turned : ((exponent % 61).toNat + (-exponent).toNat) % 61 = exponent.toNat % 61 := by omega
    have natural :
        0 ≤ (mkRat (significand * 2 ^ exponent.toNat : Nat) (2 ^ (-exponent).toNat)).num := by
      rw [Rat.num_mkRat, if_neg (Nat.two_pow_pos _).ne']
      exact Int.ediv_nonneg (Int.natCast_nonneg _) (Int.natCast_nonneg _)
    have both := Quantity.residue_exactly natural (Quantity.num_mul_inverse_modEq turned)
    cases negative with
    | false => exact both.1
    | true => exact both.2

example : (Number.whole (2 ^ 61)).residue = some 1 := by decide
example : (Number.real (.finite true 3 (-1))).residue = some (-1152921504606846977) := by decide

end Intake
