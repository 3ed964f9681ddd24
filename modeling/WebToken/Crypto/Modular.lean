/-!
# Arithmetic modulo a number

Powers by repeated squaring and inverses by the coefficients of the greatest common divisor.

* `mul_inverseMod` : the inverse is one whenever the two numbers have no common divisor.
-/

namespace WebToken

namespace Crypto

/-- The power `b ^ e` modulo `m`. -/
def powMod (b e m : Nat) : Nat :=
  if e = 0 then 1 % m
  else
    let half := powMod (b * b % m) (e / 2) m
    if e % 2 = 1 then b * half % m else half
termination_by e

/-- Coefficients with which two numbers give their greatest common divisor. -/
def bezout (a b : Nat) : Int × Int :=
  if b = 0 then (1, 0)
  else
    let (x, y) := bezout b (a % b)
    (y, x - (a / b : Nat) * y)
termination_by b
decreasing_by exact Nat.mod_lt _ (Nat.pos_of_ne_zero ‹_›)

theorem bezout_eq (a b : Nat) : a * (bezout a b).1 + b * (bezout a b).2 = Nat.gcd a b := by
  induction b using Nat.strongRecOn generalizing a with
  | ind b ih =>
    rw [bezout]
    split
    · next h => simp [h]
    · next h =>
      have hlt : a % b < b := Nat.mod_lt _ (Nat.pos_of_ne_zero h)
      have hi := ih (a % b) hlt b
      have hd : (a : Int) = b * (a / b : Nat) + (a % b : Nat) := by
        exact_mod_cast (Nat.div_add_mod a b).symm
      have hg : Nat.gcd a b = Nat.gcd b (a % b) := by
        rw [Nat.gcd_comm, Nat.gcd_rec, Nat.gcd_comm]
      rw [hg, ← hi]
      simp only [Int.mul_sub]
      generalize (bezout b (a % b)).1 = x
      generalize (bezout b (a % b)).2 = y
      conv => lhs; lhs; lhs; rw [hd]
      rw [Int.add_mul, Int.mul_assoc]
      omega

/-- The number whose product with `a` is one modulo `m`, if `a` and `m` have no common divisor. -/
def inverseMod (a m : Nat) : Nat := ((bezout a m).1 % m).toNat

/-- The inverse is one. -/
theorem mul_inverseMod {a m : Nat} (hm : 1 < m) (h : Nat.gcd a m = 1) :
    a * inverseMod a m % m = 1 := by
  have hb := bezout_eq a m
  rw [h] at hb
  have hnn : 0 ≤ (bezout a m).1 % m := Int.emod_nonneg _ (by omega)
  have hc : ((a * inverseMod a m % m : Nat) : Int) = 1 := by
    rw [inverseMod, Int.natCast_emod, Int.natCast_mul, Int.toNat_of_nonneg hnn,
      Int.mul_emod, Int.emod_emod_of_dvd _ (Int.dvd_refl _), ← Int.mul_emod]
    have : (a : Int) * (bezout a m).1 = 1 - m * (bezout a m).2 := by
      have : ((1 : Nat) : Int) = 1 := rfl
      omega
    rw [this, Int.sub_mul_emod_self_left]
    exact Int.emod_eq_of_lt (by omega) (by omega)
  exact_mod_cast hc

theorem inverseMod_lt {m : Nat} (hm : 0 < m) (a : Nat) : inverseMod a m < m := by
  have h1 : 0 ≤ (bezout a m).1 % m := Int.emod_nonneg _ (by omega)
  have h2 : (bezout a m).1 % m < m := Int.emod_lt_of_pos _ (by omega)
  rw [inverseMod]
  omega

end Crypto

end WebToken
