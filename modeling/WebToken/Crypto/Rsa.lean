import WebToken.Bytes
import WebToken.Crypto.Modular

/-!
# RSA keys

A public key is a modulus and an exponent. A private key adds the private exponent and the two
factors of the modulus; the numbers that speed up its use are derived from these. The conditions
on the numbers are part of the types, and `PublicKey.ofNumbers` and `PrivateKey.ofNumbers` say
which of them fails first.
-/

namespace WebToken

namespace Crypto

namespace Rsa

/-! ## Keys -/

/-- A public key. -/
structure PublicKey where
  modulus : Nat
  exponent : Nat
  modulus_odd : modulus % 2 = 1
  exponent_odd : exponent % 2 = 1
  one_lt_exponent : 1 < exponent
  /-- The exponent has at most 33 bits. -/
  exponent_lt : exponent < 0x200000000
  exponent_lt_modulus : exponent < modulus
  deriving DecidableEq

/-- A private key. -/
structure PrivateKey extends PublicKey where
  /-- The private exponent. -/
  secret : Nat
  p : Nat
  q : Nat
  product : p * q = modulus
  inverse_p : secret * exponent % (p - 1) = 1
  inverse_q : secret * exponent % (q - 1) = 1
  coprime : Nat.gcd q p = 1
  deriving DecidableEq

/-- Why numbers are no key. -/
inductive Flaw where
  | modulusTooLarge
  | invalidModulus
  | exponentTooLarge
  | exponentTooSmall
  | invalidExponent
  | invalidPrime
  deriving Repr, DecidableEq

/-- The wording of a flaw. -/
def Flaw.message : Flaw → String
  | .modulusTooLarge => "modulus too large"
  | .invalidModulus => "invalid modulus"
  | .exponentTooLarge => "public exponent too large"
  | .exponentTooSmall => "public exponent too small"
  | .invalidExponent => "invalid exponent"
  | .invalidPrime => "invalid prime value"

namespace PublicKey

/-- Bits of the modulus. -/
def bits (k : PublicKey) : Nat := Bytes.bitLength k.modulus

/-- Bytes of the modulus, and of everything that the key signs or encrypts. -/
def size (k : PublicKey) : Nat := Bytes.byteLength k.modulus

/-- The public key of two numbers. -/
def ofNumbers (n e : Nat) : Except Flaw PublicKey :=
  if 0x10000000000000000 ≤ e then .error .exponentTooLarge
  else if hn : n ≤ e ∨ n % 2 = 0 then .error .invalidModulus
  else if he : e % 2 = 0 then .error .invalidExponent
  else if hs : e < 2 then .error .exponentTooSmall
  else if hl : 0x200000000 ≤ e then .error .exponentTooLarge
  else .ok ⟨n, e, by omega, by omega, by omega, by omega, by omega⟩

/-- The numbers of a key are accepted. -/
theorem ofNumbers_self (k : PublicKey) : ofNumbers k.modulus k.exponent = .ok k := by
  have h1 := k.modulus_odd
  have h2 := k.exponent_odd
  have h3 := k.one_lt_exponent
  have h4 := k.exponent_lt
  have h5 := k.exponent_lt_modulus
  rw [ofNumbers, if_neg (by omega), dif_neg (by omega), dif_neg (by omega), dif_neg (by omega),
    dif_neg (by omega)]

/-- The public function on numbers below the modulus. -/
def apply (k : PublicKey) (m : Nat) : Nat := powMod m k.exponent k.modulus

end PublicKey

namespace PrivateKey

/-- The private key of a public one with further numbers. -/
def ofNumbers (k : PublicKey) (d p q : Nat) : Except Flaw PrivateKey :=
  if p ≤ 1 ∨ q ≤ 1 then .error .invalidPrime
  else if hn : p * q = k.modulus then
    if hp : d * k.exponent % (p - 1) = 1 then
      if hq : d * k.exponent % (q - 1) = 1 then
        if hc : Nat.gcd q p = 1 then .ok ⟨k, d, p, q, hn, hp, hq, hc⟩
        else .error .invalidPrime
      else .error .invalidExponent
    else .error .invalidExponent
  else .error .invalidModulus

/-- Both factors are larger than one: the exponent is, and it has an inverse on both sides. -/
theorem one_lt_p (k : PrivateKey) : 1 < k.p := by
  have h1 := k.inverse_p
  have h2 := k.one_lt_exponent
  rcases Nat.lt_or_ge 1 k.p with h | h
  · exact h
  · rw [show k.p - 1 = 0 by omega, Nat.mod_zero] at h1
    have := Nat.dvd_one.1 ⟨k.secret, by rw [Nat.mul_comm, h1]⟩
    omega

theorem one_lt_q (k : PrivateKey) : 1 < k.q := by
  have h1 := k.inverse_q
  have h2 := k.one_lt_exponent
  rcases Nat.lt_or_ge 1 k.q with h | h
  · exact h
  · rw [show k.q - 1 = 0 by omega, Nat.mod_zero] at h1
    have := Nat.dvd_one.1 ⟨k.secret, by rw [Nat.mul_comm, h1]⟩
    omega

/-- The numbers of a key are accepted. -/
theorem ofNumbers_self (k : PrivateKey) :
    ofNumbers k.toPublicKey k.secret k.p k.q = .ok k := by
  have hp := k.one_lt_p
  have hq := k.one_lt_q
  rw [ofNumbers, if_neg (by omega), dif_pos k.product, dif_pos k.inverse_p, dif_pos k.inverse_q,
    dif_pos k.coprime]

/-- The private exponent for the first factor. -/
def dp (k : PrivateKey) : Nat := k.secret % (k.p - 1)

/-- The private exponent for the second factor. -/
def dq (k : PrivateKey) : Nat := k.secret % (k.q - 1)

/-- The inverse of the second factor modulo the first. -/
def qi (k : PrivateKey) : Nat := inverseMod k.q k.p

/-- The number that is the private power of `c` modulo each factor. -/
def combine (k : PrivateKey) (c : Nat) : Nat :=
  let m₁ := powMod c k.dp k.p
  let m₂ := powMod c k.dq k.q
  m₂ + k.qi * (m₁ + k.p - m₂ % k.p) % k.p * k.q

/-- The private function on numbers below the modulus. Its value is given only if the public
function leads back, as it does if the factors are prime. -/
def invert? (k : PrivateKey) (c : Nat) : Option Nat :=
  let m := k.combine c
  if k.toPublicKey.apply m = c then some m else none

end PrivateKey

end Rsa

end Crypto

end WebToken
