import WebToken.Crypto.Rsa.Encryption
import WebToken.Crypto.Rsa.Signature
import WebToken.Key
import WebToken.Proofs.Numbers

/-!
# RSA keys whose halves undo each other

If both factors of a modulus are prime, the private function is the inverse of the public one.
Then every message is signed, and what is encrypted for a key is decrypted by it. A signature that
is given is accepted whatever the factors are, since the private function looks at its value
before giving it.

* `Rsa.PrivateKey.sound_of_prime` : prime factors make the halves undo each other;
* `Rsa.PrivateKey.combine_eq_pow` : then the number combined from both factors is the private power;
* `Rsa.PrivateKey.Sound.opens` and `Rsa.PrivateKey.Sound.signs` : what follows for encryption and
  for signatures;
* `Rsa.PrivateKey.verify_of_sign?` : a signature is accepted by the public half;
* `Key.sound_ofMersenne` : the halves of a key of two known primes undo each other.
-/

namespace WebToken

namespace Crypto

/-! ## Powers modulo a prime -/

/-- A number that has an inverse modulo `m` is no multiple of `m`. -/
theorem mod_ne_zero_of_mul_mod {a b m : Nat} (h : a * b % m = 1) : a % m ≠ 0 := by
  intro ha
  rw [Nat.mul_mod, ha, Nat.zero_mul, Nat.zero_mod] at h
  cases h

/-- Modulo a prime `p` an exponent counts modulo `p - 1`, unless it leaves nothing. -/
theorem pow_mod_pred {p a : Nat} (hp : p.Prime) (ha : a % (p - 1) ≠ 0) (c : Nat) :
    c ^ (a % (p - 1)) % p = c ^ a % p := by
  have := Fact.mk hp
  have hcast : ((c ^ (a % (p - 1)) : Nat) : ZMod p) = (c ^ a : Nat) := by
    rw [Nat.cast_pow, Nat.cast_pow]
    by_cases hc : (c : ZMod p) = 0
    -- a power of zero is zero, but not the power whose exponent is zero
    · have ha' : a ≠ 0 := by
        rintro rfl
        exact ha (Nat.zero_mod _)
      rw [hc, zero_pow ha, zero_pow ha']
    · conv_rhs => rw [← Nat.div_add_mod a (p - 1), pow_add, pow_mul,
        ZMod.pow_card_sub_one_eq_one hc, one_pow, one_mul]
  exact (ZMod.natCast_eq_natCast_iff' _ _ _).1 hcast

/-- An exponent that leaves one modulo `p - 1` does nothing modulo a prime `p`. -/
theorem pow_mod_of_mod_pred {p a : Nat} (hp : p.Prime) (ha : a % (p - 1) = 1) (c : Nat) :
    c ^ a % p = c % p := by
  rw [← pow_mod_pred hp (by omega), ha, Nat.pow_one]

namespace Rsa

/-! ## The size of a modulus -/

namespace PublicKey

variable (k : PublicKey)

theorem modulus_pos : 0 < k.modulus := Nat.lt_of_le_of_lt (Nat.zero_le _) k.exponent_lt_modulus

/-- A modulus fits into as many bytes as its size tells. -/
theorem modulus_lt : k.modulus < 256 ^ k.size := Bytes.lt_pow_byteLength _

/-- One byte less is too little for a modulus. -/
theorem le_modulus : 256 ^ (k.size - 1) ≤ k.modulus :=
  Bytes.pow_byteLength_le (Nat.pos_iff_ne_zero.1 k.modulus_pos)

/-- A block that begins with a zero byte is below the modulus. -/
theorem toNat_lt_modulus {rest : Bytes} (h : rest.length + 1 = k.size) :
    Bytes.toNat (0 :: rest) < k.modulus := by
  have hlt := Bytes.toNat_lt rest
  rw [Bytes.toNat_zero_cons]
  calc Bytes.toNat rest < 256 ^ rest.length := hlt
    _ = 256 ^ (k.size - 1) := by rw [← h, Nat.add_sub_cancel]
    _ ≤ k.modulus := k.le_modulus

/-- What the public function gives is below the modulus. -/
theorem apply_lt (m : Nat) : k.apply m < k.modulus := by
  rw [apply, powMod_eq]
  exact Nat.mod_lt _ k.modulus_pos

/-- A number below the modulus is found again in its bytes. -/
theorem toNat_ofNat_of_lt {m : Nat} (h : m < k.modulus) :
    Bytes.toNat (Bytes.ofNat k.size m) = m := by
  rw [Bytes.toNat_ofNat, Nat.mod_eq_of_lt (Nat.lt_trans h k.modulus_lt)]

end PublicKey

/-! ## The numbers of a key -/

/-- The number that two powers of `c` make, one modulo each of two factors. -/
def recombine (p q dp dq qi c : Nat) : Nat :=
  let m₁ := c ^ dp % p
  let m₂ := c ^ dq % q
  m₂ + qi * (m₁ + p - m₂ % p) % p * q

/-- The numbers of a private key, with those that are derived. -/
structure Numbers where
  n : Nat
  e : Nat
  d : Nat
  p : Nat
  q : Nat
  dp : Nat
  dq : Nat
  qi : Nat

/-- Whether the numbers of a private key fit together. -/
structure Numbers.Fit (x : Numbers) : Prop where
  product : x.p * x.q = x.n
  inverse_p : x.e * x.d % (x.p - 1) = 1
  inverse_q : x.e * x.d % (x.q - 1) = 1
  dp : x.dp = x.d % (x.p - 1)
  dq : x.dq = x.d % (x.q - 1)
  qi : x.qi < x.p ∧ x.qi * x.q % x.p = 1

/-- Whether the private power undoes the public one, and is recombined from the derived numbers. -/
structure Numbers.Invert (x : Numbers) : Prop where
  power : ∀ m < x.n, (m ^ x.e) ^ x.d % x.n = m
  recombined : ∀ c, recombine x.p x.q x.dp x.dq x.qi c = c ^ x.d % x.n

/-- Two numbers make one public key at most. -/
theorem PublicKey.ofNumbers_eq_ok_iff {k : PublicKey} {n e : Nat} :
    PublicKey.ofNumbers n e = .ok k ↔ k.modulus = n ∧ k.exponent = e := by
  constructor
  · intro h
    unfold PublicKey.ofNumbers at h
    repeat' split at h
    all_goals cases h
    exact ⟨rfl, rfl⟩
  · rintro ⟨rfl, rfl⟩
    exact k.ofNumbers_self

namespace PrivateKey

variable (k : PrivateKey)

/-- Further numbers make one private key of a public one at most. -/
theorem ofNumbers_eq_ok_iff {k : PublicKey} {key : PrivateKey} {d p q : Nat} :
    ofNumbers k d p q = .ok key ↔
      key.toPublicKey = k ∧ key.secret = d ∧ key.p = p ∧ key.q = q := by
  constructor
  · intro h
    unfold ofNumbers at h
    repeat' split at h
    all_goals cases h
    exact ⟨rfl, rfl, rfl, rfl⟩
  · rintro ⟨rfl, rfl, rfl, rfl⟩
    exact key.ofNumbers_self

/-- The exponent for the first factor is not zero: it has an inverse. -/
theorem dp_ne_zero : k.dp ≠ 0 := mod_ne_zero_of_mul_mod k.inverse_p

/-- The exponent for the second factor is not zero: it has an inverse. -/
theorem dq_ne_zero : k.dq ≠ 0 := mod_ne_zero_of_mul_mod k.inverse_q

/-- The inverse of the second factor modulo the first is the only one below it. -/
theorem eq_qi_iff {x : Nat} : x = k.qi ↔ x < k.p ∧ x * k.q % k.p = 1 := by
  have hp := k.one_lt_p
  have hlt : k.qi < k.p := inverseMod_lt (by omega) k.q
  have hinv : k.qi * k.q % k.p = 1 := by
    rw [Nat.mul_comm]
    exact mul_inverseMod hp k.coprime
  constructor
  · rintro rfl
    exact ⟨hlt, hinv⟩
  · rintro ⟨hx, hxinv⟩
    have hmul : x * k.q ≡ k.qi * k.q [MOD k.p] := hxinv.trans hinv.symm
    have hmod : x ≡ k.qi [MOD k.p] := hmul.cancel_right_of_coprime (Nat.coprime_comm.1 k.coprime)
    exact hmod.eq_of_lt_of_lt hx hlt

/-- A number modulo the modulus is determined by what it is modulo each factor. -/
theorem mod_modulus_eq {a b : Nat} (hp : a % k.p = b % k.p) (hq : a % k.q = b % k.q) :
    a % k.modulus = b % k.modulus := by
  have hcoprime : Nat.Coprime k.p k.q := Nat.Coprime.symm k.coprime
  have hmod : a ≡ b [MOD k.p * k.q] :=
    (Nat.modEq_and_modEq_iff_modEq_mul hcoprime).1 ⟨hp, hq⟩
  rwa [k.product] at hmod

/-! ## The private function -/

/-- Modulo the first factor the combined number is the private power. -/
theorem combine_mod_p (c : Nat) : k.combine c % k.p = c ^ k.dp % k.p := by
  have hp := k.one_lt_p
  have hinv : k.q * k.qi % k.p = 1 := mul_inverseMod hp k.coprime
  have hlt : powMod c k.dq k.q % k.p < k.p := Nat.mod_lt _ (by omega)
  unfold combine
  rw [powMod_eq c k.dp]
  generalize powMod c k.dq k.q = m at *
  have hcast : ((m + k.qi * (c ^ k.dp % k.p + k.p - m % k.p) % k.p * k.q : Nat) : ZMod k.p) =
      ((c ^ k.dp : Nat) : ZMod k.p) := by
    have hone : ((k.q : Nat) : ZMod k.p) * ((k.qi : Nat) : ZMod k.p) = 1 := by
      rw [← Nat.cast_mul, ← ZMod.natCast_mod, hinv, Nat.cast_one]
    rw [Nat.cast_add, Nat.cast_mul, ZMod.natCast_mod, Nat.cast_mul, Nat.cast_sub (by omega),
      Nat.cast_add, ZMod.natCast_mod, ZMod.natCast_mod, ZMod.natCast_self]
    linear_combination (((c ^ k.dp : Nat) : ZMod k.p) - m) * hone
  exact (ZMod.natCast_eq_natCast_iff' _ _ _).1 hcast

/-- Modulo the second factor the combined number is the private power. -/
theorem combine_mod_q (c : Nat) : k.combine c % k.q = c ^ k.dq % k.q := by
  unfold combine
  rw [Nat.add_mul_mod_self_right, powMod_eq c k.dq, Nat.mod_mod]

theorem combine_lt (c : Nat) : k.combine c < k.modulus := by
  have hp := k.one_lt_p
  have hq := k.one_lt_q
  have hm : powMod c k.dq k.q < k.q := by
    rw [powMod_eq]
    exact Nat.mod_lt _ (by omega)
  unfold combine
  simp only [← k.product]
  generalize hx : k.qi * (powMod c k.dp k.p + k.p - powMod c k.dq k.q % k.p) % k.p = x
  have hlt : x < k.p := hx ▸ Nat.mod_lt _ (by omega)
  calc powMod c k.dq k.q + x * k.q < k.q + x * k.q := Nat.add_lt_add_right hm _
    _ = (x + 1) * k.q := by rw [Nat.add_mul, Nat.one_mul, Nat.add_comm]
    _ ≤ k.p * k.q := Nat.mul_le_mul_right _ hlt

/-- The number of a key is made with the numbers derived for it. -/
theorem combine_eq_recombine (c : Nat) :
    k.combine c = recombine k.p k.q k.dp k.dq k.qi c := by
  simp only [combine, recombine, powMod_eq]

/-- Whether the public function undoes the private one on all numbers below the modulus. -/
def Sound (k : PrivateKey) : Prop := ∀ c < k.modulus, k.toPublicKey.apply (k.combine c) = c

/-- The public power of a number that is a private power modulo a prime. -/
theorem pow_exponent_mod {r d m c : Nat} (hr : r.Prime) (hd : d * k.exponent % (r - 1) = 1)
    (hm : m % r = c ^ (d % (r - 1)) % r) : m ^ k.exponent % r = c % r := by
  have hexp : d % (r - 1) * k.exponent % (r - 1) = 1 := by
    rw [Nat.mod_mul_mod, hd]
  rw [Nat.pow_mod, hm, ← Nat.pow_mod, ← Nat.pow_mul]
  exact pow_mod_of_mod_pred hr hexp c

/-- Prime factors make the halves of a key undo each other. -/
theorem sound_of_prime (hp : k.p.Prime) (hq : k.q.Prime) : k.Sound := by
  intro c hc
  have hmodp : k.combine c ^ k.exponent % k.p = c % k.p :=
    k.pow_exponent_mod hp k.inverse_p (k.combine_mod_p c)
  have hmodq : k.combine c ^ k.exponent % k.q = c % k.q :=
    k.pow_exponent_mod hq k.inverse_q (k.combine_mod_q c)
  rw [PublicKey.apply, powMod_eq, k.mod_modulus_eq hmodp hmodq, Nat.mod_eq_of_lt hc]

/-- Prime factors make the combined number the private power. -/
theorem combine_eq_pow (hp : k.p.Prime) (hq : k.q.Prime) (c : Nat) :
    k.combine c = c ^ k.secret % k.modulus := by
  have hmodp : k.combine c % k.p = c ^ k.secret % k.p := by
    rw [k.combine_mod_p, dp, pow_mod_pred hp k.dp_ne_zero]
  have hmodq : k.combine c % k.q = c ^ k.secret % k.q := by
    rw [k.combine_mod_q, dq, pow_mod_pred hq k.dq_ne_zero]
  rw [← k.mod_modulus_eq hmodp hmodq, Nat.mod_eq_of_lt (k.combine_lt c)]

/-- Prime factors make the private power of a public power the number itself. -/
theorem pow_pow_secret (hp : k.p.Prime) (hq : k.q.Prime) {m : Nat} (hm : m < k.modulus) :
    (m ^ k.exponent) ^ k.secret % k.modulus = m := by
  have hmodp : (m ^ k.exponent) ^ k.secret % k.p = m % k.p := by
    rw [← Nat.pow_mul, Nat.mul_comm, pow_mod_of_mod_pred hp k.inverse_p]
  have hmodq : (m ^ k.exponent) ^ k.secret % k.q = m % k.q := by
    rw [← Nat.pow_mul, Nat.mul_comm, pow_mod_of_mod_pred hq k.inverse_q]
  rw [k.mod_modulus_eq hmodp hmodq, Nat.mod_eq_of_lt hm]

/-! ## The numbers that a key is written with -/

/-- The numbers of a key as they are written, with those that are derived. -/
def numbers (k : PrivateKey) : Numbers where
  n := k.modulus
  e := k.exponent
  d := k.secret
  p := k.p
  q := k.q
  dp := k.dp
  dq := k.dq
  qi := k.qi

theorem fit_numbers : k.numbers.Fit where
  product := k.product
  inverse_p := by
    rw [Nat.mul_comm]
    exact k.inverse_p
  inverse_q := by
    rw [Nat.mul_comm]
    exact k.inverse_q
  dp := rfl
  dq := rfl
  qi := k.eq_qi_iff.1 rfl

theorem invert_numbers (hp : k.p.Prime) (hq : k.q.Prime) : k.numbers.Invert where
  power _ hm := k.pow_pow_secret hp hq hm
  recombined c := (k.combine_eq_recombine c).symm.trans (k.combine_eq_pow hp hq c)

variable {k}

theorem Sound.invert?_eq (h : k.Sound) {c : Nat} (hc : c < k.modulus) :
    k.invert? c = some (k.combine c) := by
  rw [invert?, if_pos (h c hc)]

/-- The private function undoes the public one. -/
theorem Sound.invert?_apply (h : k.Sound) {m : Nat} (hm : m < k.modulus) :
    k.invert? (k.toPublicKey.apply m) = some m := by
  -- an injection of the numbers below the modulus into themselves reaches each of them
  let f : Fin k.modulus → Fin k.modulus := fun c => ⟨k.combine c, k.combine_lt c⟩
  have hinj : Function.Injective f := by
    intro a b hab
    have hcombine : k.combine a = k.combine b := congrArg Fin.val hab
    apply Fin.ext
    rw [← h a a.isLt, hcombine, h b b.isLt]
  obtain ⟨c, hc⟩ := Finite.surjective_of_injective hinj ⟨m, hm⟩
  have hcombine : k.combine c = m := congrArg Fin.val hc
  rw [← hcombine, h c c.isLt]
  exact h.invert?_eq c.isLt

/-- A value that is given leads back, and is below the modulus. -/
theorem of_invert?_eq_some {c m : Nat} (h : k.invert? c = some m) :
    k.toPublicKey.apply m = c ∧ m < k.modulus := by
  unfold invert? at h
  simp only at h
  split at h
  · next happly =>
    cases h
    exact ⟨happly, k.combine_lt c⟩
  · cases h

/-! ## Encryption -/

/-- Whether a key decrypts all that is encrypted for it. -/
def Opens (k : PrivateKey) : Prop :=
  ∀ (h : Hash) (seed text ciphertext : Bytes), seed.length = h.size →
    k.toPublicKey.encrypt? h seed text = some ciphertext → k.decrypt? h ciphertext = some text

theorem length_masked {h : Hash} {size : Nat} {seed text : Bytes} (hs : seed.length = h.size)
    (ht : text.length + 2 * h.size + 2 ≤ size) : (masked h size seed text).length = size := by
  have hn : (filled h (size - h.size - 1) text).length = size - h.size - 1 :=
    length_filled (by omega)
  simp only [masked, List.length_append, List.length_cons, Bytes.length_xor, length_maskOf, hn, hs]
  omega

/-- A key whose halves undo each other decrypts all that is encrypted for it. -/
theorem Sound.opens (h : k.Sound) : k.Opens := by
  intro hash seed text ciphertext hseed hencrypt
  unfold PublicKey.encrypt? at hencrypt
  split at hencrypt
  · cases hencrypt
  · next hfits =>
    rw [Nat.not_lt] at hfits
    have hlen := length_masked hseed hfits
    -- the masked text begins with a zero byte, so the public function can be undone on it
    have hlt : Bytes.toNat (masked hash k.size seed text) < k.modulus :=
      k.toPublicKey.toNat_lt_modulus hlen
    have happly := k.toPublicKey.apply_lt (Bytes.toNat (masked hash k.size seed text))
    rw [← Option.some.inj hencrypt, decrypt?, Bytes.length_ofNat,
      k.toPublicKey.toNat_ofNat_of_lt happly, if_neg (by omega), h.invert?_apply hlt]
    have hblock := Bytes.ofNat_toNat (masked hash k.size seed text)
    rw [hlen] at hblock
    show unmasked? hash (Bytes.ofNat k.size _) = some text
    rw [hblock]
    exact unmasked?_masked hseed hfits

/-! ## Signatures -/

/-- Whether a key signs every message. -/
def Signs (k : PrivateKey) : Prop :=
  ∀ (h : Hash) (message : Bytes), ∃ signature, k.sign? h message = some signature

/-- Bytes that the largest hash takes in a block, with its label and the least filling. -/
def signedBytes : Nat := 86

theorem length_signed (h : Hash) {size : Nat} (hs : signedBytes ≤ size) (message : Bytes) :
    (signed h size message).length = size := by
  have hinfo : (hashLabel h).length + h.size + 3 ≤ signedBytes := by
    cases h <;> decide
  simp only [signed, List.length_append, List.length_cons, List.length_replicate,
    Hash.length_digest]
  omega

/-- A key whose halves undo each other signs every message. -/
theorem Sound.signs (h : k.Sound) (hs : signedBytes ≤ k.size) : k.Signs := by
  intro hash message
  have hlt : Bytes.toNat (signed hash k.size message) < k.modulus :=
    k.toPublicKey.toNat_lt_modulus (length_signed hash hs message)
  rw [sign?, h.invert?_eq hlt]
  exact ⟨_, rfl⟩

/-- A signature is accepted by the public half. -/
theorem verify_of_sign? (hs : signedBytes ≤ k.size) {h : Hash} {message signature : Bytes}
    (hsign : k.sign? h message = some signature) :
    k.toPublicKey.verify h message signature = true := by
  obtain ⟨m, hm, rfl⟩ := Option.map_eq_some_iff.1 hsign
  obtain ⟨happly, hlt⟩ := of_invert?_eq_some hm
  have hblock : Bytes.ofNat k.size (Bytes.toNat (signed h k.size message)) =
      signed h k.size message := by
    have hofNat := Bytes.ofNat_toNat (signed h k.size message)
    rwa [length_signed h hs message] at hofNat
  rw [PublicKey.verify, Bytes.length_ofNat, k.toPublicKey.toNat_ofNat_of_lt hlt, happly, hblock]
  simp [hlt]

/-! ## A key of Mersenne primes -/

/-- A key whose factors are Mersenne primes. -/
def ofMersenne : PrivateKey where
  modulus := mersenne 1279 * mersenne 2203
  exponent := 65537
  modulus_odd := by decide +kernel
  exponent_odd := by decide
  one_lt_exponent := by decide
  exponent_lt := by decide
  exponent_lt_modulus := by decide +kernel
  secret := (1 + 30861 * ((mersenne 1279 - 1) * (mersenne 2203 - 1))) / 65537
  p := mersenne 1279
  q := mersenne 2203
  product := rfl
  inverse_p := by decide +kernel
  inverse_q := by decide +kernel
  coprime := by decide +kernel

theorem prime_p_ofMersenne : ofMersenne.p.Prime :=
  lucas_lehmer_sufficiency 1279 (by decide) (by norm_num)

theorem prime_q_ofMersenne : ofMersenne.q.Prime :=
  lucas_lehmer_sufficiency 2203 (by decide) (by norm_num)

theorem sound_ofMersenne : ofMersenne.Sound :=
  sound_of_prime _ prime_p_ofMersenne prime_q_ofMersenne

end PrivateKey

end Rsa

end Crypto

namespace Key

open Crypto

/-! ## Keys that are large enough -/

variable {key : Key}

/-- The public half of a private key is that of the key. -/
theorem rsaPublic?_of_rsaPrivate? {k : Rsa.PrivateKey} (h : key.rsaPrivate? = some k) :
    key.rsaPublic? = some k.toPublicKey := by
  obtain ⟨material, params⟩ := key
  cases material with
  | symmetric s => cases h
  | rsaPublic k large => cases h
  | rsaPrivate k large =>
    cases h
    rfl

theorem le_size {k : Rsa.PublicKey} (h : key.rsaPublic? = some k) : 256 ≤ k.size := by
  have hbits : minModulusBits ≤ k.bits :=
    rsaPublic?_cases h (fun _ large _ => large) fun _ large _ => large
  unfold minModulusBits Rsa.PublicKey.bits at hbits
  unfold Rsa.PublicKey.size Bytes.byteLength
  omega

/-- A private key has room for every signature. -/
theorem signedBytes_le_size {k : Rsa.PrivateKey} (h : key.rsaPrivate? = some k) :
    Rsa.PrivateKey.signedBytes ≤ k.size :=
  Nat.le_trans (by decide) (le_size (rsaPublic?_of_rsaPrivate? h))

/-- A key without parameters permits everything. -/
theorem permits_of_params (h : key.params = .none) (alg : String) (use : KeyUse)
    (operations : List KeyOperation) : key.Permits alg use operations := by
  unfold Permits
  rw [h]
  exact ⟨nofun, nofun, nofun⟩

/-- The key of the Mersenne primes, for every use. -/
def ofMersenne : Key := ⟨.rsaPrivate .ofMersenne (by decide +kernel), .none⟩

theorem sound_ofMersenne {k : Rsa.PrivateKey} (h : ofMersenne.rsaPrivate? = some k) :
    k.Sound := by
  obtain rfl : .ofMersenne = k := Option.some.inj h
  exact Rsa.PrivateKey.sound_ofMersenne

end Key

end WebToken
