import Mathlib
import WebToken.Bytes
import WebToken.Crypto.Modular

/-!
# Numbers as byte strings, and their powers

A number of a fixed width and the byte string that spells it determine each other, and powers
modulo a number are those of repeated squaring.

* `Bytes.toNat_ofNat` : writing a number in `k` bytes and reading it back gives the number
  modulo `256 ^ k`;
* `Bytes.ofNat_eq_iff` : which numbers are written alike in `k` bytes;
* `Bytes.ofNat_toNat` : reading a string of `k` bytes and writing it in `k` bytes gives the string;
* `Bytes.toNat_ofNatMinimal` : a number is read back from as few bytes as hold it;
* `Bytes.eq_ofNatMinimal_iff` : which strings take as few bytes for their number as can be;
* `Crypto.powMod_eq` : `powMod b e m = b ^ e % m`.
-/

namespace WebToken

namespace Bytes

/-- A digit put in front of the rest counts `256 ^ length` times. -/
theorem toNat_append (a b : Bytes) : toNat (a ++ b) = toNat a * 256 ^ b.length + toNat b := by
  have fold : ∀ (b : Bytes) (n : Nat),
      b.foldl (fun n b => 256 * n + b.toNat) n = n * 256 ^ b.length + toNat b := by
    intro b
    induction b with
    | nil => intro n; simp [toNat]
    | cons x b ih =>
      intro n
      have hx : toNat (x :: b) = x.toNat * 256 ^ b.length + toNat b := by
        show b.foldl (fun n b => 256 * n + b.toNat) (256 * 0 + x.toNat) = _
        rw [ih]; simp
      rw [List.foldl_cons, ih, hx, List.length_cons, Nat.pow_succ, Nat.add_mul,
        Nat.mul_right_comm 256 n, Nat.mul_comm (256 * _), Nat.add_assoc]
      congr 1
      simp only [Nat.mul_comm]
  rw [toNat, List.foldl_append, fold]
  rfl

@[simp] theorem toNat_nil : toNat [] = 0 := rfl

@[simp] theorem toNat_singleton (b : UInt8) : toNat [b] = b.toNat := by
  simp [toNat]

theorem toNat_cons (b : UInt8) (bytes : Bytes) :
    toNat (b :: bytes) = b.toNat * 256 ^ bytes.length + toNat bytes := by
  rw [← List.singleton_append, toNat_append, toNat_singleton]

/-- A zero byte in front does not count. -/
theorem toNat_zero_cons (bytes : Bytes) : toNat (0 :: bytes) = toNat bytes := by
  rw [toNat_cons, UInt8.toNat_zero, Nat.zero_mul, Nat.zero_add]

/-- Writing a number in `k` bytes keeps it modulo `256 ^ k`. -/
theorem toNat_ofNat (k n : Nat) : toNat (ofNat k n) = n % 256 ^ k := by
  induction k generalizing n with
  | zero => simp [ofNat, littleEndian, toNat, Nat.mod_one]
  | succ k ih =>
    have h : ofNat (k + 1) n = ofNat k (n / 256) ++ [UInt8.ofNat n] := by
      simp [ofNat, littleEndian]
    rw [h, toNat_append, ih, toNat_singleton, Nat.pow_succ, Nat.mul_comm (256 ^ k) 256,
      Nat.mod_mul]
    simp [Nat.mul_comm, Nat.add_comm]

theorem toNat_lt (b : Bytes) : toNat b < 256 ^ b.length := by
  induction b with
  | nil => simp [toNat]
  | cons x b ih =>
    have hx := x.toNat_lt
    rw [toNat_cons, List.length_cons, Nat.pow_succ]
    have : x.toNat * 256 ^ b.length ≤ 255 * 256 ^ b.length := Nat.mul_le_mul_right _ (by omega)
    omega

/-- Two byte strings of one length that spell the same number are equal. -/
theorem eq_of_toNat_eq {a b : Bytes} (hl : a.length = b.length) (h : toNat a = toNat b) :
    a = b := by
  induction a generalizing b with
  | nil => exact (List.length_eq_zero_iff.1 hl.symm).symm
  | cons x a ih =>
    cases b with
    | nil => simp at hl
    | cons y b =>
      have hl' : a.length = b.length := by simpa using hl
      rw [toNat_cons, toNat_cons, hl'] at h
      have ha := toNat_lt a
      have hb := toNat_lt b
      rw [hl'] at ha
      have hxy : x.toNat = y.toNat := by
        have h1 : (x.toNat * 256 ^ b.length + toNat a) / 256 ^ b.length = x.toNat := by
          rw [Nat.mul_comm, Nat.mul_add_div (Nat.pow_pos (by decide)), Nat.div_eq_of_lt ha]; simp
        have h2 : (y.toNat * 256 ^ b.length + toNat b) / 256 ^ b.length = y.toNat := by
          rw [Nat.mul_comm, Nat.mul_add_div (Nat.pow_pos (by decide)), Nat.div_eq_of_lt hb]; simp
        rw [← h1, h, h2]
      rw [UInt8.toNat_inj.1 hxy, ih hl' (by rw [hxy] at h; omega)]

/-- Numbers have one `k`-byte form if they are equal modulo `256 ^ k`. -/
theorem ofNat_eq_iff {k m n : Nat} : ofNat k m = ofNat k n ↔ m ≡ n [MOD 256 ^ k] := by
  constructor
  · intro h
    have hread := congrArg toNat h
    rwa [toNat_ofNat, toNat_ofNat] at hread
  · intro h
    apply eq_of_toNat_eq
    · rw [length_ofNat, length_ofNat]
    · rw [toNat_ofNat, toNat_ofNat]
      exact h

/-- A string of `k` bytes is the `k`-byte form of the number it spells. -/
theorem ofNat_toNat (b : Bytes) : ofNat b.length (toNat b) = b :=
  eq_of_toNat_eq (by simp) (by rw [toNat_ofNat, Nat.mod_eq_of_lt (toNat_lt b)])

/-! ## As few bytes as hold a number -/

theorem byteLength_pos {n : Nat} (hn : n ≠ 0) : 0 < byteLength n := by
  rw [byteLength, bitLength, if_neg hn]
  omega

/-- A number fits into as many bytes as its length tells. -/
theorem lt_pow_byteLength (n : Nat) : n < 256 ^ byteLength n := by
  rcases Nat.eq_zero_or_pos n with rfl | hn
  · decide
  · have hlog : n < 2 ^ (n.log2 + 1) := Nat.lt_log2_self
    calc n < 2 ^ (n.log2 + 1) := hlog
      _ ≤ 2 ^ (8 * byteLength n) := by
        apply Nat.pow_le_pow_right (by decide)
        rw [byteLength, bitLength, if_neg (by omega)]
        omega
      _ = 256 ^ byteLength n := by rw [Nat.pow_mul]

/-- One byte less is too little for a number. -/
theorem pow_byteLength_le {n : Nat} (hn : n ≠ 0) : 256 ^ (byteLength n - 1) ≤ n := by
  calc 256 ^ (byteLength n - 1) = 2 ^ (8 * (byteLength n - 1)) := by rw [Nat.pow_mul]
    _ ≤ 2 ^ n.log2 := by
      apply Nat.pow_le_pow_right (by decide)
      rw [byteLength, bitLength, if_neg hn]
      omega
    _ ≤ n := Nat.log2_self_le hn

/-- A string that does not begin with a zero byte has as many bytes as its number takes. -/
theorem byteLength_toNat_cons {b : UInt8} (hb : b ≠ 0) (rest : Bytes) :
    byteLength (toNat (b :: rest)) = rest.length + 1 := by
  have hpos : 0 < b.toNat := by
    rw [Nat.pos_iff_ne_zero]
    exact fun h => hb (UInt8.toNat_inj.1 h)
  have hge : 256 ^ rest.length ≤ toNat (b :: rest) := by
    rw [toNat_cons]
    exact Nat.le_add_right_of_le (Nat.le_mul_of_pos_left _ hpos)
  have hlt : toNat (b :: rest) < 256 ^ (rest.length + 1) := toNat_lt (b :: rest)
  have hn : toNat (b :: rest) ≠ 0 :=
    Nat.pos_iff_ne_zero.1 (Nat.lt_of_lt_of_le (Nat.pow_pos (by decide)) hge)
  -- the number lies between two powers, and so do its string and its length
  have hlower : rest.length < byteLength (toNat (b :: rest)) :=
    (Nat.pow_lt_pow_iff_right (by decide : 1 < 256)).1
      (Nat.lt_of_le_of_lt hge (lt_pow_byteLength _))
  have hupper : byteLength (toNat (b :: rest)) - 1 < rest.length + 1 :=
    (Nat.pow_lt_pow_iff_right (by decide : 1 < 256)).1
      (Nat.lt_of_le_of_lt (pow_byteLength_le hn) hlt)
  omega

theorem ofNatMinimal_ne_nil (n : Nat) : ofNatMinimal n ≠ [] := by
  apply List.ne_nil_of_length_pos
  rw [ofNatMinimal, length_ofNat]
  omega

theorem length_ofNatMinimal {n : Nat} (hn : n ≠ 0) : (ofNatMinimal n).length = byteLength n := by
  rw [ofNatMinimal, length_ofNat, Nat.max_eq_right (byteLength_pos hn)]

/-- A number is read back from as few bytes as hold it. -/
theorem toNat_ofNatMinimal (n : Nat) : toNat (ofNatMinimal n) = n := by
  rw [ofNatMinimal, toNat_ofNat, Nat.mod_eq_of_lt]
  calc n < 256 ^ byteLength n := lt_pow_byteLength n
    _ ≤ 256 ^ max 1 (byteLength n) := Nat.pow_le_pow_right (by decide) (Nat.le_max_right _ _)

/-- A string takes as few bytes for its number as can be exactly if it does not begin with a zero
byte. -/
theorem eq_ofNatMinimal_iff {bytes : Bytes} (hn : toNat bytes ≠ 0) :
    bytes = ofNatMinimal (toNat bytes) ↔ bytes.head? ≠ some 0 := by
  have hminimal := length_ofNatMinimal hn
  cases bytes with
  | nil => exact absurd rfl hn
  | cons b rest =>
    rw [List.head?_cons, ne_eq, Option.some.injEq]
    constructor
    · rintro heq rfl
      -- without the zero byte the string would be too short for its number
      have hle := pow_byteLength_le hn
      rw [← hminimal, ← heq, List.length_cons, Nat.add_sub_cancel, toNat_zero_cons] at hle
      exact Nat.lt_irrefl _ (Nat.lt_of_lt_of_le (toNat_lt rest) hle)
    · intro hb
      apply eq_of_toNat_eq
      · rw [hminimal, byteLength_toNat_cons hb, List.length_cons]
      · rw [toNat_ofNatMinimal]

end Bytes

namespace Crypto

/-- Repeated squaring gives the power. -/
theorem powMod_eq (b e m : Nat) : powMod b e m = b ^ e % m := by
  induction e using Nat.strongRecOn generalizing b with
  | ind e ih =>
    rw [powMod]
    split
    · next h => rw [h, Nat.pow_zero]
    · next h =>
      have hs : (b * b % m) ^ (e / 2) % m = (b ^ 2) ^ (e / 2) % m := by
        rw [← Nat.pow_mod, Nat.pow_two]
      simp only
      rw [ih (e / 2) (by omega), hs, ← Nat.pow_mul]
      split
      · next ho =>
        have he : e = 2 * (e / 2) + 1 := by omega
        rw [Nat.mul_mod_mod, ← Nat.pow_succ', Nat.succ_eq_add_one, ← he]
      · next ho =>
        have he : e = 2 * (e / 2) := by omega
        rw [← he]

end Crypto

end WebToken
