import WebToken.Crypto.Hash
import WebToken.Crypto.Rsa

/-!
# RSA encryption

A short text is filled up, masked with a random seed, and the seed is masked with the outcome;
the public function of the whole is the ciphertext. Taking the masks off shows whether a string
was made in this way.

* `Rsa.unmasked?_masked` : the text is found again under its masks.
-/

namespace WebToken

namespace Crypto

namespace Rsa

/-- A mask of `n` bytes made from a seed. -/
def maskOf (h : Hash) (seed : Bytes) (n : Nat) : Bytes :=
  ((List.range (n / h.size + 1)).flatMap fun i => h.digest (seed ++ Bytes.ofNat 4 i)).take n

/-- The text behind its filling: the hash of the empty label, zeros, and a one. -/
def filled (h : Hash) (n : Nat) (text : Bytes) : Bytes :=
  h.digest [] ++ List.replicate (n - h.size - text.length - 1) 0 ++ 1 :: text

/-- The text that stands behind a filling, if there is one. -/
def unfilled? (h : Hash) (data : Bytes) : Option Bytes :=
  if data.take h.size = h.digest [] then
    match (data.drop h.size).dropWhile (· = 0) with
    | 1 :: text => some text
    | _ => none
  else none

/-- A text in `size` bytes, masked with a seed. -/
def masked (h : Hash) (size : Nat) (seed text : Bytes) : Bytes :=
  let n := size - h.size - 1
  let data := Bytes.xor (filled h n text) (maskOf h seed n)
  0 :: Bytes.xor seed (maskOf h data h.size) ++ data

/-- The text that was masked, if any was. -/
def unmasked? (h : Hash) (block : Bytes) : Option Bytes :=
  match block with
  | 0 :: rest =>
    let data := rest.drop h.size
    let seed := Bytes.xor (rest.take h.size) (maskOf h data h.size)
    unfilled? h (Bytes.xor data (maskOf h seed data.length))
  | _ => none

/-- The text encrypted with a seed as long as the hash, if it fits. -/
def PublicKey.encrypt? (k : PublicKey) (h : Hash) (seed text : Bytes) : Option Bytes :=
  if k.size < text.length + 2 * h.size + 2 then none
  else some (Bytes.ofNat k.size (k.apply (Bytes.toNat (masked h k.size seed text))))

/-- The text that was encrypted, if any was. -/
def PrivateKey.decrypt? (k : PrivateKey) (h : Hash) (ciphertext : Bytes) : Option Bytes :=
  if ciphertext.length ≠ k.size ∨ k.modulus ≤ Bytes.toNat ciphertext then none
  else do
    let m ← k.invert? (Bytes.toNat ciphertext)
    unmasked? h (Bytes.ofNat k.size m)

/-! ## Masks come off again -/

@[simp] theorem length_maskOf (h : Hash) (seed : Bytes) (n : Nat) :
    (maskOf h seed n).length = n := by
  have hs : 0 < h.size := by cases h <;> decide
  have hl : ∀ l : List Nat,
      (l.flatMap fun i => h.digest (seed ++ Bytes.ofNat 4 i)).length = h.size * l.length := by
    intro l
    induction l with
    | nil => rfl
    | cons i l ih => simp [ih, Nat.mul_succ, Nat.add_comm]
  rw [maskOf, List.length_take, hl, List.length_range]
  have := Nat.div_add_mod n h.size
  have := Nat.mod_lt n hs
  rw [Nat.mul_succ]
  omega

theorem length_filled {h : Hash} {n : Nat} {text : Bytes} (hn : h.size + text.length < n) :
    (filled h n text).length = n := by
  simp [filled]
  omega

/-- The text is found again behind its filling. -/
theorem unfilled?_filled (h : Hash) (n : Nat) (text : Bytes) :
    unfilled? h (filled h n text) = some text := by
  have hz : ∀ k : Nat, (List.replicate k (0 : UInt8) ++ 1 :: text).dropWhile (· = 0) = 1 :: text := by
    intro k
    induction k with
    | zero => simp
    | succ k ih => simp [List.replicate_succ, ih]
  rw [unfilled?, filled, List.append_assoc, List.take_left' (Hash.length_digest h []),
    List.drop_left' (Hash.length_digest h []), if_pos rfl, hz]
  rfl

/-- The text is found again under its masks. -/
theorem unmasked?_masked {h : Hash} {size : Nat} {seed text : Bytes} (hs : seed.length = h.size)
    (ht : text.length + 2 * h.size + 2 ≤ size) :
    unmasked? h (masked h size seed text) = some text := by
  have hn : (filled h (size - h.size - 1) text).length = size - h.size - 1 :=
    length_filled (by omega)
  have hx : ∀ data : Bytes, (Bytes.xor seed (maskOf h data h.size)).length = h.size := by
    intro data; simp [hs]
  have hd : (Bytes.xor (filled h (size - h.size - 1) text)
      (maskOf h seed (size - h.size - 1))).length = size - h.size - 1 := by
    simp [hn]
  simp only [masked, unmasked?, List.cons_append]
  rw [List.drop_left' (hx _), List.take_left' (hx _), Bytes.xor_xor_cancel (by simp [hs]), hd,
    Bytes.xor_xor_cancel (by simp [hn]), unfilled?_filled]

end Rsa

end Crypto

end WebToken
