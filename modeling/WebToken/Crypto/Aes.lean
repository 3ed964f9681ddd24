import WebToken.Crypto.Aes.Round

/-!
# The AES block cipher

A key of 16, 24 or 32 bytes is spread into 11, 13 or 15 round keys. Encryption adds the first and
does a round with each of the others; decryption undoes the rounds in the opposite order.

* `Aes.decrypt_encrypt` and `Aes.encrypt_decrypt` : under one key the two directions undo each
  other.
-/

namespace WebToken

namespace Crypto

namespace Aes

/-! ## Key schedule -/

/-- The constants of the key schedule: the powers of two in the field. -/
def powers : Nat → UInt8 → Bytes
  | 0, _ => []
  | k + 1, b => b :: powers k (double b)

/-- The column turned by one place. -/
def Column.turn (c : Column) : Column := ⟨c.x1, c.x2, c.x3, c.x0⟩

/-- The columns of the key schedule from column `i` on, where `window` holds the `n` columns
before it. -/
def schedule (n : Nat) : Nat → Nat → List Column → List Column
  | 0, _, _ => []
  | left + 1, i, window =>
    let last := window.getLastD default
    let t :=
      if i % n = 0 then
        (last.turn.map substitute).add ⟨(powers 16 1).getD (i / n - 1) 0, 0, 0, 0⟩
      else if 6 < n ∧ i % n = 4 then last.map substitute
      else last
    let c := (window.headD default).add t
    c :: schedule n left (i + 1) (window.drop 1 ++ [c])

/-- Columns in fours. -/
def blocks : List Column → List Block
  | a :: b :: c :: d :: rest => ⟨a, b, c, d⟩ :: blocks rest
  | _ => []

/-- The round keys of a key. -/
def roundKeys (key : Bytes) : List Block :=
  let columns := (key.chunks 4).map Column.ofBytes
  let n := columns.length
  blocks (columns ++ schedule n (4 * (n + 7) - n) n columns)

/-! ## The cipher -/

/-- A cipher, given by its round keys. -/
structure Cipher where
  first : Block
  middle : List Block
  last : Block
  deriving Repr, DecidableEq

/-- The cipher of a key. -/
def Cipher.ofKey (key : Bytes) : Cipher :=
  let ks := roundKeys key
  ⟨ks.headD default, (ks.drop 1).dropLast, ks.getLastD default⟩

/-- Encrypt a block. -/
def Cipher.encrypt (cipher : Cipher) (b : Block) : Block :=
  lastRound (cipher.middle.foldl round (b.add cipher.first)) cipher.last

/-- Decrypt a block. -/
def Cipher.decrypt (cipher : Cipher) (b : Block) : Block :=
  (cipher.middle.foldr (fun k x => unround x k) (unlastRound b cipher.last)).add cipher.first

/-! ## The two directions undo each other -/

theorem foldr_unround_foldl_round (ks : List Block) (b : Block) :
    ks.foldr (fun k x => unround x k) (ks.foldl round b) = b := by
  induction ks generalizing b with
  | nil => rfl
  | cons k ks ih => rw [List.foldl_cons, List.foldr_cons, ih, unround_round]

theorem foldl_round_foldr_unround (ks : List Block) (b : Block) :
    ks.foldl round (ks.foldr (fun k x => unround x k) b) = b := by
  induction ks with
  | nil => rfl
  | cons k ks ih => rw [List.foldr_cons, List.foldl_cons, round_unround, ih]

/-- Decryption undoes encryption. -/
theorem decrypt_encrypt (cipher : Cipher) (b : Block) :
    cipher.decrypt (cipher.encrypt b) = b := by
  rw [Cipher.decrypt, Cipher.encrypt, unlastRound_lastRound, foldr_unround_foldl_round,
    Block.add_add_cancel]

/-- Encryption undoes decryption. -/
theorem encrypt_decrypt (cipher : Cipher) (b : Block) :
    cipher.encrypt (cipher.decrypt b) = b := by
  rw [Cipher.decrypt, Cipher.encrypt, Block.add_add_cancel, foldl_round_foldr_unround,
    lastRound_unlastRound]

end Aes

end Crypto

end WebToken
