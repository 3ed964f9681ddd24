import WebToken.Crypto.Aes

/-!
# Cipher block chaining

Each block is added to the encrypted block before it, the first one to the initialization vector,
and then encrypted. A text is filled up to whole blocks with one to sixteen bytes that each give
their number, so that the filling can be taken off again; a string that is the filled form of no
text is refused.

* `Cbc.unpad?_eq_some_iff` : a string of whole blocks loses its filling exactly if it is a filled
  text;
* `Cbc.decrypt?_eq_some_iff` : decryption accepts exactly what encryption produces.
-/

namespace WebToken

namespace Crypto

namespace Cbc

open Aes (Block Cipher blockBytes)

/-! ## Filling up to whole blocks -/

/-- A text filled up to whole blocks. -/
def pad (text : Bytes) : Bytes :=
  let n := blockBytes - text.length % blockBytes
  text ++ List.replicate n (UInt8.ofNat n)

/-- The text of which a string of whole blocks is the filled form, if there is one. The last byte
tells how many bytes are to be taken off: at least one, at most a block, and each the same. -/
def unpad? (padded : Bytes) : Option Bytes :=
  let last := padded.getLastD 0
  let n := last.toNat
  if n = 0 ∨ blockBytes < n then none
  else
    let (text, filling) := padded.splitAt (padded.length - n)
    if filling.all (· == last) then some text else none

theorem length_pad (text : Bytes) :
    (pad text).length = blockBytes * (text.length / blockBytes + 1) := by
  simp only [pad, blockBytes, List.length_append, List.length_replicate]
  omega

/-- A filled text consists of whole blocks. -/
theorem length_pad_mod (text : Bytes) : (pad text).length % blockBytes = 0 := by
  rw [length_pad]
  exact Nat.mul_mod_right ..

/-- A string that ends in `n` bytes, each of them `n`, is a filled text if it consists of whole
blocks: the rest leaves room for `n` bytes in its last block. -/
theorem pad_eq_append_replicate {text : Bytes} {n : Nat} (hn : n ≠ 0) (hb : n ≤ blockBytes)
    (hl : (text ++ List.replicate n (UInt8.ofNat n)).length % blockBytes = 0) :
    pad text = text ++ List.replicate n (UInt8.ofNat n) := by
  rw [List.length_append, List.length_replicate] at hl
  have room : blockBytes - text.length % blockBytes = n := by
    simp only [blockBytes] at hb hl ⊢
    omega
  rw [pad, room]

/-- A filled text loses its filling. -/
theorem unpad?_pad (text : Bytes) : unpad? (pad text) = some text := by
  have hpos : blockBytes - text.length % blockBytes ≠ 0 := by
    simp only [blockBytes]
    omega
  have hlast : (pad text).getLastD 0 = UInt8.ofNat (blockBytes - text.length % blockBytes) := by
    rw [pad, List.getLastD_eq_getLast?, List.getLast?_append, List.getLast?_replicate, if_neg hpos]
    rfl
  have hn : ((pad text).getLastD 0).toNat = blockBytes - text.length % blockBytes := by
    rw [hlast, UInt8.toNat_ofNat']
    simp only [blockBytes]
    omega
  have hcut : (pad text).length - (blockBytes - text.length % blockBytes) = text.length := by
    simp [pad]
  have hsplit : (pad text).splitAt text.length =
      (text, List.replicate (blockBytes - text.length % blockBytes)
        (UInt8.ofNat (blockBytes - text.length % blockBytes))) := by
    rw [List.splitAt_eq, pad, List.take_left, List.drop_left]
  have hbound : ¬(blockBytes - text.length % blockBytes = 0 ∨
      blockBytes < blockBytes - text.length % blockBytes) := by
    omega
  simp only [unpad?, hn, hcut, hsplit]
  rw [if_neg hbound, if_pos]
  rw [hlast, List.all_replicate, if_neg hpos]
  exact beq_self_eq_true _

/-- A string of whole blocks that loses its filling is the rest, filled up again. -/
theorem pad_of_unpad? {padded text : Bytes} (hl : padded.length % blockBytes = 0)
    (h : unpad? padded = some text) : padded = pad text := by
  simp only [unpad?, List.splitAt_eq] at h
  split at h
  · cases h
  · next hn =>
    rw [not_or, Nat.not_lt] at hn
    split at h
    · next hall =>
      -- the last byte is not zero, so there is one, and hence a whole block
      have hne : padded ≠ [] := by
        rintro rfl
        exact hn.1 rfl
      have hpos := List.length_pos_iff.2 hne
      have hlen : (padded.getLastD 0).toNat ≤ padded.length := by
        have hb := hn.2
        simp only [blockBytes] at hb hl
        omega
      have hfill : padded.drop (padded.length - (padded.getLastD 0).toNat) =
          List.replicate (padded.getLastD 0).toNat (UInt8.ofNat (padded.getLastD 0).toNat) := by
        rw [UInt8.ofNat_toNat]
        refine List.eq_replicate_iff.2 ⟨?_, fun b hb => ?_⟩
        · rw [List.length_drop]
          omega
        · exact eq_of_beq (List.all_eq_true.1 hall b hb)
      have hcut := List.take_append_drop (padded.length - (padded.getLastD 0).toNat) padded
      rw [Option.some.inj h, hfill] at hcut
      rw [pad_eq_append_replicate hn.1 hn.2 (by rw [hcut]; exact hl), hcut]
    · cases h

/-- Exactly the filled texts lose their filling. -/
theorem unpad?_eq_some_iff {padded text : Bytes} (hl : padded.length % blockBytes = 0) :
    unpad? padded = some text ↔ padded = pad text := by
  constructor
  · exact pad_of_unpad? hl
  · rintro rfl
    exact unpad?_pad text

/-! ## Chaining -/

/-- The blocks encrypted in a chain that begins with `chain`. -/
def encryptBlocks (cipher : Cipher) : Block → List Block → List Block
  | _, [] => []
  | chain, b :: bs =>
    let y := cipher.encrypt (b.add chain)
    y :: encryptBlocks cipher y bs

/-- The blocks of a chain that begins with `chain`, decrypted. -/
def decryptBlocks (cipher : Cipher) : Block → List Block → List Block
  | _, [] => []
  | chain, y :: ys => (cipher.decrypt y).add chain :: decryptBlocks cipher y ys

theorem decryptBlocks_encryptBlocks (cipher : Cipher) (chain : Block) (bs : List Block) :
    decryptBlocks cipher chain (encryptBlocks cipher chain bs) = bs := by
  induction bs generalizing chain with
  | nil => rfl
  | cons b bs ih =>
    simp [encryptBlocks, decryptBlocks, ih, Aes.decrypt_encrypt, Block.add_add_cancel]

theorem encryptBlocks_decryptBlocks (cipher : Cipher) (chain : Block) (ys : List Block) :
    encryptBlocks cipher chain (decryptBlocks cipher chain ys) = ys := by
  induction ys generalizing chain with
  | nil => rfl
  | cons y ys ih =>
    simp [encryptBlocks, decryptBlocks, ih, Aes.encrypt_decrypt, Block.add_add_cancel]

theorem length_encryptBlocks (cipher : Cipher) (chain : Block) (bs : List Block) :
    (encryptBlocks cipher chain bs).length = bs.length := by
  induction bs generalizing chain with
  | nil => rfl
  | cons b bs ih => simp [encryptBlocks, ih]

/-! ## Texts -/

/-- The text encrypted under a key, in a chain that begins with `iv`. -/
def encrypt (key iv text : Bytes) : Bytes :=
  Block.join (encryptBlocks (.ofKey key) (.ofBytes iv) (Block.split (pad text)))

/-- The text that was encrypted under a key in a chain that begins with `iv`, if any was. -/
def decrypt? (key iv ciphertext : Bytes) : Option Bytes :=
  if ciphertext.length % blockBytes = 0 then
    unpad? (Block.join (decryptBlocks (.ofKey key) (.ofBytes iv) (Block.split ciphertext)))
  else none

/-- The length of a ciphertext depends on that of the text alone. -/
theorem length_encrypt (key iv text : Bytes) :
    (encrypt key iv text).length = blockBytes * (text.length / blockBytes + 1) := by
  rw [encrypt, Block.length_join, length_encryptBlocks, ← Block.length_join,
    Block.join_split (length_pad_mod text), length_pad]

/-- Decryption accepts exactly what encryption produces. -/
theorem decrypt?_eq_some_iff {key iv text ciphertext : Bytes} :
    decrypt? key iv ciphertext = some text ↔ encrypt key iv text = ciphertext := by
  constructor
  · intro h
    simp only [decrypt?] at h
    split at h
    · next hl =>
      have hblocks : (Block.join (decryptBlocks (.ofKey key) (.ofBytes iv)
          (Block.split ciphertext))).length % blockBytes = 0 := by
        rw [Block.length_join]
        exact Nat.mul_mod_right ..
      rw [encrypt, ← (unpad?_eq_some_iff hblocks).1 h, Block.split_join, encryptBlocks_decryptBlocks,
        Block.join_split hl]
    · cases h
  · rintro rfl
    have hl : (encrypt key iv text).length % blockBytes = 0 := by
      rw [length_encrypt]; exact Nat.mul_mod_right ..
    rw [decrypt?, if_pos hl, encrypt, Block.split_join, decryptBlocks_encryptBlocks,
      Block.join_split (length_pad_mod text)]
    exact (unpad?_eq_some_iff (length_pad_mod text)).2 rfl

end Cbc

end Crypto

end WebToken
