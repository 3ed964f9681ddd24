import WebToken.Crypto.Aes

/-!
# Galois counter mode

The text is masked with the encrypted values of a counter, and a tag is taken over the additional
data and the masked text: a polynomial in the field of `2 ^ 128` elements, whose point is the
encrypted zero block and whose value is masked with the first counter.

* `Gcm.decrypt?_eq_some_iff` : decryption accepts exactly what encryption produces.
-/

namespace WebToken

namespace Crypto

namespace Gcm

open Aes (Block Cipher blockBytes)

/-! ## The field -/

/-- An element of the field: a polynomial whose lowest coefficient is the highest bit. -/
abbrev Element := BitVec 128

/-- The element that sixteen bytes spell. -/
def Element.ofBytes (b : Bytes) : Element := BitVec.ofNat 128 (Bytes.toNat b)

/-- The bytes of an element. -/
def Element.bytes (x : Element) : Bytes := Bytes.ofNat blockBytes x.toNat

/-- An element times the variable, reduced by the polynomial of the field. -/
def timesVariable (x : Element) : Element :=
  (x >>> 1) ^^^ (if x.getLsbD 0 then (0xE1 : Element) <<< 120 else 0)

/-- The sum of `y`, `y` times the variable and so on, as far as the first `k` coefficients of `x`
say. -/
def mulFirst : Nat → Element → Element → Element
  | 0, _, _ => 0
  | k + 1, x, y => (if x.msb then y else 0) ^^^ mulFirst k (x <<< 1) (timesVariable y)

/-- The product of two elements. -/
def mul (x y : Element) : Element := mulFirst 128 x y

/-! ## The tag -/

/-- The elements of a string, the last one filled up with zeros. -/
def elements (b : Bytes) : List Element :=
  (Block.split b).map fun block => .ofBytes block.bytes

/-- The elements that are hashed: the data, the text, and the bit lengths of both. -/
def hashed (aad ciphertext : Bytes) : List Element :=
  elements aad ++ elements ciphertext ++
    [.ofBytes (Bytes.ofNat 8 (8 * aad.length) ++ Bytes.ofNat 8 (8 * ciphertext.length))]

/-- The polynomial with the given coefficients, highest first, at a point. -/
def polynomial (point : Element) (coefficients : List Element) : Element :=
  coefficients.foldl (fun sum c => mul (sum ^^^ c) point) 0

/-- The counter block with number `i`. -/
def counter (iv : Bytes) (i : Nat) : Block := .ofBytes (iv ++ Bytes.ofNat 4 i)

/-- Bytes in a tag. -/
def tagBytes : Nat := blockBytes

/-- The tag of data and masked text. -/
def tag (cipher : Cipher) (iv aad ciphertext : Bytes) : Bytes :=
  let point := Element.ofBytes (cipher.encrypt (.ofBytes [])).bytes
  Bytes.xor (cipher.encrypt (counter iv 1)).bytes (polynomial point (hashed aad ciphertext)).bytes

/-! ## The mask -/

/-- The encrypted counters from number two on, `n` of them. -/
def keystream (cipher : Cipher) (iv : Bytes) (n : Nat) : Bytes :=
  Block.join ((List.range' 2 n).map fun i => cipher.encrypt (counter iv i))

/-- A text masked with the encrypted counters; masking it again gives it back. -/
def mask (cipher : Cipher) (iv text : Bytes) : Bytes :=
  Bytes.xor text (keystream cipher iv (text.length / blockBytes + 1))

/-! ## Encryption and decryption -/

/-- The masked text with the tag behind it. -/
def encrypt (key iv aad text : Bytes) : Bytes :=
  let cipher := Cipher.ofKey key
  let ciphertext := mask cipher iv text
  ciphertext ++ tag cipher iv aad ciphertext

/-- The text that was encrypted, if the last bytes are the tag of what stands before them. -/
def decrypt? (key iv aad sealed : Bytes) : Option Bytes :=
  if sealed.length < tagBytes then none
  else
    let cipher := Cipher.ofKey key
    let (ciphertext, given) := sealed.splitAt (sealed.length - tagBytes)
    if tag cipher iv aad ciphertext = given then some (mask cipher iv ciphertext) else none

theorem length_tag (cipher : Cipher) (iv aad ciphertext : Bytes) :
    (tag cipher iv aad ciphertext).length = tagBytes := by
  simp [tag, Element.bytes, tagBytes]

theorem length_keystream (cipher : Cipher) (iv : Bytes) (n : Nat) :
    (keystream cipher iv n).length = blockBytes * n := by
  simp [keystream]

theorem length_mask (cipher : Cipher) (iv text : Bytes) :
    (mask cipher iv text).length = text.length := by
  rw [mask, Bytes.length_xor, length_keystream]
  simp only [blockBytes]
  omega

theorem mask_mask (cipher : Cipher) (iv text : Bytes) :
    mask cipher iv (mask cipher iv text) = text := by
  have h := length_mask cipher iv text
  rw [mask, h, mask]
  refine Bytes.xor_xor_cancel ?_
  rw [length_keystream]
  simp only [blockBytes]
  omega

theorem length_encrypt (key iv aad text : Bytes) :
    (encrypt key iv aad text).length = text.length + tagBytes := by
  rw [encrypt, List.length_append, length_mask, length_tag]

/-- The last bytes of an encrypted text are the tag of the masked text before them. -/
theorem splitAt_encrypt (key iv aad text : Bytes) :
    (encrypt key iv aad text).splitAt ((encrypt key iv aad text).length - tagBytes) =
      (mask (.ofKey key) iv text,
        tag (.ofKey key) iv aad (mask (.ofKey key) iv text)) := by
  have hcut : (encrypt key iv aad text).length - tagBytes = (mask (.ofKey key) iv text).length := by
    rw [length_encrypt, length_mask, Nat.add_sub_cancel]
  rw [hcut, encrypt, List.splitAt_eq, List.take_left, List.drop_left]

/-- Decryption accepts exactly what encryption produces. -/
theorem decrypt?_eq_some_iff {key iv aad text sealed : Bytes} :
    decrypt? key iv aad sealed = some text ↔ encrypt key iv aad text = sealed := by
  constructor
  · intro h
    simp only [decrypt?, List.splitAt_eq] at h
    split at h
    · cases h
    · split at h
      · next ht =>
        rw [encrypt, ← Option.some.inj h, mask_mask, ht, List.take_append_drop]
      · cases h
  · rintro rfl
    have hlen : ¬(encrypt key iv aad text).length < tagBytes := by
      rw [length_encrypt]
      omega
    simp only [decrypt?, splitAt_encrypt, if_neg hlen, if_true, mask_mask]

end Gcm

end Crypto

end WebToken
