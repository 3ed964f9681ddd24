import WebToken.Crypto.Sha1
import WebToken.Crypto.Sha2

/-!
# Hash functions

The four hash functions that algorithms name, and the keyed hash built on them.
`Hash.length_digest` gives their sizes, and `hmac_eq_of_padKey_eq` says that a keyed hash sees of
a key only its padded form.
-/

namespace WebToken

namespace Crypto

/-- A hash function. -/
inductive Hash where
  | sha1
  | sha256
  | sha384
  | sha512
  deriving Repr, DecidableEq

namespace Hash

/-- Bytes in a digest. -/
def size : Hash → Nat
  | sha1 => 20
  | sha256 => 32
  | sha384 => 48
  | sha512 => 64

/-- Bytes in a block. -/
def blockBytes : Hash → Nat
  | sha1 | sha256 => 64
  | sha384 | sha512 => 128

/-- The hash of a message. -/
def digest : Hash → Bytes → Bytes
  | sha1 => Sha1.digest
  | sha256 => Sha2.narrow.digest Sha2.start256 32
  | sha384 => Sha2.wide.digest Sha2.start384 48
  | sha512 => Sha2.wide.digest Sha2.start512 64

@[simp] theorem length_digest (h : Hash) (message : Bytes) :
    (h.digest message).length = h.size := by
  cases h with
  | sha1 => exact Sha1.length_digest message
  | sha256 => exact Sha2.length_digest .narrow Sha2.start256 (show 32 ≤ 8 * 4 by decide) message
  | sha384 => exact Sha2.length_digest .wide Sha2.start384 (show 48 ≤ 8 * 8 by decide) message
  | sha512 => exact Sha2.length_digest .wide Sha2.start512 (show 64 ≤ 8 * 8 by decide) message

/-- A key in a full block: hashed if it is longer, and filled up with zeros. -/
def padKey (h : Hash) (key : Bytes) : Bytes :=
  let key := if h.blockBytes < key.length then h.digest key else key
  key ++ List.replicate (h.blockBytes - key.length) 0

/-- The keyed hash of a message: two hashes, each under the padded key masked by its own byte. -/
def hmac (h : Hash) (key message : Bytes) : Bytes :=
  let block := h.padKey key
  h.digest (block.map (· ^^^ 0x5C) ++ h.digest (block.map (· ^^^ 0x36) ++ message))

@[simp] theorem length_hmac (h : Hash) (key message : Bytes) :
    (h.hmac key message).length = h.size := by
  simp [hmac]

/-- Keys with one padded form give the same keyed hash. -/
theorem hmac_eq_of_padKey_eq {h : Hash} {key key' : Bytes} (hk : h.padKey key = h.padKey key')
    (message : Bytes) : h.hmac key message = h.hmac key' message := by
  simp [hmac, hk]

end Hash

end Crypto

end WebToken
