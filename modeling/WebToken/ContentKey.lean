import WebToken.Crypto.KeyWrap
import WebToken.Crypto.Rsa.Encryption
import WebToken.Key

/-!
# Content keys

The key of a content reaches its recipient encrypted for an RSA key, wrapped under a shared
secret, or not at all when the shared secret is the content key itself. Recovering it fails in one
way only, whatever is wrong with the encrypted key.
-/

namespace WebToken

open Crypto

/-- Where random bytes come from: for each use, as many as are asked for. -/
structure Randomness where
  /-- The key of a content. -/
  contentKey : (n : Nat) → Vector UInt8 n
  /-- The seed of the masks of RSA encryption. -/
  seed : (n : Nat) → Vector UInt8 n
  /-- The initialization vector of a content. -/
  iv : (n : Nat) → Vector UInt8 n

namespace Randomness

/-- A random content key. -/
def contentKeyBytes (random : Randomness) (n : Nat) : Bytes := (random.contentKey n).toList

/-- A random seed. -/
def seedBytes (random : Randomness) (n : Nat) : Bytes := (random.seed n).toList

/-- A random initialization vector. -/
def ivBytes (random : Randomness) (n : Nat) : Bytes := (random.iv n).toList

@[simp] theorem length_contentKeyBytes (random : Randomness) (n : Nat) :
    (random.contentKeyBytes n).length = n := by
  simp [contentKeyBytes]

@[simp] theorem length_seedBytes (random : Randomness) (n : Nat) :
    (random.seedBytes n).length = n := by
  simp [seedBytes]

@[simp] theorem length_ivBytes (random : Randomness) (n : Nat) :
    (random.ivBytes n).length = n := by
  simp [ivBytes]

end Randomness

/-- A content key, and the form in which it is sent. -/
structure SentKey where
  contentKey : Bytes
  encryptedKey : Bytes
  deriving Repr, DecidableEq

namespace KeyManagement

/-- The algorithm that wraps under a shared secret of the given number of bytes. -/
def forSharedKey (bytes : Nat) : Except Error KeyManagement :=
  match ofKeyBytes? bytes with
  | some alg => .ok alg
  | none => .error (.invalidParameter (.sharedKeyLength (8 * bytes)))

/-- The shared secret of a recipient. -/
def sharedSecret (alg : KeyManagement) (key : Key) : Except Error Bytes :=
  match key.secret? with
  | some secret => .ok secret
  | none => .error (key.mismatch alg.name "symmetric")

/-- A content key for a recipient: a random one, except that a shared secret used directly is the
content key. -/
def send (alg : KeyManagement) (enc : ContentEncryption) (key : Key) (random : Randomness) :
    Except Error SentKey := do
  let contentKey := random.contentKeyBytes enc.keyBytes
  match alg with
  | .rsaOaep256 | .rsaOaep =>
    match key.rsaPublic? with
    | none => .error (key.mismatch alg.name "RSA")
    | some k =>
      match k.encrypt? alg.hash (random.seedBytes alg.hash.size) contentKey with
      | some encryptedKey => return ⟨contentKey, encryptedKey⟩
      | none => .error (.internal (.keyWrap alg))
  | .a128Kw | .a192Kw | .a256Kw =>
    let secret ← alg.sharedSecret key
    if some secret.length = alg.wrappingKeyBytes? then
      return ⟨contentKey, KeyWrap.wrap secret contentKey⟩
    else .error (.invalidParameter (.wrappingKeyLength alg (8 * secret.length)))
  | .direct =>
    let secret ← alg.sharedSecret key
    if secret.length = enc.keyBytes then return ⟨secret, []⟩
    else .error (.invalidParameter (.directKeyLength enc (8 * secret.length)))

/-- What an encrypted key holds for a recipient, of whatever length. -/
def open? (alg : KeyManagement) (key : Key) (encryptedKey : Bytes) :
    Except Error (Option Bytes) := do
  match alg with
  | .rsaOaep256 | .rsaOaep =>
    match key.rsaPrivate? with
    | none => .error (key.mismatch alg.name "RSA private")
    | some k => return k.decrypt? alg.hash encryptedKey
  | .a128Kw | .a192Kw | .a256Kw =>
    let secret ← alg.sharedSecret key
    if some secret.length = alg.wrappingKeyBytes? then
      return KeyWrap.unwrap? secret encryptedKey
    else return none
  | .direct =>
    let secret ← alg.sharedSecret key
    if encryptedKey = [] then return some secret else return none

/-- The content key that was sent to a recipient. -/
def receive (alg : KeyManagement) (enc : ContentEncryption) (key : Key) (encryptedKey : Bytes) :
    Except Error Bytes := do
  match ← alg.open? key encryptedKey with
  | some contentKey =>
    if contentKey.length = enc.keyBytes then return contentKey else .error .keyUnwrapFailed
  | none => .error .keyUnwrapFailed

end KeyManagement

end WebToken
