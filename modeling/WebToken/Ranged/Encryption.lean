import WebToken.EncryptedToken
import WebToken.Ranged

/-!
# Encryption with ranges

Encryption and decryption of tokens, of contents and of content keys, written with operations that
have no outcome out of their range, and with the failures of ciphers that are set up with wrong
lengths. The definitions without ranges are total, and give something out of their range as well.
-/

namespace WebToken

open Crypto

open Ranged (within)

/-! ## Forms of the block cipher -/

/-- The forms of the block cipher. -/
inductive Crypto.Aes.Variant where
  | aes128
  | aes192
  | aes256
  deriving Repr, DecidableEq

namespace Crypto.Aes.Variant

/-- Bytes in a key. -/
def keyBytes : Variant → Nat
  | aes128 => 16
  | aes192 => 24
  | aes256 => 32

/-- The form with keys of a number of bytes. -/
def ofKeyBytes? : Nat → Option Variant
  | 16 => some aes128
  | 24 => some aes192
  | 32 => some aes256
  | _ => none

theorem ofKeyBytes?_keyBytes (v : Variant) : ofKeyBytes? v.keyBytes = some v := by
  cases v <;> rfl

end Crypto.Aes.Variant

open Aes (Variant)

/-! ## Contents -/

namespace ContentEncryption

/-- The hash function of the keyed hash. -/
def macHash : ContentEncryption → Hash
  | a128CbcHs256 => .sha256
  | a192CbcHs384 => .sha384
  | _ => .sha512

/-- `hashTag` with ranges. -/
def rangedTag (enc : ContentEncryption) (macKey aad iv ciphertext : Bytes) : Ranged Bytes :=
  Ranged.first (enc.macHash.hmac macKey (authenticated aad iv ciphertext)) enc.tagBytes

/-- Set up the chaining of blocks. -/
def setUpChain (cipherKey iv : Bytes) : Except Error Unit :=
  match Variant.ofKeyBytes? cipherKey.length with
  | some v =>
    if cipherKey.length = v.keyBytes ∧ iv.length = Aes.blockBytes then .ok ()
    else .error (.internal (.note "AES-CBC setup failed: Invalid Length"))
  | none => .error (.internal (.note s!"no AES variant for a {cipherKey.length}-byte key"))

/-- `chainEncrypt` with ranges. -/
def rangedChainEncrypt (enc : ContentEncryption) (key iv aad text : Bytes) :
    Ranged (Bytes × Bytes) := do
  let (macKey, cipherKey) ← Ranged.splitAt key (key.length / 2)
  within (setUpChain cipherKey iv)
  let ciphertext := Cbc.encrypt cipherKey iv text
  let tag ← enc.rangedTag macKey aad iv ciphertext
  return (ciphertext, tag)

/-- `chainDecrypt` with ranges. -/
def rangedChainDecrypt (enc : ContentEncryption) (key iv aad ciphertext tag : Bytes) :
    Ranged Bytes := do
  let (macKey, cipherKey) ← Ranged.splitAt key (key.length / 2)
  let expected ← enc.rangedTag macKey aad iv ciphertext
  if expected = tag then
    within (setUpChain cipherKey iv)
    match Cbc.decrypt? cipherKey iv ciphertext with
    | some text => return text
    | none => throw .paddingError
  else throw .authenticationFailed

/-- Bytes in a vector of Galois counter mode. -/
def nonceBytes : Nat := 12

/-- The most bytes that Galois counter mode takes at once: `2 ^ 36`. -/
def maxCounterBytes : Nat := 0x1000000000

/-- Whether data and a text are within the limit of Galois counter mode. -/
def WithinLimit (aad text : Bytes) : Prop :=
  text.length ≤ maxCounterBytes ∧ aad.length ≤ maxCounterBytes

/-- Set up Galois counter mode. -/
def setUpCounter (v : Variant) (key : Bytes) : Except Error Unit :=
  if key.length = v.keyBytes then .ok ()
  else .error (.internal (.note "AES-GCM setup failed: Invalid Length"))

/-- `counterEncrypt` with ranges. -/
def rangedCounterEncrypt (v : Variant) (key iv aad text : Bytes) : Ranged (Bytes × Bytes) := do
  within (setUpCounter v key)
  let nonce ← Ranged.array nonceBytes iv
  if maxCounterBytes < text.length ∨ maxCounterBytes < aad.length then
    throw (.internal (.note "AES-GCM encryption failed: aead::Error"))
  else
    let sealed := Gcm.encrypt key nonce.toList aad text
    let cut ← Ranged.sub sealed.length Gcm.tagBytes
    Ranged.splitAt sealed cut

/-- `counterDecrypt` with ranges. -/
def rangedCounterDecrypt (v : Variant) (key iv aad ciphertext tag : Bytes) : Ranged Bytes := do
  if tag.length ≠ Gcm.tagBytes then throw .authenticationFailed
  else
    within (setUpCounter v key)
    let nonce ← Ranged.array nonceBytes iv
    match Gcm.decrypt? key nonce.toList aad (ciphertext ++ tag) with
    | some text => return text
    | none => throw .authenticationFailed

/-- `encrypt` with ranges. -/
def rangedEncrypt (enc : ContentEncryption) (key iv aad text : Bytes) :
    Ranged (Bytes × Bytes) := do
  within (enc.checkLengths key iv)
  match enc with
  | a128CbcHs256 | a192CbcHs384 | a256CbcHs512 => enc.rangedChainEncrypt key iv aad text
  | a128Gcm => rangedCounterEncrypt .aes128 key iv aad text
  | a192Gcm => rangedCounterEncrypt .aes192 key iv aad text
  | a256Gcm => rangedCounterEncrypt .aes256 key iv aad text

/-- `decrypt` with ranges. -/
def rangedDecrypt (enc : ContentEncryption) (key iv aad ciphertext tag : Bytes) :
    Ranged Bytes := do
  within (enc.checkLengths key iv)
  match enc with
  | a128CbcHs256 | a192CbcHs384 | a256CbcHs512 =>
    enc.rangedChainDecrypt key iv aad ciphertext tag
  | a128Gcm => rangedCounterDecrypt .aes128 key iv aad ciphertext tag
  | a192Gcm => rangedCounterDecrypt .aes192 key iv aad ciphertext tag
  | a256Gcm => rangedCounterDecrypt .aes256 key iv aad ciphertext tag

end ContentEncryption

/-! ## Wrapped keys -/

namespace Crypto.KeyWrap

/-- A key wrapped into as much room as is given. -/
def wrapInto? (kek key : Bytes) (room : Nat) : Option Bytes :=
  if key.length % halfBytes = 0 ∧ room = key.length + halfBytes then some (wrap kek key) else none

/-- A key unwrapped into as much room as is given. -/
def unwrapInto? (kek wrapped : Bytes) (room : Nat) : Option Bytes :=
  if wrapped.length ≤ room + halfBytes then unwrap? kek wrapped else none

/-- `wrap` with ranges. -/
def rangedWrap (kek key : Bytes) : Ranged (Option Bytes) :=
  match Variant.ofKeyBytes? kek.length with
  | some v => do
    let kek ← Ranged.array v.keyBytes kek
    return wrapInto? kek.toList key (key.length + halfBytes)
  | none => return none

/-- `unwrap?` with ranges. -/
def rangedUnwrap (kek wrapped : Bytes) : Ranged (Option Bytes) := do
  if wrapped.length < 3 * halfBytes ∨ wrapped.length % halfBytes ≠ 0 then return none
  else
    let room ← Ranged.sub wrapped.length halfBytes
    match Variant.ofKeyBytes? kek.length with
    | some v =>
      let kek ← Ranged.array v.keyBytes kek
      return unwrapInto? kek.toList wrapped room
    | none => return none

end Crypto.KeyWrap

/-! ## Content keys -/

namespace KeyManagement

/-- `send` with ranges. -/
def rangedSend (alg : KeyManagement) (enc : ContentEncryption) (key : Key)
    (random : Randomness) : Ranged SentKey :=
  match alg with
  | rsaOaep256 | rsaOaep | direct => within (alg.send enc key random)
  | a128Kw | a192Kw | a256Kw => do
    let contentKey := random.contentKeyBytes enc.keyBytes
    let secret ← within (alg.sharedSecret key)
    if some secret.length = alg.wrappingKeyBytes? then
      match ← KeyWrap.rangedWrap secret contentKey with
      | some encryptedKey => return ⟨contentKey, encryptedKey⟩
      | none => throw (.internal (.note s!"{alg.name} key wrap failed"))
    else throw (.invalidParameter (.wrappingKeyLength alg (8 * secret.length)))

/-- `open?` with ranges. -/
def rangedOpen (alg : KeyManagement) (key : Key) (encryptedKey : Bytes) :
    Ranged (Option Bytes) :=
  match alg with
  | rsaOaep256 | rsaOaep | direct => within (alg.open? key encryptedKey)
  | a128Kw | a192Kw | a256Kw => do
    let secret ← within (alg.sharedSecret key)
    if some secret.length = alg.wrappingKeyBytes? then KeyWrap.rangedUnwrap secret encryptedKey
    else return none

/-- `receive` with ranges. -/
def rangedReceive (alg : KeyManagement) (enc : ContentEncryption) (key : Key)
    (encryptedKey : Bytes) : Ranged Bytes := do
  match ← alg.rangedOpen key encryptedKey with
  | some contentKey =>
    if contentKey.length = enc.keyBytes then return contentKey else throw .keyUnwrapFailed
  | none => throw .keyUnwrapFailed

end KeyManagement

/-! ## Tokens -/

namespace EncryptedToken

/-- `encrypt` with ranges. -/
def rangedEncrypt (payload : Bytes) (key : Key) (header : Header) (random : Randomness) :
    Ranged EncryptedToken := do
  let (alg, enc) ← within header.encryption
  within (key.require alg.name .encryption alg.sendOperations)
  let sent ← alg.rangedSend enc key random
  let iv := random.ivBytes enc.ivBytes
  let segment := header.encode
  let (ciphertext, tag) ←
    enc.rangedEncrypt sent.contentKey iv (Bytes.ofString segment) payload
  within (ofParts header segment none sent.encryptedKey iv ciphertext tag)

/-- The content of a token under a content key, with ranges. -/
def rangedOpen (t : EncryptedToken) (enc : ContentEncryption) (contentKey : Bytes) :
    Ranged Bytes :=
  enc.rangedDecrypt contentKey t.iv (Bytes.ofString t.segment) t.ciphertext t.tag

/-- `decrypt` with ranges. -/
def rangedDecrypt (t : EncryptedToken) (key : Key) (random : Randomness) : Ranged Bytes := do
  let (alg, enc) ← within t.header.encryption
  within (key.require alg.name .encryption alg.receiveOperations)
  if t.iv.length ≠ enc.ivBytes then throw (.malformedToken (.ivLength enc))
  else
    match ← Ranged.outcome (alg.rangedReceive enc key t.encryptedKey) with
    | .ok contentKey => t.rangedOpen enc contentKey
    | .error .keyUnwrapFailed =>
      -- how this ends is not looked at, so that it takes as long as if a key had been received
      let _ ← Ranged.outcome (t.rangedOpen enc (random.contentKeyBytes enc.keyBytes))
      throw .keyUnwrapFailed
    | .error e => throw e

end EncryptedToken

end WebToken
