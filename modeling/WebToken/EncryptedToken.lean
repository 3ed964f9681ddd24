import WebToken.ContentCipher
import WebToken.ContentKey
import WebToken.Header
import WebToken.SignedToken

/-!
# Encrypted tokens

An encrypted token carries a content, the key of the content for one recipient, and a header in
the clear. The text of the header is part of what the content's tag covers.

* `EncryptedToken.encrypt` makes a token, `EncryptedToken.decrypt` gives its content.
-/

namespace WebToken

/-- An encrypted token. -/
structure EncryptedToken where
  header : Header
  /-- The text of the header, as the tag covers it. -/
  segment : String
  unprotected : Option Header
  encryptedKey : Bytes
  iv : Bytes
  ciphertext : Bytes
  tag : Bytes
  deriving Repr

/-- The algorithms that a header names for an encrypted token. Compressed contents are not
read. -/
def Header.encryption (h : Header) : Except Error (KeyManagement × ContentEncryption) := do
  h.refuseCritical
  match h.get? "zip" with
  | some v => .error (.unsupportedAlgorithm s!"zip={v.text}")
  | none =>
    let alg ← h.keyManagement
    let enc ← h.contentEncryption
    return (alg, enc)

/-- The operations either of which permits a key to send content keys. -/
def KeyManagement.sendOperations : KeyManagement → List KeyOperation
  | direct => [.encrypt]
  | _ => [.wrapKey, .encrypt]

/-- The operations either of which permits a key to receive content keys. -/
def KeyManagement.receiveOperations : KeyManagement → List KeyOperation
  | direct => [.decrypt]
  | _ => [.unwrapKey, .decrypt]

namespace EncryptedToken

/-! ## Making and changing tokens -/

/-- The token of its parts. The header must name both algorithms. -/
def ofParts (header : Header) (segment : String) (unprotected : Option Header)
    (encryptedKey iv ciphertext tag : Bytes) : Except Error EncryptedToken := do
  if header.alg?.isNone ∨ header.enc?.isNone then .error (.malformedToken .missingAlgOrEnc)
  else
    header.refuseShared unprotected
    return ⟨header, segment, unprotected, encryptedKey, iv, ciphertext, tag⟩

/-- The token with an unprotected header. -/
def withUnprotected (t : EncryptedToken) (unprotected : Header) : Except Error EncryptedToken := do
  t.header.checkAttached unprotected
  return { t with unprotected := some unprotected }

/-! ## Encryption and decryption -/

/-- The token of a payload, encrypted for a key as the header says. -/
def encrypt (payload : Bytes) (key : Key) (header : Header) (random : Randomness) :
    Except Error EncryptedToken := do
  let (alg, enc) ← header.encryption
  key.require alg.name .encryption alg.sendOperations
  let sent ← alg.send enc key random
  let iv := random.ivBytes enc.ivBytes
  let segment := header.encode
  let (ciphertext, tag) ← enc.encrypt sent.contentKey iv (Bytes.ofString segment) payload
  ofParts header segment none sent.encryptedKey iv ciphertext tag

/-- The content of a token that was encrypted for a key. -/
def decrypt (t : EncryptedToken) (key : Key) : Except Error Bytes := do
  let (alg, enc) ← t.header.encryption
  key.require alg.name .encryption alg.receiveOperations
  if t.iv.length ≠ enc.ivBytes then .error (.malformedToken (.ivLength enc))
  else
    let contentKey ← alg.receive enc key t.encryptedKey
    enc.decrypt contentKey t.iv (Bytes.ofString t.segment) t.ciphertext t.tag

/-- The content of a token, with the steps of decryption failing alike. -/
def decryptHidden (t : EncryptedToken) (key : Key) : Except Error Bytes :=
  (t.decrypt key).mapError Error.hidden

/-- Whether two tokens are equal; the order of header parameters does not count. -/
def same (t u : EncryptedToken) : Bool :=
  t.header.same u.header && t.segment == u.segment &&
    Header.sameUnprotected t.unprotected u.unprotected &&
    t.encryptedKey == u.encryptedKey && t.iv == u.iv && t.ciphertext == u.ciphertext &&
    t.tag == u.tag

end EncryptedToken

end WebToken
