import WebToken.Profile
import WebToken.Token.Text

/-!
# Envelopes

A value in an envelope is signed by its sender and then encrypted for its recipient. Both tokens
are written as flattened JSON and name the sender. Whatever cryptographic check an envelope fails,
reading it fails in one way.
-/

namespace WebToken

namespace Envelope

/-- The type of a content that is itself a token in JSON form. -/
def contentType : String := "JOSE+JSON"

/-- The algorithm that sends the content key to a recipient: with a shared secret the one for its
length, else the one of the profile. -/
def keyManagementFor (profile : Profile) (recipient : Key) : Except Error KeyManagement :=
  match recipient.secret? with
  | some secret => KeyManagement.forSharedKey secret.length
  | none => .ok profile.keyManagement

/-- The text of a value signed by a sender and encrypted for a recipient. -/
def write (profile : Profile) (value : Json.Value) (sender recipient : Key) (senderId : String)
    (random : Randomness) : Except Error String := do
  let alg := profile.signingAlgorithm sender.isSymmetric
  let signed ← SignedToken.sign value.encode sender ((Header.signed alg).withKid senderId)
  let alg ← keyManagementFor profile recipient
  let header := ((Header.encrypted alg profile.contentEncryption).withCty contentType).withKid senderId
  let encrypted ← EncryptedToken.encrypt (Bytes.ofString signed.flattened.text) recipient header random
  return encrypted.flattened.text

/-- A wrong signature inside an envelope fails like a wrong encryption. -/
def hideSignature : Error → Error
  | .signatureMismatch => .decryptionFailed
  | e => e

/-- The value that a sender signed and encrypted for a recipient. -/
def read (text : String) (recipient sender : Key) : Except Error Json.Value := do
  match ← Token.ofText text with
  | .signed _ => .error (.malformedToken .envelopeNotEncrypted)
  | .encrypted outer =>
    if outer.header.cty? ≠ some contentType then .error (.malformedToken .envelopeContentType)
    else
      let content ← outer.decryptHidden recipient
      match Bytes.toString? content with
      | none => .error (.malformedToken .envelopeNotText)
      | some inner =>
        match ← Token.ofText inner with
        | .encrypted _ => .error (.malformedToken .envelopeNotSigned)
        | .signed t =>
          let payload ← (t.verify sender).mapError hideSignature
          (Json.parse payload).mapError fun fault => .malformedToken (.envelopePayload fault)

end Envelope

end WebToken
