import WebToken.Claims.Reading
import WebToken.Claims.Validation
import WebToken.Token.Text

/-!
# JSON web tokens

A JSON web token is a compact token whose content is claims. Its kind can be told from the number
of points in its text. Claims are looked at only after the signature or the tag was found right.
-/

namespace WebToken

/-- The kinds of JSON web tokens. -/
inductive JwtKind where
  | signed
  | encrypted
  deriving Repr, DecidableEq

/-- The kind of a text, by its points. -/
def JwtKind.ofText (text : String) : Except Error JwtKind :=
  match text.toList.count '.' with
  | 2 => .ok .signed
  | 4 => .ok .encrypted
  | _ => .error (.malformedToken .neitherWebToken)

namespace Jwt

/-- The header of a token for a key. -/
def headerFor (key : Key) (header : Header) : Header :=
  let header := header.withTyp "JWT"
  match key.params.kid with
  | some kid => header.withKid kid
  | none => header

/-- The text of claims signed with a key. -/
def sign (c : Claims) (key : Key) (alg : SignatureAlgorithm) : Except Error String :=
  signCompact (Bytes.ofString c.json) key (headerFor key (.signed alg))

/-- The text of claims encrypted for a key. -/
def encrypt (c : Claims) (key : Key) (alg : KeyManagement) (enc : ContentEncryption)
    (random : Randomness) : Except Error String :=
  encryptCompact (Bytes.ofString c.json) key (headerFor key (.encrypted alg enc)) random

/-- The claims of a content, if they pass the checks. -/
def accept (content : Bytes) (v : Validation) (now : Int64) : Except Error Claims := do
  let c ← Claims.ofBytes content
  v.validateAt c now
  return c

/-- The claims of a signed text whose signature is one by a key. -/
def verify (text : String) (key : Key) (v : Validation) (now : Int64) : Except Error Claims := do
  match ← JwtKind.ofText text with
  | .encrypted => .error (.malformedToken .notSignedWebToken)
  | .signed =>
    match ← Token.ofText text with
    | .encrypted _ => .error (.malformedToken .notSignedWebToken)
    | .signed t => accept (← t.verify key) v now

/-- The claims of a text that was encrypted for a key; the steps of decryption fail alike. -/
def decrypt (text : String) (key : Key) (v : Validation) (now : Int64) : Except Error Claims := do
  match ← JwtKind.ofText text with
  | .signed => .error (.malformedToken .notEncryptedWebToken)
  | .encrypted =>
    match ← Token.ofText text with
    | .signed _ => .error (.malformedToken .notEncryptedWebToken)
    | .encrypted t => accept (← t.decryptHidden key) v now

end Jwt

end WebToken
