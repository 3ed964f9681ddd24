import WebToken.Token

/-!
# The compact form

Three segments separated by points are a signed token, five an encrypted one. Each segment is
base64url, so a token has one compact text. Unprotected headers cannot be written.
-/

namespace WebToken

/-! ## Writing -/

/-- Refuse a token with an unprotected header. -/
def refuseUnprotected (unprotected : Option Header) : Except Error Unit :=
  if unprotected.isSome then .error (.unsupportedOperation .unprotectedInCompact) else .ok ()

/-- The compact text of a signed token. -/
def SignedToken.compact (t : SignedToken) : Except Error String := do
  refuseUnprotected t.unprotected
  return ".".intercalate [t.segment, Base64Url.encode t.payload, Base64Url.encode t.signature]

/-- The compact text of an encrypted token. -/
def EncryptedToken.compact (t : EncryptedToken) : Except Error String := do
  refuseUnprotected t.unprotected
  return ".".intercalate
    [t.segment, Base64Url.encode t.encryptedKey, Base64Url.encode t.iv,
      Base64Url.encode t.ciphertext, Base64Url.encode t.tag]

/-! ## Reading -/

/-- The pieces of a list between the places where an element stands. There is always one. -/
def splitOn {α : Type} [DecidableEq α] (separator : α) : List α → List (List α)
  | [] => [[]]
  | a :: as =>
    if a = separator then [] :: splitOn separator as
    else
      match splitOn separator as with
      | [] => [[a]]
      | piece :: pieces => (a :: piece) :: pieces

/-- The segments of a compact text. -/
def segments (text : String) : List String := (splitOn '.' text.toList).map String.ofList

/-- The token of a compact text. -/
def Token.ofCompact (text : String) : Except Error Token :=
  match segments text with
  | [segment, payload, signature] => do
    let header ← Header.decode segment
    let payload ← Segment.decode payload
    let signature ← Segment.decode signature
    return .signed (← SignedToken.ofParts header segment none payload signature)
  | [segment, encryptedKey, iv, ciphertext, tag] => do
    let header ← Header.decode segment
    let encryptedKey ← Segment.decode encryptedKey
    let iv ← Segment.decode iv
    let ciphertext ← Segment.decode ciphertext
    let tag ← Segment.decode tag
    return .encrypted
      (← EncryptedToken.ofParts header segment none encryptedKey iv ciphertext tag)
  | other => .error (.malformedToken (.segmentCount other.length))

end WebToken
