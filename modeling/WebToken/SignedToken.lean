import WebToken.Header
import WebToken.Signer

/-!
# Signed tokens

A signed token protects its header and its payload by a signature over the text of both. The text
of the header is kept as it was signed, so that a token that was received is verified as it came.

* `SignedToken.sign` makes a token, `SignedToken.verify` gives its payload.
-/

namespace WebToken

/-- A signed token. -/
structure SignedToken where
  header : Header
  /-- The text of the header, as it was signed. -/
  segment : String
  unprotected : Option Header
  payload : Bytes
  signature : Bytes
  deriving Repr

/-- Refuse an unprotected header that repeats a protected parameter. -/
def Header.refuseShared (h : Header) (unprotected : Option Header) : Except Error Unit :=
  match unprotected.bind h.sharedName? with
  | some name => .error (.malformedToken (.sharedName name))
  | none => .ok ()

/-- An unprotected header that is attached to a token later: it may neither repeat a protected
parameter nor hold any that must be understood. -/
def Header.checkAttached (h unprotected : Header) : Except Error Unit :=
  match h.sharedName? unprotected with
  | some name => .error (.invalidParameter (.sharedName name))
  | none => unprotected.refuseCritical

/-- Whether two unprotected headers are equal; the order of parameters does not count. -/
def Header.sameUnprotected : Option Header → Option Header → Bool
  | none, none => true
  | some h, some k => h.same k
  | _, _ => false

namespace SignedToken

/-! ## Making and changing tokens -/

/-- The token of its parts. The header must name an algorithm. -/
def ofParts (header : Header) (segment : String) (unprotected : Option Header)
    (payload signature : Bytes) : Except Error SignedToken := do
  if header.alg?.isNone then .error (.malformedToken .missingAlg)
  else
    header.refuseShared unprotected
    return ⟨header, segment, unprotected, payload, signature⟩

/-- The token with an unprotected header. -/
def withUnprotected (t : SignedToken) (unprotected : Header) : Except Error SignedToken := do
  t.header.checkAttached unprotected
  return { t with unprotected := some unprotected }

/-! ## Signing and verifying -/

/-- What is signed: the text of the header and the payload. -/
def inputOf (segment : String) (payload : Bytes) : String :=
  segment ++ "." ++ Base64Url.encode payload

/-- What is signed for a token. -/
def signingInput (t : SignedToken) : String := inputOf t.segment t.payload

/-- The token of a payload, signed with a key as the header says. -/
def sign (payload : Bytes) (key : Key) (header : Header) : Except Error SignedToken := do
  header.refuseCritical
  let alg ← header.signatureAlgorithm
  key.require alg.name .signature [.sign]
  let signer ← Signer.forSigning alg key
  let segment := header.encode
  let signature ← signer.sign (Bytes.ofString (inputOf segment payload))
  ofParts header segment none payload signature

/-- The payload of a token whose signature is one by a key. -/
def verify (t : SignedToken) (key : Key) : Except Error Bytes := do
  let alg ← t.header.signatureAlgorithm
  key.require alg.name .signature [.verify]
  let signer ← Signer.forVerification alg key
  signer.verify (Bytes.ofString t.signingInput) t.signature
  return t.payload

/-- Whether two tokens are equal; the order of header parameters does not count. -/
def same (t u : SignedToken) : Bool :=
  t.header.same u.header && t.segment == u.segment &&
    Header.sameUnprotected t.unprotected u.unprotected &&
    t.payload == u.payload && t.signature == u.signature

end SignedToken

end WebToken
