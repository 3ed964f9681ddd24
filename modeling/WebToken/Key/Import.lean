import WebToken.Key.Document

/-!
# Keys from documents and documents from keys

A document becomes a key when its members decode and its numbers fit together: the numbers of an
RSA key must satisfy the conditions of their types, and the numbers that could be derived must be
the derived ones. A key becomes a document with or without its private half.
-/

namespace WebToken

open Crypto

namespace Jwk

/-! ## Members -/

/-- A member that must be there. -/
def required (kty name : String) : Option String → Except Error String
  | some text => .ok text
  | none => .error (.malformedKey (.missing kty name))

/-- The bytes of a member. -/
def decodeBytes (name text : String) : Except Error Bytes :=
  (Base64Url.decode text).mapError fun _ => .malformedKey (.encoding name)

/-- The bytes of a member, of which there must be one. -/
def decodeNonempty (name text : String) : Except Error Bytes := do
  let bytes ← decodeBytes name text
  if bytes = [] then .error (.malformedKey (.empty name)) else return bytes

/-- The number of a member that must be there. -/
def number (name : String) (text : Option String) : Except Error Nat := do
  return Bytes.toNat (← decodeNonempty name (← required "RSA" name text))

/-- The text of a number, in as few bytes as hold it. -/
def numberText (n : Nat) : String := Base64Url.encode (Bytes.ofNatMinimal n)

/-! ## From documents -/

/-- The material of a shared secret. -/
def symmetricMaterial (j : Jwk) : Except Error KeyMaterial := do
  let bytes ← decodeBytes "k" (← required "oct" "k" j.k)
  if h : bytes ≠ [] then .ok (.symmetric ⟨bytes, h⟩)
  else .error (.malformedKey (.empty "k"))

/-- The flaws of a public key's numbers. -/
def orPublicFlaw {α : Type} (r : Except Rsa.Flaw α) : Except Error α :=
  r.mapError fun flaw => .malformedKey (.publicNumbers flaw)

/-- The flaws of a private key's numbers. -/
def orPrivateFlaw {α : Type} (r : Except Rsa.Flaw α) : Except Error α :=
  r.mapError fun flaw => .malformedKey (.privateNumbers flaw)

/-- Bits of the largest modulus of a document without a private half. -/
def maxPublicBits : Nat := 4096

/-- The public key of two numbers that stand alone: their modulus may not be too large. -/
def publicKey (n e : Nat) : Except Error Rsa.PublicKey :=
  if maxPublicBits < Bytes.bitLength n then orPublicFlaw (.error .modulusTooLarge)
  else orPublicFlaw (Rsa.PublicKey.ofNumbers n e)

/-- The private key of a document whose public numbers and private exponent are known. -/
def privateKey (j : Jwk) (n e d : Nat) : Except Error Rsa.PrivateKey := do
  let p ← number "p" j.p
  let q ← number "q" j.q
  let dp ← number "dp" j.dp
  let dq ← number "dq" j.dq
  let qi ← number "qi" j.qi
  let k ← orPrivateFlaw (Rsa.PublicKey.ofNumbers n e)
  let key ← orPrivateFlaw (Rsa.PrivateKey.ofNumbers k d p q)
  if key.dp = dp ∧ key.dq = dq ∧ key.qi = qi then return key
  else .error (.malformedKey .derivedNumbers)

/-- Whether a document has members of a private key. -/
def hasPrivateMember (j : Jwk) : Bool :=
  j.p.isSome || j.q.isSome || j.dp.isSome || j.dq.isSome || j.qi.isSome

/-- The material of an RSA key. -/
def rsaMaterial (j : Jwk) : Except Error KeyMaterial := do
  if j.oth.isSome then .error (.malformedKey .multiPrime)
  else
    let n ← number "n" j.n
    let e ← number "e" j.e
    match j.d with
    | none =>
      if j.hasPrivateMember then .error (.malformedKey .strayPrivate)
      else Key.publicMaterial (← publicKey n e)
    | some d =>
      let d := Bytes.toNat (← decodeNonempty "d" d)
      Key.privateMaterial (← j.privateKey n e d)

/-- The key that a document describes. -/
def toKey (j : Jwk) : Except Error Key :=
  match j.kty with
  | "oct" => do return ⟨← j.symmetricMaterial, j.params⟩
  | "RSA" => do return ⟨← j.rsaMaterial, j.params⟩
  | other => .error (.malformedKey (.unknownType other))

/-! ## From keys -/

/-- The document of an RSA public key. -/
def ofPublic (k : Rsa.PublicKey) (params : KeyParams) : Jwk where
  kty := "RSA"
  params := params
  k := none
  n := some (numberText k.modulus)
  e := some (numberText k.exponent)
  d := none
  p := none
  q := none
  dp := none
  dq := none
  qi := none
  oth := none

/-- The document of an RSA private key. -/
def ofPrivate (k : Rsa.PrivateKey) (params : KeyParams) : Jwk :=
  { ofPublic k.toPublicKey params with
    d := some (numberText k.secret)
    p := some (numberText k.p)
    q := some (numberText k.q)
    dp := some (numberText k.dp)
    dq := some (numberText k.dq)
    qi := some (numberText k.qi) }

/-- The document of a shared secret. -/
def ofSecret (s : Secret) (params : KeyParams) : Jwk where
  kty := "oct"
  params := params
  k := some (Base64Url.encode s.bytes)
  n := none
  e := none
  d := none
  p := none
  q := none
  dp := none
  dq := none
  qi := none
  oth := none

end Jwk

namespace Key

/-- The key that an object describes. -/
def ofObject (o : Json.Object) : Except Error Key := do
  (← Jwk.ofObject o).toKey

/-- The key that a text describes. -/
def ofText (text : String) : Except Error Key := do
  (← Jwk.ofText text).toKey

/-- The document of a key's public half. -/
def publicJwk (key : Key) : Except Error Jwk :=
  match key.material with
  | .symmetric _ => .error (.unsupportedOperation .noPublicPart)
  | .rsaPublic k _ => .ok (.ofPublic k key.params)
  | .rsaPrivate k _ => .ok (.ofPublic k.toPublicKey key.params)

/-- The document of all of a key. -/
def privateJwk (key : Key) : Except Error Jwk :=
  match key.material with
  | .symmetric s => .ok (.ofSecret s key.params)
  | .rsaPublic .. => .error (.unsupportedOperation .noPrivatePart)
  | .rsaPrivate k _ => .ok (.ofPrivate k key.params)

/-- The public half of a key as an object. -/
def exportPublic (key : Key) : Except Error Json.Object := do
  return (← key.publicJwk).toObject

/-- All of a key as an object. -/
def exportPrivate (key : Key) : Except Error Json.Object := do
  return (← key.privateJwk).toObject

end Key

end WebToken
