import WebToken.Crypto.Rsa.Signature
import WebToken.Key

/-!
# Signers

A signer is an algorithm bound to a key of the right kind. Shared secrets sign and verify; an RSA
key verifies with its public half and signs with its private one.
-/

namespace WebToken

open Crypto

/-- An algorithm bound to a key. -/
inductive Signer where
  | hmac (alg : SignatureAlgorithm) (secret : Bytes)
  | rsaPublic (alg : SignatureAlgorithm) (k : Rsa.PublicKey)
  | rsaPrivate (alg : SignatureAlgorithm) (k : Rsa.PrivateKey)

namespace Signer

/-! ## Binding -/

/-- A keyed hash under a secret that is at least as long as the hash. -/
def ofSecret (alg : SignatureAlgorithm) (secret : Bytes) : Except Error Signer :=
  if !alg.isHmac then .error (.algorithmMismatch alg.name "RSA" "symmetric")
  else if secret.length < alg.hash.size then
    .error (.invalidParameter (.shortSecret alg (8 * secret.length)))
  else .ok (.hmac alg secret)

/-- A signature that can be verified only. -/
def ofPublic (alg : SignatureAlgorithm) (k : Rsa.PublicKey) : Except Error Signer :=
  if alg.isHmac then .error (.algorithmMismatch alg.name "symmetric" "RSA")
  else .ok (.rsaPublic alg k)

/-- A signature that can be made and verified. -/
def ofPrivate (alg : SignatureAlgorithm) (k : Rsa.PrivateKey) : Except Error Signer :=
  if alg.isHmac then .error (.algorithmMismatch alg.name "symmetric" "RSA")
  else .ok (.rsaPrivate alg k)

/-- The signer of an algorithm with a key that is to sign. -/
def forSigning (alg : SignatureAlgorithm) (key : Key) : Except Error Signer :=
  if alg.isHmac then
    match key.secret? with
    | some secret => ofSecret alg secret
    | none => .error (key.mismatch alg.name "symmetric")
  else
    match key.rsaPrivate? with
    | some k => ofPrivate alg k
    | none => .error (key.mismatch alg.name "RSA private")

/-- The signer of an algorithm with a key that is to verify. -/
def forVerification (alg : SignatureAlgorithm) (key : Key) : Except Error Signer :=
  if alg.isHmac then
    match key.secret? with
    | some secret => ofSecret alg secret
    | none => .error (key.mismatch alg.name "symmetric")
  else
    match key.rsaPublic? with
    | some k => ofPublic alg k
    | none => .error (key.mismatch alg.name "RSA")

/-! ## Use -/

/-- The algorithm of a signer. -/
def algorithm : Signer → SignatureAlgorithm
  | hmac alg _ | rsaPublic alg _ | rsaPrivate alg _ => alg

/-- The signature of a message. -/
def sign : Signer → Bytes → Except Error Bytes
  | hmac alg secret, message => .ok (alg.hash.hmac secret message)
  | rsaPublic alg _, _ => .error (.algorithmMismatch alg.name "RSA private" "RSA public")
  | rsaPrivate alg k, message =>
    match k.sign? alg.hash message with
    | some signature => .ok signature
    | none => .error (.internal .rsaSigning)

/-- Whether a string is the signature of a message. -/
def accepts : Signer → Bytes → Bytes → Bool
  | hmac alg secret, message, signature => alg.hash.hmac secret message = signature
  | rsaPublic alg k, message, signature => k.verify alg.hash message signature
  | rsaPrivate alg k, message, signature => k.toPublicKey.verify alg.hash message signature

/-- Refuse what is not the signature of a message. -/
def verify (s : Signer) (message signature : Bytes) : Except Error Unit :=
  if s.accepts message signature then .ok () else .error .signatureMismatch

end Signer

end WebToken
