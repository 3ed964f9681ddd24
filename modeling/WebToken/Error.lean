import WebToken.Algorithm
import WebToken.Base64Url
import WebToken.Crypto.Rsa
import WebToken.Json.Reading
import WebToken.Key.Usage

/-!
# Errors

Every operation fails with a cause, and a cause has one wording (`Error.message`). The kinds of
errors have codes for programs to read. What goes wrong when a token is opened can be made
indistinguishable (`Error.hidden`): unwrapping, authentication and filling then fail alike.

Each family of causes also has room for a remark in a caller's own words.
-/

namespace WebToken

/-! ## Causes -/

/-- What is wrong with something that a caller gave. -/
inductive ParameterFault where
  | missingAlg
  | missingEnc
  /-- A parameter stands in both headers. -/
  | sharedName (name : String)
  | shortSecret (alg : SignatureAlgorithm) (bits : Nat)
  | contentKeyLength (enc : ContentEncryption) (bytes : Nat)
  | wrappingKeyLength (alg : KeyManagement) (bits : Nat)
  | directKeyLength (enc : ContentEncryption) (bits : Nat)
  /-- No algorithm wraps under a shared key of this length. -/
  | sharedKeyLength (bits : Nat)
  | emptySecret
  | secretSize (bits : Nat)
  | modulusSize (bits : Nat)
  | reservedClaim (name : String)
  | missingSubject
  | lifetime
  | note (text : String)
  deriving Repr, DecidableEq

/-- What is wrong with a key document. -/
inductive KeyFault where
  | document (e : Json.ReadError)
  | missing (kty name : String)
  | encoding (name : String)
  | empty (name : String)
  | multiPrime
  | strayPrivate
  | publicNumbers (flaw : Crypto.Rsa.Flaw)
  | privateNumbers (flaw : Crypto.Rsa.Flaw)
  /-- The derived numbers are not those of the key. -/
  | derivedNumbers
  | smallModulus (bits : Nat)
  | unknownType (kty : String)
  | note (text : String)
  deriving Repr, DecidableEq

/-- Why something cannot be done with a key or a token. -/
inductive UsageFault where
  | restrictedTo (use : KeyUse)
  | notPermitted (operations : List KeyOperation)
  | noPublicPart
  | noPrivatePart
  | unprotectedInCompact
  | note (text : String)
  deriving Repr, DecidableEq

/-- The JSON forms of tokens. -/
inductive JsonForm where
  | signedGeneral
  | signedFlattened
  | encryptedGeneral
  | encryptedFlattened
  deriving Repr, DecidableEq

/-- The name of a JSON form. -/
def JsonForm.name : JsonForm → String
  | signedGeneral => "JWS general serialization"
  | signedFlattened => "JWS flattened serialization"
  | encryptedGeneral => "JWE general serialization"
  | encryptedFlattened => "JWE flattened serialization"

/-- What is wrong with a token. -/
inductive TokenFault where
  | base64 (fault : Base64Url.Fault)
  | headerSyntax (fault : Json.Fault)
  | headerNotObject
  /-- Parameters that must be understood are not. -/
  | criticalParameters
  | criticalUnprotected
  | missingAlg
  | missingAlgOrEnc
  | sharedName (name : String)
  | repeatedName (name : String)
  | segmentCount (count : Nat)
  | jsonSyntax (fault : Json.Fault)
  | jsonNotObject
  | jsonNeither
  | jsonMembers (form : JsonForm) (e : Json.ReadError)
  | signatureCount (count : Nat)
  | recipientCount (count : Nat)
  | additionalData
  | ivLength (enc : ContentEncryption)
  | contentIvLength (enc : ContentEncryption) (bytes : Nat)
  | notSigned
  | notEncrypted
  | neitherWebToken
  | notSignedWebToken
  | notEncryptedWebToken
  | envelopeNotEncrypted
  | envelopeContentType
  | envelopeNotText
  | envelopeNotSigned
  | envelopePayload (fault : Json.Fault)
  | note (text : String)
  deriving Repr, DecidableEq

/-- What is wrong with claims. -/
inductive ClaimsFault where
  | syntaxError (e : Json.ReadError)
  | expired
  | notYetValid
  | issuer
  | audience
  | note (text : String)
  deriving Repr, DecidableEq

/-- Why the text of a setting is refused. -/
inductive SettingFault where
  | notBool
  | emptyNumber
  | invalidDigit
  | numberTooLarge
  | unknownAlgorithm (name : String)
  deriving Repr, DecidableEq

/-- What is wrong with a configuration. -/
inductive ConfigFault where
  | setting (name : String) (fault : SettingFault)
  | modulusSize (bits : Nat)
  | secretSize (bits : Nat)
  | symmetricAlgorithm (alg : SignatureAlgorithm)
  | asymmetricAlgorithm (alg : SignatureAlgorithm)
  | keyManagement (alg : KeyManagement)
  | weakSecret (alg : SignatureAlgorithm) (bits : Nat)
  | note (text : String)
  deriving Repr, DecidableEq

/-- What should never go wrong. -/
inductive InternalFault where
  /-- The private function does not undo the public one. -/
  | rsaSigning
  /-- A content key does not fit into what an RSA key encrypts. -/
  | keyWrap (alg : KeyManagement)
  | note (text : String)
  deriving Repr, DecidableEq

/-- Why an operation fails. -/
inductive Error where
  | invalidParameter (fault : ParameterFault)
  | malformedKey (fault : KeyFault)
  | unsupportedOperation (fault : UsageFault)
  | unsupportedAlgorithm (name : String)
  | algorithmMismatch (alg expected actual : String)
  | signatureMismatch
  | keyUnwrapFailed
  | authenticationFailed
  | paddingError
  | decryptionFailed
  | malformedToken (fault : TokenFault)
  | invalidClaims (fault : ClaimsFault)
  | configError (fault : ConfigFault)
  | internal (fault : InternalFault)
  deriving Repr, DecidableEq

/-! ## Sizes that messages mention -/

/-- Bits of the smallest RSA modulus that a key may have. -/
def minModulusBits : Nat := 2048

/-- Bits of the RSA moduli that are made. -/
def modulusSizes : List Nat := [2048, 3072, 4096]

/-- Bits of the smallest secret with which an algorithm signs. -/
def SignatureAlgorithm.minSecretBits (a : SignatureAlgorithm) : Nat := 8 * a.hash.size

/-- Bits of the key under which an algorithm wraps, none if it does not wrap. -/
def KeyManagement.wrappingKeyBits (a : KeyManagement) : Nat := 8 * a.wrappingKeyBytes?.getD 0

/-! ## Wordings -/

/-- A list of sizes. -/
def sizesText (sizes : List Nat) : String :=
  "[" ++ ", ".intercalate (sizes.map toString) ++ "]"

/-- The wording of a fault in a parameter. -/
def ParameterFault.message : ParameterFault → String
  | .missingAlg => "header is missing 'alg'"
  | .missingEnc => "header is missing 'enc'"
  | .sharedName name =>
    s!"header parameter '{name}' appears in both protected and unprotected headers"
  | .shortSecret alg bits =>
    s!"{alg.name} requires a key of at least {alg.minSecretBits} bits, got {bits}"
  | .contentKeyLength enc bytes => s!"{enc.name} requires a {enc.keyBytes}-byte key, got {bytes}"
  | .wrappingKeyLength alg bits =>
    s!"{alg.name} requires a {alg.wrappingKeyBits}-bit key, got {bits}"
  | .directKeyLength enc bits =>
    s!"{enc.name} with dir requires a {8 * enc.keyBytes}-bit key, got {bits}"
  | .sharedKeyLength bits => s!"shared key length {bits} bits is not 128/192/256"
  | .emptySecret => "symmetric key must not be empty"
  | .secretSize bits =>
    s!"symmetric key size must be a positive multiple of 8 bits, got {bits}"
  | .modulusSize bits =>
    s!"unsupported RSA modulus size {bits} (expected one of {sizesText modulusSizes})"
  | .reservedClaim name => s!"cannot use reserved claim name '{name}'"
  | .missingSubject => "subject is required"
  | .lifetime => "ttl must be positive"
  | .note text => text

/-- The wording of a fault in a key document. -/
def KeyFault.message : KeyFault → String
  | .document e => s!"invalid JWK: {e.message}"
  | .missing kty name => s!"{kty} key is missing '{name}'"
  | .encoding name => s!"'{name}' is not valid base64url"
  | .empty name => s!"'{name}' is empty"
  | .multiPrime => "multi-prime RSA keys are not supported"
  | .strayPrivate => "RSA private members present without 'd'"
  | .publicNumbers flaw => s!"invalid RSA public key: {flaw.message}"
  | .privateNumbers flaw => s!"invalid RSA private key: {flaw.message}"
  | .derivedNumbers => "RSA CRT parameters do not match the key"
  | .smallModulus bits => s!"RSA modulus must be at least {minModulusBits} bits, got {bits}"
  | .unknownType kty => s!"unsupported kty '{kty}'"
  | .note text => text

/-- The wording of a refused use. -/
def UsageFault.message : UsageFault → String
  | .restrictedTo use => s!"key is restricted to use={use.name}"
  | .notPermitted operations =>
    "key_ops does not permit " ++ "|".intercalate (operations.map KeyOperation.name)
  | .noPublicPart => "symmetric keys have no public projection"
  | .noPrivatePart => "RSA key has no private half to export"
  | .unprotectedInCompact => "compact serialization does not support unprotected headers"
  | .note text => text

/-- The wording of a fault in a token. -/
def TokenFault.message : TokenFault → String
  | .base64 fault => s!"invalid base64url: {fault.message}"
  | .headerSyntax fault => s!"header is not valid JSON: {fault.message}"
  | .headerNotObject => "header is not a JSON object"
  | .criticalParameters => "critical header parameters are not supported"
  | .criticalUnprotected => "'crit' must be integrity protected"
  | .missingAlg => "protected header is missing 'alg'"
  | .missingAlgOrEnc => "protected header must carry 'alg' and 'enc'"
  | .sharedName name => s!"Invalid parameter: {(ParameterFault.sharedName name).message}"
  | .repeatedName name => s!"header parameter '{name}' repeated in unprotected headers"
  | .segmentCount count => s!"compact serialization needs 3 or 5 segments, got {count}"
  | .jsonSyntax fault => s!"invalid JSON serialization: {fault.message}"
  | .jsonNotObject => "JSON serialization must be an object"
  | .jsonNeither => "JSON serialization is neither a JWS nor a JWE"
  | .jsonMembers form e => s!"invalid {form.name}: {e.message}"
  | .signatureCount count => s!"exactly one signature is supported, got {count}"
  | .recipientCount count => s!"exactly one recipient is supported, got {count}"
  | .additionalData => "JWE 'aad' member is not supported"
  | .ivLength enc => s!"{enc.name} requires a {enc.ivBytes}-byte IV"
  | .contentIvLength enc bytes => s!"{enc.name} requires a {enc.ivBytes}-byte IV, got {bytes}"
  | .notSigned => "expected a JWS, found a JWE"
  | .notEncrypted => "expected a JWE, found a JWS"
  | .neitherWebToken => "unable to parse JWT as JWS or JWE"
  | .notSignedWebToken => "expected a signed JWT"
  | .notEncryptedWebToken => "expected an encrypted JWT"
  | .envelopeNotEncrypted => "expected a JWE"
  | .envelopeContentType => "expected cty 'JOSE+JSON'"
  | .envelopeNotText => "nested JWS is not UTF-8"
  | .envelopeNotSigned => "nested token is not a JWS"
  | .envelopePayload fault => s!"payload does not match the requested type: {fault.message}"
  | .note text => text

/-- The wording of a fault in claims. -/
def ClaimsFault.message : ClaimsFault → String
  | .syntaxError e => s!"claims are not a valid JSON object: {e.message}"
  | .expired => "token has expired"
  | .notYetValid => "token is not yet valid"
  | .issuer => "issuer mismatch"
  | .audience => "audience mismatch"
  | .note text => text

/-- The wording of an unknown algorithm. -/
def unknownAlgorithmMessage (name : String) : String := s!"Unsupported algorithm: {name}"

/-- The wording of a refused setting. -/
def SettingFault.message : SettingFault → String
  | .notBool => "provided string was not `true` or `false`"
  | .emptyNumber => "cannot parse integer from empty string"
  | .invalidDigit => "invalid digit found in string"
  | .numberTooLarge => "number too large to fit in target type"
  | .unknownAlgorithm name => unknownAlgorithmMessage name

/-- The wording of a fault in a configuration. -/
def ConfigFault.message : ConfigFault → String
  | .setting name fault => s!"Invalid {name}: {fault.message}"
  | .modulusSize bits =>
    s!"JOSE_RSA_KEY_BITS must be one of {sizesText modulusSizes}, got {bits}"
  | .secretSize bits => s!"JOSE_SYMMETRIC_KEY_BITS must be a positive multiple of 8, got {bits}"
  | .symmetricAlgorithm alg => s!"symmetric signing algorithm must be HMAC, got {alg.name}"
  | .asymmetricAlgorithm alg => s!"asymmetric signing algorithm must be RSA, got {alg.name}"
  | .keyManagement alg =>
    s!"asymmetric key management must be RSA-OAEP or RSA-OAEP-256, got {alg.name}"
  | .weakSecret alg bits =>
    s!"JOSE_SYMMETRIC_KEY_BITS must be at least {alg.minSecretBits} for {alg.name}, got {bits}"
  | .note text => text

/-- The wording of what should never go wrong. -/
def InternalFault.message : InternalFault → String
  | .rsaSigning => "RSA signing failed: internal error"
  | .keyWrap alg => s!"{alg.name} key wrap failed: message too long"
  | .note text => text

namespace Error

/-- The wording of an error. -/
def message : Error → String
  | invalidParameter fault => s!"Invalid parameter: {fault.message}"
  | malformedKey fault => s!"Malformed key: {fault.message}"
  | unsupportedOperation fault => s!"Unsupported operation: {fault.message}"
  | unsupportedAlgorithm name => unknownAlgorithmMessage name
  | algorithmMismatch alg expected actual =>
    s!"Algorithm {alg} requires {expected} key, got {actual} key"
  | signatureMismatch => "Signature mismatch"
  | keyUnwrapFailed => "Key unwrap failed"
  | authenticationFailed => "Authentication failed"
  | paddingError => "Padding error"
  | decryptionFailed => "Decryption failed"
  | malformedToken fault => s!"Malformed token: {fault.message}"
  | invalidClaims fault => s!"Invalid claims: {fault.message}"
  | configError fault => s!"Configuration error: {fault.message}"
  | internal fault => s!"Internal error: {fault.message}"

/-! ## Kinds -/

/-- The code of an error's kind. -/
def code : Error → String
  | invalidParameter _ => "JOSE_INVALID_PARAMETER"
  | malformedKey _ => "JOSE_MALFORMED_KEY"
  | unsupportedOperation _ => "JOSE_UNSUPPORTED_OPERATION"
  | unsupportedAlgorithm _ => "JOSE_UNSUPPORTED_ALGORITHM"
  | algorithmMismatch .. => "JOSE_ALGORITHM_MISMATCH"
  | signatureMismatch => "JOSE_SIGNATURE_MISMATCH"
  | keyUnwrapFailed => "JOSE_KEY_UNWRAP_FAILED"
  | authenticationFailed => "JOSE_AUTHENTICATION_FAILED"
  | paddingError => "JOSE_PADDING_ERROR"
  | decryptionFailed => "JOSE_DECRYPTION_FAILED"
  | malformedToken _ => "JOSE_MALFORMED_TOKEN"
  | invalidClaims _ => "JOSE_INVALID_CLAIMS"
  | configError _ => "JOSE_CONFIG_ERROR"
  | internal _ => "JOSE_INTERNAL"

/-- Whether a cryptographic check failed. -/
def isCryptoFailure : Error → Bool
  | signatureMismatch | keyUnwrapFailed | authenticationFailed | paddingError
  | decryptionFailed => true
  | _ => false

/-- The error as it is shown to a stranger: the steps of decryption fail alike. -/
def hidden : Error → Error
  | keyUnwrapFailed | authenticationFailed | paddingError => decryptionFailed
  | e => e

end Error

/-- The algorithm with a name. -/
def algorithmNamed {α : Type} (ofName? : String → Option α) (name : String) : Except Error α :=
  match ofName? name with
  | some a => .ok a
  | none => .error (.unsupportedAlgorithm name)

end WebToken
