/-!
# What a key is for

A key may say whether it signs or encrypts, and which operations it takes part in.
-/

namespace WebToken

/-- The purpose of a key. -/
inductive KeyUse where
  | signature
  | encryption
  deriving Repr, DecidableEq

namespace KeyUse

/-- The name in a key document. -/
def name : KeyUse → String
  | signature => "sig"
  | encryption => "enc"

/-- The word for the purpose in descriptions. -/
def label : KeyUse → String
  | signature => "Signature"
  | encryption => "Encryption"

/-- All purposes under their names. -/
def table : List (String × KeyUse) :=
  [signature, encryption].map fun u => (u.name, u)

end KeyUse

/-- An operation with a key. -/
inductive KeyOperation where
  | sign
  | verify
  | encrypt
  | decrypt
  | wrapKey
  | unwrapKey
  | deriveKey
  | deriveBits
  deriving Repr, DecidableEq

namespace KeyOperation

/-- The name in a key document. -/
def name : KeyOperation → String
  | sign => "sign"
  | verify => "verify"
  | encrypt => "encrypt"
  | decrypt => "decrypt"
  | wrapKey => "wrapKey"
  | unwrapKey => "unwrapKey"
  | deriveKey => "deriveKey"
  | deriveBits => "deriveBits"

/-- The word for the operation in descriptions. -/
def label : KeyOperation → String
  | sign => "Sign"
  | verify => "Verify"
  | encrypt => "Encrypt"
  | decrypt => "Decrypt"
  | wrapKey => "WrapKey"
  | unwrapKey => "UnwrapKey"
  | deriveKey => "DeriveKey"
  | deriveBits => "DeriveBits"

/-- All operations under their names. -/
def table : List (String × KeyOperation) :=
  [sign, verify, encrypt, decrypt, wrapKey, unwrapKey, deriveKey, deriveBits].map
    fun o => (o.name, o)

end KeyOperation

end WebToken
