import WebToken.Crypto.Hash

/-!
# Algorithms

The algorithms that a header may name: signatures, the management of content keys, and the
encryption of contents. Names are told apart by case, and each algorithm is found again under its
name (`SignatureAlgorithm.ofName?_name` and its fellows).
-/

namespace WebToken

open Crypto (Hash)

/-! ## Signatures -/

/-- An algorithm that signs. -/
inductive SignatureAlgorithm where
  | hs256
  | hs384
  | hs512
  | rs256
  | rs384
  | rs512
  deriving Repr, DecidableEq

namespace SignatureAlgorithm

/-- The name in a header. -/
def name : SignatureAlgorithm → String
  | hs256 => "HS256"
  | hs384 => "HS384"
  | hs512 => "HS512"
  | rs256 => "RS256"
  | rs384 => "RS384"
  | rs512 => "RS512"

/-- The algorithm with a name. -/
def ofName? : String → Option SignatureAlgorithm
  | "HS256" => some hs256
  | "HS384" => some hs384
  | "HS512" => some hs512
  | "RS256" => some rs256
  | "RS384" => some rs384
  | "RS512" => some rs512
  | _ => none

theorem ofName?_name (a : SignatureAlgorithm) : ofName? a.name = some a := by
  cases a <;> rfl

/-- Whether the algorithm is keyed with a shared secret. -/
def isHmac : SignatureAlgorithm → Bool
  | hs256 | hs384 | hs512 => true
  | rs256 | rs384 | rs512 => false

/-- The hash function under the signature. -/
def hash : SignatureAlgorithm → Hash
  | hs256 | rs256 => .sha256
  | hs384 | rs384 => .sha384
  | hs512 | rs512 => .sha512

end SignatureAlgorithm

/-! ## Key management -/

/-- How the key of a content reaches its recipient. -/
inductive KeyManagement where
  | rsaOaep256
  | rsaOaep
  | a128Kw
  | a192Kw
  | a256Kw
  /-- The shared key is the content key. -/
  | direct
  deriving Repr, DecidableEq

namespace KeyManagement

/-- The name in a header. -/
def name : KeyManagement → String
  | rsaOaep256 => "RSA-OAEP-256"
  | rsaOaep => "RSA-OAEP"
  | a128Kw => "A128KW"
  | a192Kw => "A192KW"
  | a256Kw => "A256KW"
  | direct => "dir"

/-- The algorithm with a name. -/
def ofName? : String → Option KeyManagement
  | "RSA-OAEP-256" => some rsaOaep256
  | "RSA-OAEP" => some rsaOaep
  | "A128KW" => some a128Kw
  | "A192KW" => some a192Kw
  | "A256KW" => some a256Kw
  | "dir" => some direct
  | _ => none

theorem ofName?_name (a : KeyManagement) : ofName? a.name = some a := by
  cases a <;> rfl

/-- The word for the algorithm in descriptions. -/
def label : KeyManagement → String
  | rsaOaep256 => "RsaOaep256"
  | rsaOaep => "RsaOaep"
  | a128Kw => "A128Kw"
  | a192Kw => "A192Kw"
  | a256Kw => "A256Kw"
  | direct => "Direct"

/-- Whether the recipient has an RSA key. -/
def isRsa : KeyManagement → Bool
  | rsaOaep256 | rsaOaep => true
  | _ => false

/-- Bytes in the key under which content keys are wrapped, if they are wrapped under a shared
key. -/
def wrappingKeyBytes? : KeyManagement → Option Nat
  | a128Kw => some 16
  | a192Kw => some 24
  | a256Kw => some 32
  | rsaOaep256 | rsaOaep | direct => none

/-- The algorithm that wraps under a shared key of the given number of bytes. -/
def ofKeyBytes? : Nat → Option KeyManagement
  | 16 => some a128Kw
  | 24 => some a192Kw
  | 32 => some a256Kw
  | _ => none

/-- The algorithm found for a length wraps under keys of that length. -/
theorem wrappingKeyBytes?_of_ofKeyBytes? {n : Nat} {a : KeyManagement}
    (h : ofKeyBytes? n = some a) : a.wrappingKeyBytes? = some n := by
  unfold ofKeyBytes? at h
  split at h <;> cases h <;> rfl

/-- The hash function in the masks of RSA encryption. -/
def hash : KeyManagement → Hash
  | rsaOaep => .sha1
  | _ => .sha256

end KeyManagement

/-! ## Content encryption -/

/-- How a content is encrypted. -/
inductive ContentEncryption where
  | a128CbcHs256
  | a192CbcHs384
  | a256CbcHs512
  | a128Gcm
  | a192Gcm
  | a256Gcm
  deriving Repr, DecidableEq

namespace ContentEncryption

/-- The name in a header. -/
def name : ContentEncryption → String
  | a128CbcHs256 => "A128CBC-HS256"
  | a192CbcHs384 => "A192CBC-HS384"
  | a256CbcHs512 => "A256CBC-HS512"
  | a128Gcm => "A128GCM"
  | a192Gcm => "A192GCM"
  | a256Gcm => "A256GCM"

/-- The algorithm with a name. -/
def ofName? : String → Option ContentEncryption
  | "A128CBC-HS256" => some a128CbcHs256
  | "A192CBC-HS384" => some a192CbcHs384
  | "A256CBC-HS512" => some a256CbcHs512
  | "A128GCM" => some a128Gcm
  | "A192GCM" => some a192Gcm
  | "A256GCM" => some a256Gcm
  | _ => none

theorem ofName?_name (a : ContentEncryption) : ofName? a.name = some a := by
  cases a <;> rfl

/-- The word for the algorithm in descriptions. -/
def label : ContentEncryption → String
  | a128CbcHs256 => "A128CbcHs256"
  | a192CbcHs384 => "A192CbcHs384"
  | a256CbcHs512 => "A256CbcHs512"
  | a128Gcm => "A128Gcm"
  | a192Gcm => "A192Gcm"
  | a256Gcm => "A256Gcm"

/-- The hash function of the tag, for algorithms that chain blocks and take a keyed hash. -/
def tagHash? : ContentEncryption → Option Hash
  | a128CbcHs256 => some .sha256
  | a192CbcHs384 => some .sha384
  | a256CbcHs512 => some .sha512
  | a128Gcm | a192Gcm | a256Gcm => none

/-- Whether the algorithm chains blocks and takes a keyed hash. -/
def isCbcHmac (a : ContentEncryption) : Bool := a.tagHash?.isSome

/-- Bytes in a content key; where there is a keyed hash, the first half is its key. -/
def keyBytes : ContentEncryption → Nat
  | a128CbcHs256 => 32
  | a192CbcHs384 => 48
  | a256CbcHs512 => 64
  | a128Gcm => 16
  | a192Gcm => 24
  | a256Gcm => 32

/-- Bytes in an initialization vector. -/
def ivBytes (a : ContentEncryption) : Nat := if a.isCbcHmac then 16 else 12

/-- Bytes in a tag. -/
def tagBytes : ContentEncryption → Nat
  | a128CbcHs256 => 16
  | a192CbcHs384 => 24
  | a256CbcHs512 => 32
  | a128Gcm | a192Gcm | a256Gcm => 16

end ContentEncryption

end WebToken
