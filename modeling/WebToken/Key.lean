import WebToken.Crypto.Rsa
import WebToken.Error

/-!
# Keys

A key is a shared secret, or an RSA key with or without its private half, together with
parameters that restrict what it is used for. A secret is never empty and an RSA modulus never
smaller than `minModulusBits`.

* `Key.permits_iff` : when a use of a key is not refused.
-/

namespace WebToken

open Crypto

/-! ## Types -/

/-- A shared secret. -/
structure Secret where
  bytes : Bytes
  nonempty : bytes ≠ []
  deriving DecidableEq

/-- Bits of a secret. -/
def Secret.bits (s : Secret) : Nat := 8 * s.bytes.length

/-- What a key is made of. -/
inductive KeyMaterial where
  | symmetric (secret : Secret)
  | rsaPublic (k : Rsa.PublicKey) (large : minModulusBits ≤ k.bits)
  | rsaPrivate (k : Rsa.PrivateKey) (large : minModulusBits ≤ k.bits)
  deriving DecidableEq

/-- What a key says about itself. -/
structure KeyParams where
  kid : Option String
  use : Option KeyUse
  operations : Option (List KeyOperation)
  alg : Option String
  deriving Repr, DecidableEq

/-- No parameters. -/
def KeyParams.none : KeyParams := ⟨.none, .none, .none, .none⟩

/-- A key. -/
structure Key where
  material : KeyMaterial
  params : KeyParams
  deriving DecidableEq

namespace Key

/-! ## Making keys -/

/-- The key of a shared secret. -/
def symmetric (secret : Bytes) : Except Error Key :=
  if h : secret ≠ [] then .ok ⟨.symmetric ⟨secret, h⟩, .none⟩
  else .error (.invalidParameter .emptySecret)

/-- The material of an RSA public key that is large enough. -/
def publicMaterial (k : Rsa.PublicKey) : Except Error KeyMaterial :=
  if h : minModulusBits ≤ k.bits then .ok (.rsaPublic k h)
  else .error (.malformedKey (.smallModulus k.bits))

/-- The material of an RSA private key that is large enough. -/
def privateMaterial (k : Rsa.PrivateKey) : Except Error KeyMaterial :=
  if h : minModulusBits ≤ k.bits then .ok (.rsaPrivate k h)
  else .error (.malformedKey (.smallModulus k.bits))

/-- Refuse a size for a secret: it must be a whole number of bytes, and not zero. -/
def checkSecretSize (bits : Nat) : Except Error Unit :=
  if bits = 0 ∨ bits % 8 ≠ 0 then .error (.invalidParameter (.secretSize bits)) else .ok ()

/-- Refuse a size for an RSA modulus that is not made. -/
def checkModulusSize (bits : Nat) : Except Error Unit :=
  if bits ∈ modulusSizes then .ok () else .error (.invalidParameter (.modulusSize bits))

/-- A key with a secret of the given size, taken from a source of random bytes. -/
def generateSymmetric (bits : Nat) (random : (n : Nat) → Vector UInt8 n) : Except Error Key := do
  checkSecretSize bits
  symmetric (random (bits / 8)).toList

/-- The key without its private half. -/
def toPublic (key : Key) : Except Error Key :=
  match key.material with
  | .symmetric _ => .error (.unsupportedOperation .noPublicPart)
  | .rsaPublic .. => .ok key
  | .rsaPrivate k large => .ok { key with material := .rsaPublic k.toPublicKey large }

/-- What holds between public keys and themselves, and between private keys and their public halves,
holds between all keys and their public halves. -/
@[elab_as_elim]
theorem toPublic_cases {motive : Key → Key → Prop} {key half : Key} (h : key.toPublic = .ok half)
    (rsaPublic : ∀ k large params,
      motive ⟨.rsaPublic k large, params⟩ ⟨.rsaPublic k large, params⟩)
    (rsaPrivate : ∀ (k : Rsa.PrivateKey) large params,
      motive ⟨.rsaPrivate k large, params⟩ ⟨.rsaPublic k.toPublicKey large, params⟩) :
    motive key half := by
  obtain ⟨material, params⟩ := key
  cases material with
  | symmetric s => cases h
  | rsaPublic k large =>
    cases h
    exact rsaPublic k large params
  | rsaPrivate k large =>
    cases h
    exact rsaPrivate k large params

def withKid (key : Key) (kid : String) : Key :=
  { key with params := { key.params with kid := some kid } }

def withUse (key : Key) (use : KeyUse) : Key :=
  { key with params := { key.params with use := some use } }

def withOperations (key : Key) (operations : List KeyOperation) : Key :=
  { key with params := { key.params with operations := some operations } }

def withAlg (key : Key) (alg : String) : Key :=
  { key with params := { key.params with alg := some alg } }

/-- The key without parameters. -/
def bare (key : Key) : Key := { key with params := .none }

/-! ## Looking at keys -/

/-- Whether the key is a shared secret. -/
def isSymmetric (key : Key) : Bool :=
  match key.material with
  | .symmetric _ => true
  | _ => false

/-- Whether the key holds anything that must be kept secret. -/
def hasPrivate (key : Key) : Bool :=
  match key.material with
  | .rsaPublic .. => false
  | _ => true

/-- Bits of the secret or of the modulus. -/
def bits (key : Key) : Nat :=
  match key.material with
  | .symmetric s => s.bits
  | .rsaPublic k _ => k.bits
  | .rsaPrivate k _ => k.bits

/-- The kind of the key in words. -/
def kindName (key : Key) : String :=
  match key.material with
  | .symmetric _ => "symmetric"
  | .rsaPublic .. => "RSA public"
  | .rsaPrivate .. => "RSA private"

/-- The shared secret. -/
def secret? (key : Key) : Option Bytes :=
  match key.material with
  | .symmetric s => some s.bytes
  | _ => none

/-- The RSA public key, with or without a private half. -/
def rsaPublic? (key : Key) : Option Rsa.PublicKey :=
  match key.material with
  | .symmetric _ => none
  | .rsaPublic k _ => some k
  | .rsaPrivate k _ => some k.toPublicKey

/-- What holds of public keys, and of private keys with their public numbers, holds of every key that
has public numbers. -/
@[elab_as_elim]
theorem rsaPublic?_cases {motive : Key → Rsa.PublicKey → Prop} {key : Key} {k : Rsa.PublicKey}
    (h : key.rsaPublic? = some k)
    (rsaPublic : ∀ k large params, motive ⟨.rsaPublic k large, params⟩ k)
    (rsaPrivate : ∀ (k : Rsa.PrivateKey) large params,
      motive ⟨.rsaPrivate k large, params⟩ k.toPublicKey) : motive key k := by
  obtain ⟨material, params⟩ := key
  cases material with
  | symmetric s => cases h
  | rsaPublic k' large =>
    cases h
    exact rsaPublic k large params
  | rsaPrivate k' large =>
    cases h
    exact rsaPrivate k' large params

/-- The RSA private key. -/
def rsaPrivate? (key : Key) : Option Rsa.PrivateKey :=
  match key.material with
  | .rsaPrivate k _ => some k
  | _ => none

/-! ## What a key permits -/

/-- The error of a key that is none of the kind that an algorithm requires. -/
def mismatch (key : Key) (alg expected : String) : Error :=
  .algorithmMismatch alg expected key.kindName

/-- Refuse a key that names another algorithm. -/
def requireAlg (key : Key) (alg : String) : Except Error Unit :=
  match key.params.alg with
  | none => .ok ()
  | some declared =>
    if declared = alg then .ok ()
    else .error (.algorithmMismatch alg s!"alg={alg}" s!"alg={declared}")

/-- Refuse a key that is restricted to another purpose. -/
def requireUse (key : Key) (use : KeyUse) : Except Error Unit :=
  match key.params.use with
  | none => .ok ()
  | some declared =>
    if declared = use then .ok () else .error (.unsupportedOperation (.restrictedTo declared))

/-- Refuse a key that lists operations, and none of those wanted. -/
def requireAnyOf (key : Key) (operations : List KeyOperation) : Except Error Unit :=
  match key.params.operations with
  | none => .ok ()
  | some allowed =>
    if operations.any (· ∈ allowed) then .ok ()
    else .error (.unsupportedOperation (.notPermitted operations))

/-- Refuse a use of a key that its parameters do not permit: the algorithm is looked at first,
then the purpose, then the operations. -/
def require (key : Key) (alg : String) (use : KeyUse) (operations : List KeyOperation) :
    Except Error Unit := do
  key.requireAlg alg
  key.requireUse use
  key.requireAnyOf operations

/-- Whether the parameters of a key permit a use: none of them says otherwise. -/
def Permits (key : Key) (alg : String) (use : KeyUse) (operations : List KeyOperation) : Prop :=
  (∀ declared, key.params.alg = some declared → declared = alg) ∧
  (∀ declared, key.params.use = some declared → declared = use) ∧
  (∀ allowed, key.params.operations = some allowed → ∃ o ∈ operations, o ∈ allowed)

theorem requireAlg_eq_ok_iff {key : Key} {alg : String} :
    key.requireAlg alg = .ok () ↔ ∀ declared, key.params.alg = some declared → declared = alg := by
  unfold requireAlg
  cases key.params.alg <;> simp

theorem requireUse_eq_ok_iff {key : Key} {use : KeyUse} :
    key.requireUse use = .ok () ↔ ∀ declared, key.params.use = some declared → declared = use := by
  unfold requireUse
  cases key.params.use <;> simp

theorem requireAnyOf_eq_ok_iff {key : Key} {operations : List KeyOperation} :
    key.requireAnyOf operations = .ok () ↔
      ∀ allowed, key.params.operations = some allowed → ∃ o ∈ operations, o ∈ allowed := by
  unfold requireAnyOf
  cases key.params.operations <;> simp

/-- Exactly the permitted uses are not refused. -/
theorem permits_iff {key : Key} {alg : String} {use : KeyUse} {operations : List KeyOperation} :
    key.require alg use operations = .ok () ↔ key.Permits alg use operations := by
  rw [Permits, ← requireAlg_eq_ok_iff, ← requireUse_eq_ok_iff, ← requireAnyOf_eq_ok_iff, require]
  cases key.requireAlg alg <;> cases key.requireUse use <;>
    simp [bind, Except.bind]

end Key

end WebToken
