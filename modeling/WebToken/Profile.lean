import WebToken.Error

/-!
# Algorithm profiles

A profile names the algorithms that are used when nobody asks for another one.
-/

namespace WebToken

/-- The algorithms that are used unless others are asked for. -/
structure Profile where
  asymmetricSigning : SignatureAlgorithm
  symmetricSigning : SignatureAlgorithm
  keyManagement : KeyManagement
  contentEncryption : ContentEncryption
  deriving Repr, DecidableEq

namespace Profile

/-- The usual profile. -/
def standard : Profile := ⟨.rs256, .hs256, .rsaOaep256, .a256CbcHs512⟩

/-- The signature algorithm for keys that are shared secrets, or for those that are not. -/
def signingAlgorithm (p : Profile) (symmetric : Bool) : SignatureAlgorithm :=
  if symmetric then p.symmetricSigning else p.asymmetricSigning

/-- The first algorithm that does not fit its place. -/
def fault? (p : Profile) : Option ConfigFault :=
  if !p.symmetricSigning.isHmac then some (.symmetricAlgorithm p.symmetricSigning)
  else if p.asymmetricSigning.isHmac then some (.asymmetricAlgorithm p.asymmetricSigning)
  else if !p.keyManagement.isRsa then some (.keyManagement p.keyManagement)
  else none

/-- Refuse a profile in which an algorithm does not fit its place. -/
def validate (p : Profile) : Except Error Unit :=
  match p.fault? with
  | some fault => .error (.configError fault)
  | none => .ok ()

/-- The description of a profile. -/
def describe (p : Profile) : String :=
  s!"Profile \x7b asymmetric_signing: {p.asymmetricSigning.name}, " ++
  s!"symmetric_signing: {p.symmetricSigning.name}, " ++
  s!"key_management: {p.keyManagement.label}, " ++
  s!"content_encryption: {p.contentEncryption.label} \x7d"

end Profile

end WebToken
