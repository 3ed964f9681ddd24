import WebToken.Profile
import WebToken.Text.Blank

/-!
# Configuration

Settings are texts looked up by name. A setting that is missing has its usual value; one that is
there must be readable, and all together must fit: sizes of keys that can be made, algorithms in
their places, and secrets long enough for the algorithm that signs with them.
-/

namespace WebToken

/-- The configuration of a service. -/
structure Config where
  logLevel : String
  logJson : Bool
  modulusBits : Nat
  secretBits : Nat
  profile : Profile
  /-- Seconds by which clocks may differ. -/
  leeway : Nat
  deriving Repr, DecidableEq

namespace Config

/-- The usual configuration. -/
def standard : Config := ⟨"info", false, 2048, 256, .standard, 60⟩

/-! ## Reading settings -/

/-- The truth value of a text. -/
def readBool : String → Except SettingFault Bool
  | "true" => .ok true
  | "false" => .ok false
  | _ => .error .notBool

/-- The number of digits, gathered from the left: the first digit that is none and the first that
makes the number too large are told apart. -/
def readDigits (n : Nat) : List Char → Except SettingFault Nat
  | [] => .ok n
  | c :: cs =>
    if c.isDigit then
      let m := 10 * n + (c.toNat - 48)
      if m < 0x10000000000000000 then readDigits m cs else .error .numberTooLarge
    else .error .invalidDigit

/-- The number of a text, which may begin with a plus sign. -/
def readNat (text : String) : Except SettingFault Nat :=
  match text.toList with
  | [] => .error .emptyNumber
  | ['+'] => .error .invalidDigit
  | '+' :: cs => readDigits 0 cs
  | cs => readDigits 0 cs

/-- The algorithm of a text. -/
def readAlgorithm {α : Type} (ofName? : String → Option α) (text : String) :
    Except SettingFault α :=
  match ofName? text with
  | some a => .ok a
  | none => .error (.unknownAlgorithm text)

/-- A setting as it is read from its text without blanks around it, or its usual value. -/
def setting {α : Type} (lookup : String → Option String) (name : String)
    (read : String → Except SettingFault α) (usual : α) : Except Error α :=
  match lookup name with
  | some text => (read (Text.trim text)).mapError fun fault => .configError (.setting name fault)
  | none => .ok usual

/-! ## Conditions -/

/-- The first condition that a configuration does not meet. -/
def fault? (c : Config) : Option ConfigFault :=
  if c.modulusBits ∉ modulusSizes then some (.modulusSize c.modulusBits)
  else if c.secretBits = 0 ∨ c.secretBits % 8 ≠ 0 then some (.secretSize c.secretBits)
  else
    match c.profile.fault? with
    | some fault => some fault
    | none =>
      if c.secretBits < c.profile.symmetricSigning.minSecretBits then
        some (.weakSecret c.profile.symmetricSigning c.secretBits)
      else none

/-- Refuse a configuration that does not meet its conditions. -/
def validate (c : Config) : Except Error Unit :=
  match c.fault? with
  | some fault => .error (.configError fault)
  | none => .ok ()

/-- The configuration of the settings that are looked up. -/
def ofLookup (lookup : String → Option String) : Except Error Config := do
  let logLevel := (lookup "JOSE_LOG_LEVEL").getD standard.logLevel
  let logJson ← setting lookup "JOSE_LOG_JSON" readBool standard.logJson
  let modulusBits ← setting lookup "JOSE_RSA_KEY_BITS" readNat standard.modulusBits
  let secretBits ← setting lookup "JOSE_SYMMETRIC_KEY_BITS" readNat standard.secretBits
  let asymmetricSigning ← setting lookup "JOSE_JWS_ALG_ASYMMETRIC"
    (readAlgorithm SignatureAlgorithm.ofName?) standard.profile.asymmetricSigning
  let symmetricSigning ← setting lookup "JOSE_JWS_ALG_SYMMETRIC"
    (readAlgorithm SignatureAlgorithm.ofName?) standard.profile.symmetricSigning
  let keyManagement ← setting lookup "JOSE_JWE_ALG"
    (readAlgorithm KeyManagement.ofName?) standard.profile.keyManagement
  let contentEncryption ← setting lookup "JOSE_JWE_ENC"
    (readAlgorithm ContentEncryption.ofName?) standard.profile.contentEncryption
  let leeway ← setting lookup "JOSE_CLOCK_LEEWAY" readNat standard.leeway
  let profile := ⟨asymmetricSigning, symmetricSigning, keyManagement, contentEncryption⟩
  let config := ⟨logLevel, logJson, modulusBits, secretBits, profile, leeway⟩
  validate config
  return config

end Config

end WebToken
