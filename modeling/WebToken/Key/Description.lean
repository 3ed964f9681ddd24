import WebToken.Key
import WebToken.Text.Quoted

/-!
# Descriptions of keys

A key is described by its kind, its size and its parameters. A description shows nothing of a
secret or of a private half.
-/

namespace WebToken

/-- A value that may be missing. -/
def describeOption {α : Type} (describe : α → String) : Option α → String
  | none => "None"
  | some a => s!"Some({describe a})"

/-- A list of values. -/
def describeList {α : Type} (describe : α → String) (as : List α) : String :=
  "[" ++ ", ".intercalate (as.map describe) ++ "]"

/-- The description of a key's parameters. -/
def KeyParams.describe (p : KeyParams) : String :=
  "KeyParams \x7b kid: " ++ describeOption Text.quoted p.kid ++
  ", key_use: " ++ describeOption KeyUse.label p.use ++
  ", key_ops: " ++ describeOption (describeList KeyOperation.label) p.operations ++
  ", alg: " ++ describeOption Text.quoted p.alg ++ " \x7d"

/-- The description of a shared secret of `bits` bits. -/
def describeSecret (bits : Nat) (p : KeyParams) : String :=
  s!"SymmetricKey \x7b bits: {bits}, params: {p.describe}, .. \x7d"

/-- The description of an RSA key. -/
def describeRsa (bits : Nat) (hasPrivate : Bool) (p : KeyParams) : String :=
  s!"RsaKey \x7b bits: {bits}, private: {hasPrivate}, params: {p.describe}, .. \x7d"

/-- The description of a key without its kind. -/
def Key.describeInner (key : Key) : String :=
  if key.isSymmetric then describeSecret key.bits key.params
  else describeRsa key.bits key.hasPrivate key.params

/-- The description of a key. -/
def Key.describe (key : Key) : String :=
  if key.isSymmetric then s!"Symmetric({key.describeInner})" else s!"Rsa({key.describeInner})"

end WebToken
