import WebToken.Text.Blank
import WebToken.Token.Compact
import WebToken.Token.Json

/-!
# The texts of tokens

A token is written in the form that is asked for. A text is read in the form that it has: one that
begins with a brace is JSON, any other is compact. Blanks around a text do not count.
-/

namespace WebToken

/-- The text of a signed token. -/
def SignedToken.text (t : SignedToken) : Form → Except Error String
  | .compact => t.compact
  | .general => .ok t.general.text
  | .flattened => .ok t.flattened.text

/-- The text of an encrypted token. -/
def EncryptedToken.text (t : EncryptedToken) : Form → Except Error String
  | .compact => t.compact
  | .general => .ok t.general.text
  | .flattened => .ok t.flattened.text

namespace Token

/-- The text of a token. -/
def text : Token → Form → Except Error String
  | signed t, form => t.text form
  | encrypted t, form => t.text form

/-- The token of a text. -/
def ofText (text : String) : Except Error Token :=
  let trimmed := Text.trim text
  match trimmed.toList with
  | '\x7b' :: _ => ofJson trimmed
  | _ => ofCompact trimmed

end Token

/-! ## Texts signed, verified and decrypted -/

/-- The compact text of a payload signed with a key. -/
def signCompact (payload : Bytes) (key : Key) (header : Header) : Except Error String := do
  (← SignedToken.sign payload key header).compact

/-- The payload of a text that is a signed token. -/
def verifyText (text : String) (key : Key) : Except Error Bytes := do
  match ← Token.ofText text with
  | .signed t => t.verify key
  | .encrypted _ => .error (.malformedToken .notSigned)

/-- The compact text of a payload encrypted for a key. -/
def encryptCompact (payload : Bytes) (key : Key) (header : Header) (random : Randomness) :
    Except Error String := do
  (← EncryptedToken.encrypt payload key header random).compact

/-- The content of a text that is an encrypted token; the steps of decryption fail alike. -/
def decryptText (text : String) (key : Key) : Except Error Bytes := do
  match ← Token.ofText text with
  | .encrypted t => t.decryptHidden key
  | .signed _ => .error (.malformedToken .notEncrypted)

end WebToken
