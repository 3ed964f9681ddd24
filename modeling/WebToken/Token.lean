import WebToken.EncryptedToken

/-!
# Tokens

A token is signed or encrypted, and is written in one of three forms: compact, or as a JSON object
with a list of signatures or recipients, or as a JSON object without one.
-/

namespace WebToken

/-- The form in which a token is written. -/
inductive Form where
  | compact
  | general
  | flattened
  deriving Repr, DecidableEq

/-- A token of either kind. -/
inductive Token where
  | signed (t : SignedToken)
  | encrypted (t : EncryptedToken)
  deriving Repr

namespace Token

def isSigned : Token → Bool
  | signed _ => true
  | encrypted _ => false

def isEncrypted : Token → Bool
  | signed _ => false
  | encrypted _ => true

/-- The protected header. -/
def header : Token → Header
  | signed t => t.header
  | encrypted t => t.header

/-- The text of the protected header. -/
def segment : Token → String
  | signed t => t.segment
  | encrypted t => t.segment

/-- The unprotected header. -/
def unprotected : Token → Option Header
  | signed t => t.unprotected
  | encrypted t => t.unprotected

/-- The token with an unprotected header. -/
def withUnprotected (t : Token) (unprotected : Header) : Except Error Token :=
  match t with
  | signed t => (t.withUnprotected unprotected).map signed
  | encrypted t => (t.withUnprotected unprotected).map encrypted

/-- Whether two tokens are equal; the order of header parameters does not count. -/
def same : Token → Token → Bool
  | signed t, signed u => t.same u
  | encrypted t, encrypted u => t.same u
  | _, _ => false

end Token

end WebToken
