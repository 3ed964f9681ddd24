import WebToken.Json.Record
import WebToken.Token

/-!
# The JSON forms

A token with one signature or one recipient is a JSON object with a list of one entry (the general
form), or an object in which the members of that entry stand beside the others (the flattened
form). Which of the four objects it is can be told from the names of its members.

An encrypted token may carry unprotected parameters for all recipients and for one; when it is
read they become one header.
-/

namespace WebToken

open Json (Object Record Field)

/-! ## Members -/

/-- A member that is a text. -/
def textMember (name text : String) : Object := [(name, .string text)]

/-- A member that is the base64url text of bytes. -/
def bytesMember (name : String) (bytes : Bytes) : Object :=
  textMember name (Base64Url.encode bytes)

/-- A member that is a header, if there is one. -/
def headerMember (name : String) : Option Header → Object
  | none => []
  | some h => [(name, .object h.parameters)]

/-! ## Writing -/

namespace SignedToken

/-- The entry of a token in the list of signatures. -/
def entry (t : SignedToken) : Object :=
  textMember "protected" t.segment ++ headerMember "header" t.unprotected ++
    bytesMember "signature" t.signature

/-- The object of a token with a list of signatures. -/
def general (t : SignedToken) : Object :=
  bytesMember "payload" t.payload ++ [("signatures", .array [.object t.entry])]

/-- The object of a token without a list. -/
def flattened (t : SignedToken) : Object :=
  bytesMember "payload" t.payload ++ t.entry

end SignedToken

namespace EncryptedToken

/-- The entry of a token in the list of recipients: nothing if the encrypted key is empty. -/
def entry (t : EncryptedToken) : Object :=
  if t.encryptedKey = [] then [] else bytesMember "encrypted_key" t.encryptedKey

/-- The members that tell what is in the clear about the content. -/
def headMembers (t : EncryptedToken) : Object :=
  textMember "protected" t.segment ++ headerMember "unprotected" t.unprotected

/-- The members of the content. -/
def contentMembers (t : EncryptedToken) : Object :=
  bytesMember "iv" t.iv ++ bytesMember "ciphertext" t.ciphertext ++ bytesMember "tag" t.tag

/-- The object of a token with a list of recipients. -/
def general (t : EncryptedToken) : Object :=
  t.headMembers ++ [("recipients", .array [.object t.entry])] ++ t.contentMembers

/-- The object of a token without a list. -/
def flattened (t : EncryptedToken) : Object :=
  t.headMembers ++ t.entry ++ t.contentMembers

end EncryptedToken

/-! ## Records -/

/-- An entry in the list of signatures. -/
def signatureRecord : Record where
  title := "SignatureJson"
  fields := [.text "protected", .optionalObject "header", .text "signature"]

/-- A signed token with a list of signatures. -/
def signedGeneralRecord : Record where
  title := "JwsGeneralJson"
  fields := [.text "payload", .list "signatures" signatureRecord]

/-- What a signed token without a list has beside the members of its entry. -/
def signedFlattenedRecord : Record where
  title := "JwsFlattenedJson"
  fields := [.text "payload"]

/-- An entry in the list of recipients. -/
def recipientRecord : Record where
  title := "RecipientJson"
  fields := [.optionalObject "header", .textOrEmpty "encrypted_key"]

/-- An encrypted token with a list of recipients. -/
def encryptedGeneralRecord : Record where
  title := "JweGeneralJson"
  fields :=
    [.text "protected", .optionalObject "unprotected", .list "recipients" recipientRecord,
      .optionalText "aad", .text "iv", .text "ciphertext", .text "tag"]

/-- What an encrypted token without a list has beside the members of its entry. -/
def encryptedFlattenedRecord : Record where
  title := "JweFlattenedJson"
  fields :=
    [.text "protected", .optionalObject "unprotected", .optionalText "aad", .text "iv",
      .text "ciphertext", .text "tag"]

/-! ## Reading -/

/-- A text that was checked to be there, or is empty if it is not. -/
def textOf (o : Object) (name : String) : String := (o.text? name).getD ""

/-- The bytes of a member. -/
def bytesOf (o : Object) (name : String) : Except Error Bytes :=
  Segment.decode (textOf o name)

/-- An unprotected header, in which nothing may stand that must be understood. -/
def unprotectedHeader : Option Object → Except Error (Option Header)
  | none => .ok none
  | some ms =>
    if ms.contains "crit" then .error (.malformedToken .criticalUnprotected)
    else .ok (some ⟨ms⟩)

/-- The signed token of its payload's text and its entry. -/
def SignedToken.ofEntry (payload : String) (entry : Object) : Except Error SignedToken := do
  let segment := textOf entry "protected"
  let header ← Header.decode segment
  let unprotected ← unprotectedHeader (entry.object? "header")
  let payload ← Segment.decode payload
  let signature ← bytesOf entry "signature"
  ofParts header segment unprotected payload signature

/-- The unprotected parameters for all recipients and for one, in this order. None may stand in
both. -/
def mergeUnprotected (shared own : Option Object) : Except Error (Option Header) :=
  match shared, own with
  | some shared, some own =>
    match own.names.find? shared.contains with
    | some name => .error (.malformedToken (.repeatedName name))
    | none => unprotectedHeader (some (shared ++ own))
  | some ms, none | none, some ms => unprotectedHeader (some ms)
  | none, none => .ok none

/-- The encrypted token of its members and its entry. -/
def EncryptedToken.ofEntry (members entry : Object) : Except Error EncryptedToken := do
  if (members.text? "aad").isSome then .error (.malformedToken .additionalData)
  else
    let segment := textOf members "protected"
    let header ← Header.decode segment
    let unprotected ← mergeUnprotected (members.object? "unprotected") (entry.object? "header")
    let encryptedKey ← bytesOf entry "encrypted_key"
    let iv ← bytesOf members "iv"
    let ciphertext ← bytesOf members "ciphertext"
    let tag ← bytesOf members "tag"
    ofParts header segment unprotected encryptedKey iv ciphertext tag

/-- What an object lacks to be one of the JSON forms. -/
def orMalformedForm {α : Type} (form : JsonForm) (r : Except Json.ReadError α) : Except Error α :=
  r.mapError fun e => .malformedToken (.jsonMembers form e)

/-- The signed token of an object with a list of signatures. -/
def SignedToken.ofGeneral (o : Object) : Except Error SignedToken := do
  let members ← orMalformedForm .signedGeneral (signedGeneralRecord.read (.object o))
  match members.records "signatures" signatureRecord with
  | [entry] => ofEntry (textOf members "payload") entry
  | entries => .error (.malformedToken (.signatureCount entries.length))

/-- The signed token of an object without a list. -/
def SignedToken.ofFlattened (o : Object) : Except Error SignedToken := do
  orMalformedForm .signedFlattened do
    signedFlattenedRecord.checkObject o
    signatureRecord.checkObject o
  ofEntry (textOf o "payload") o

/-- The encrypted token of an object with a list of recipients. -/
def EncryptedToken.ofGeneral (o : Object) : Except Error EncryptedToken := do
  let members ← orMalformedForm .encryptedGeneral (encryptedGeneralRecord.read (.object o))
  match members.records "recipients" recipientRecord with
  | [entry] => ofEntry members entry
  | entries => .error (.malformedToken (.recipientCount entries.length))

/-- The encrypted token of an object without a list. -/
def EncryptedToken.ofFlattened (o : Object) : Except Error EncryptedToken := do
  orMalformedForm .encryptedFlattened do
    encryptedFlattenedRecord.checkObject o
    recipientRecord.checkObject o
  ofEntry o o

/-- The token of an object, told by the names of its members. -/
def Token.ofObject (o : Object) : Except Error Token :=
  if o.contains "signatures" then (SignedToken.ofGeneral o).map .signed
  else if o.contains "recipients" then (EncryptedToken.ofGeneral o).map .encrypted
  else if o.contains "ciphertext" then (EncryptedToken.ofFlattened o).map .encrypted
  else if o.contains "payload" then (SignedToken.ofFlattened o).map .signed
  else .error (.malformedToken .jsonNeither)

/-- The token of a JSON text. -/
def Token.ofJson (text : String) : Except Error Token :=
  match Json.parse (Bytes.ofString text) with
  | .error fault => .error (.malformedToken (.jsonSyntax fault))
  | .ok (.object o) => Token.ofObject o
  | .ok _ => .error (.malformedToken .jsonNotObject)

end WebToken
