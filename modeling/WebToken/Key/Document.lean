import WebToken.Json.Printer
import WebToken.Json.TextRecord
import WebToken.Key

/-!
# Key documents

A key document is a JSON object (or an array of the same fields) with a type, the parameters of a
key, and numbers and secrets in base64url. Nothing is decoded here.

A document can be read from an object (`Jwk.ofObject`) and from a text (`Jwk.ofText`); from a text
a repeated member is refused, and what is wrong is reported in the order of the text.
-/

namespace WebToken

/-- A key document. -/
structure Jwk where
  kty : String
  params : KeyParams
  k : Option String
  n : Option String
  e : Option String
  d : Option String
  p : Option String
  q : Option String
  dp : Option String
  dq : Option String
  qi : Option String
  oth : Option Json.Value
  deriving Repr

namespace Jwk

/-! ## Fields -/

/-- The members that are texts and may be missing, in order. -/
def textNames : List String := ["alg", "kid", "k", "n", "e", "d", "p", "q", "dp", "dq", "qi"]

/-- The fields of a key document that is a value. -/
def record : Json.Record where
  title := "Jwk"
  fields :=
    [⟨"kty", .required, fun v => do let _ ← v.asText⟩,
      ⟨"use", .optional, fun v => do let _ ← v.optional (Json.Value.asChoice KeyUse.table)⟩,
      ⟨"key_ops", .optional, fun v => do
        let _ ← v.optional fun v => v.asList (Json.Value.asChoice KeyOperation.table)⟩] ++
    textNames.map (fun name =>
      ⟨name, .optional, fun v => do let _ ← v.optional Json.Value.asText⟩) ++
    [⟨"oth", .optional, fun _ => .ok ()⟩]

/-- A value that may be missing. -/
def orNull {α : Type} (f : α → Json.Value) : Option α → Json.Value
  | none => .null
  | some a => f a

/-- The purpose as a value. -/
def useValue (u : KeyUse) : Json.Value := .string u.name

/-- The operations as a value. -/
def operationsValue (os : List KeyOperation) : Json.Value :=
  .array (os.map fun o => .string o.name)

/-- The nesting that is left inside a key document. -/
def innerDepth : Nat := Json.Document.maxDepth - 1

/-- The fields of a key document that is a text. -/
def textRecord : Json.TextRecord where
  title := "Jwk"
  fields :=
    [⟨"kty", .required, fun d => d.asText.map .string⟩,
      ⟨"use", .optional, fun d =>
        (d.optional (Json.Document.asChoice innerDepth KeyUse.table)).map (orNull useValue)⟩,
      ⟨"key_ops", .optional, fun d =>
        (d.optional fun d => d.asList innerDepth
          (Json.Document.asChoice (innerDepth - 1) KeyOperation.table)).map
            (orNull operationsValue)⟩] ++
    textNames.map (fun name =>
      ⟨name, .optional, fun d => (d.optional Json.Document.asText).map (orNull .string)⟩) ++
    [⟨"oth", .optional, fun d => Json.orFault (d.value innerDepth)⟩]

/-! ## Reading -/

/-- The purpose that a member holds. -/
def useOf (o : Json.Object) : Option KeyUse := do
  (← o.get? "use").asChoice KeyUse.table |>.toOption

/-- The operations that a member holds. -/
def operationsOf (o : Json.Object) : Option (List KeyOperation) := do
  (← o.get? "key_ops").asList (Json.Value.asChoice KeyOperation.table) |>.toOption

/-- The multi-prime part of a document, if there is one. -/
def othOf (o : Json.Object) : Option Json.Value :=
  match o.get? "oth" with
  | some .null => none
  | v => v

/-- The document that checked members make. -/
def ofMembers (o : Json.Object) : Jwk where
  kty := (o.text? "kty").getD ""
  params := ⟨o.text? "kid", useOf o, operationsOf o, o.text? "alg"⟩
  k := o.text? "k"
  n := o.text? "n"
  e := o.text? "e"
  d := o.text? "d"
  p := o.text? "p"
  q := o.text? "q"
  dp := o.text? "dp"
  dq := o.text? "dq"
  qi := o.text? "qi"
  oth := othOf o

/-- What cannot be read is a malformed key. -/
def orMalformed {α : Type} (r : Except Json.ReadError α) : Except Error α :=
  r.mapError fun e => .malformedKey (.document e)

/-- The document that an object is. -/
def ofObject (o : Json.Object) : Except Error Jwk := do
  return ofMembers (← orMalformed (record.read (.object o)))

/-- The document that a text is. -/
def ofText (text : String) : Except Error Jwk := do
  return ofMembers (← orMalformed (Json.readText textRecord.read (Bytes.ofString text)))

/-! ## Writing -/

/-- The members of a document that are there, in order. -/
def toObject (j : Jwk) : Json.Object :=
  [("kty", some (.string j.kty)),
    ("use", j.params.use.map useValue),
    ("key_ops", j.params.operations.map operationsValue),
    ("alg", j.params.alg.map .string),
    ("kid", j.params.kid.map .string),
    ("k", j.k.map .string),
    ("n", j.n.map .string),
    ("e", j.e.map .string),
    ("d", j.d.map .string),
    ("p", j.p.map .string),
    ("q", j.q.map .string),
    ("dp", j.dp.map .string),
    ("dq", j.dq.map .string),
    ("qi", j.qi.map .string),
    ("oth", j.oth)].filterMap fun (name, v) => v.map fun v => (name, v)

end Jwk

end WebToken
