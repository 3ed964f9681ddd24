import WebToken.Error
import WebToken.Json.Printer

/-!
# Headers

The header of a token is a JSON object that keeps the order of its parameters. What a token
protects is the text of its header, so a header that was received keeps that text next to its
parameters.
-/

namespace WebToken

/-- The parameters of a token, in order. -/
structure Header where
  parameters : Json.Object
  deriving Repr, Inhabited

/-- The bytes of a segment of a token. -/
def Segment.decode (segment : String) : Except Error Bytes :=
  (Base64Url.decode segment).mapError fun fault => .malformedToken (.base64 fault)

namespace Header

/-! ## Making headers -/

/-- A header without parameters. -/
def empty : Header := ⟨[]⟩

/-- The header with a parameter set: in its place if it is there, else at the end. -/
def insert (h : Header) (name : String) (v : Json.Value) : Header := ⟨h.parameters.insert name v⟩

/-- The header of a signed token. -/
def signed (alg : SignatureAlgorithm) : Header := ⟨[("alg", .string alg.name)]⟩

/-- The header of an encrypted token. -/
def encrypted (alg : KeyManagement) (enc : ContentEncryption) : Header :=
  ⟨[("alg", .string alg.name), ("enc", .string enc.name)]⟩

/-- The header naming the key. -/
def withKid (h : Header) (kid : String) : Header := h.insert "kid" (.string kid)

/-- The header naming the type of the token. -/
def withTyp (h : Header) (typ : String) : Header := h.insert "typ" (.string typ)

/-- The header naming the type of the content. -/
def withCty (h : Header) (cty : String) : Header := h.insert "cty" (.string cty)

/-! ## Reading parameters -/

/-- The value of a parameter. -/
def get? (h : Header) (name : String) : Option Json.Value := h.parameters.get? name

/-- Whether a parameter is present. -/
def contains (h : Header) (name : String) : Bool := h.parameters.contains name

/-- The names of the parameters, in order. -/
def names (h : Header) : List String := h.parameters.names

/-- The text of a parameter, if it is one. -/
def text? (h : Header) (name : String) : Option String := h.parameters.text? name

def alg? (h : Header) : Option String := h.text? "alg"
def enc? (h : Header) : Option String := h.text? "enc"
def kid? (h : Header) : Option String := h.text? "kid"
def typ? (h : Header) : Option String := h.text? "typ"
def cty? (h : Header) : Option String := h.text? "cty"

/-- The algorithm that a parameter names; `missing` is what is wrong if there is no text. -/
def algorithm {α : Type} (ofName? : String → Option α) (missing : ParameterFault) :
    Option String → Except Error α
  | none => .error (.invalidParameter missing)
  | some name => algorithmNamed ofName? name

/-- The signature algorithm of the header. -/
def signatureAlgorithm (h : Header) : Except Error SignatureAlgorithm :=
  algorithm SignatureAlgorithm.ofName? .missingAlg h.alg?

/-- The key management of the header. -/
def keyManagement (h : Header) : Except Error KeyManagement :=
  algorithm KeyManagement.ofName? .missingAlg h.alg?

/-- The content encryption of the header. -/
def contentEncryption (h : Header) : Except Error ContentEncryption :=
  algorithm ContentEncryption.ofName? .missingEnc h.enc?

/-! ## Conditions -/

/-- The first parameter that stands in another header too. -/
def sharedName? (h other : Header) : Option String := h.names.find? other.contains

/-- Refuse a header with parameters that must be understood: none of these are. -/
def refuseCritical (h : Header) : Except Error Unit :=
  if h.contains "crit" then .error (.malformedToken .criticalParameters) else .ok ()

/-! ## Protected headers -/

/-- The header in its compact JSON text. -/
def json (h : Header) : String := h.parameters.text

/-- The segment of a token that protects the header. -/
def encode (h : Header) : String := Base64Url.encode (Bytes.ofString h.json)

/-- The header that a segment protects. -/
def decode (segment : String) : Except Error Header := do
  let bytes ← Segment.decode segment
  match Json.parse bytes with
  | .error fault => .error (.malformedToken (.headerSyntax fault))
  | .ok (.object ms) =>
    refuseCritical ⟨ms⟩
    return ⟨ms⟩
  | .ok _ => .error (.malformedToken .headerNotObject)

/-- Whether two headers have the same parameters, in whatever order. -/
def same (h other : Header) : Bool :=
  (Json.Value.object h.parameters).same (.object other.parameters)

end Header

end WebToken
